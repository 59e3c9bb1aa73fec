import LineScript.Binary64
import LineScript.CommandLine
import LineScript.Decimal
import LineScript.Disk
import LineScript.Engine
import LineScript.Environment
import LineScript.Expression
import LineScript.Fault
import LineScript.Keyword
import LineScript.Line
import LineScript.Listing
import LineScript.Listing.Matching
import LineScript.Literal
import LineScript.Machine
import LineScript.Main
import LineScript.Name
import LineScript.Operator
import LineScript.Proofs.BlockStructure
import LineScript.Proofs.Causes
import LineScript.Proofs.ControlFlow
import LineScript.Proofs.Flattening
import LineScript.Proofs.Lifetime
import LineScript.Proofs.Nesting
import LineScript.Proofs.Rounds
import LineScript.Proofs.ScopeErrors
import LineScript.Proofs.Scoping
import LineScript.Proofs.Simulation
import LineScript.Proofs.Structured
import LineScript.Proofs.Transitions
import LineScript.ScriptFile
import LineScript.Session
import LineScript.Stack
import LineScript.Statement
import LineScript.Terminal
import LineScript.Text
import LineScript.Value
import LineScript.Value.Operation
import LineScript.Variables
import LineScript.Proofs.StepLimit
import LineScript.Proofs.Termination
import LineScript.Proofs.Renumbering
import LineScript.Proofs.BlankLines
import LineScript.Proofs.Unexecuted
import LineScript.Proofs.ReadBack
import LineScript.Proofs.Reporting
import LineScript.Proofs.Isolation
import LineScript.Proofs.Renaming
import LineScript.Proofs.RenamedRuns
import LineScript.Proofs.BlockEnds
import LineScript.Proofs.LeavingBlocks
import LineScript.Proofs.Framing
import LineScript.Proofs.Sessions
import LineScript.Proofs.Magnitude
import LineScript.Proofs.Evaluation
import LineScript.Proofs.Numerals
import LineScript.Proofs.Conditions
import LineScript.Proofs.LineEndings
import LineScript.Proofs.Disposal
import LineScript.Proofs.Rounding
import LineScript.Proofs.Shortest
import LineScript.Proofs.PrintedValues
