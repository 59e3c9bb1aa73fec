import LineScript.Proofs.Structured

/-!
# LineScript.Proofs.Flattening — where the blocks of a flattened program end

Every block of a structured program is written as an opener, the lines inside it and a closer.  The search that counts
blocks walks over a flattened program without noticing the blocks inside it, so it finds the end of each block where
it was written.

* `Listing.Holds i lines`: the lines stand in the listing from line `i` on.
* `Listing.Skips`: a search with a given number of open blocks goes through lines and comes out with the same number.
* `skips_linesOf`: it does so with every list of constructs.
* `Listing.closer?_of_holds`, `Listing.elseOrCloser?_of_holds`, `Listing.elseOrCloser?_of_else`: where a block ends.
-/

namespace LineScript

/-! ### The lines of a construct -/

@[simp] theorem Keyword.keyword?_line (k : Keyword) (tokens : List String) : (k.line tokens).keyword? = some k := by
  simp [line, Line.keyword?]

/-- A simple line plays no part in the nesting of blocks. -/
theorem Line.role_of_isSimple {line : Line} (h : line.isSimple = true) : line.role = .plain := by
  cases hk : line.keyword? with
  | none => simp [role, hk]
  | some k =>
    obtain ⟨word, hw, hk'⟩ := Option.bind_eq_some_iff.mp hk
    rw [Keyword.ofText?_eq_some_iff] at hk'
    subst hk'
    obtain ⟨rest, hrest⟩ := List.head?_eq_some_iff.mp hw
    have hword : k.text ∉ ["push", "pop", "if", "else", "while", "end"] := by
      simpa [isSimple, hrest] using h
    rw [role, hk]
    cases k <;> first | rfl | exact absurd hword (by decide)

@[simp] theorem Expression.ofTokens?_tokens (e : Expression) : ofTokens? e.tokens = some e := by
  cases e <;> rfl

/-- A line that is written for a statement is read as that statement. -/
theorem Statement.ofLine_line {k : Keyword} {tokens : List String} {st : Statement}
    (h : ofKeyword? k tokens = some st) : ofLine (k.line tokens) = st := by
  have hb : (k.line tokens).isBlank = false := by
    by_contra hb
    have := Line.keyword?_of_isBlank (by simpa using hb)
    simp at this
  rw [ofLine, hb]
  simp [Keyword.line, h]

namespace Listing

/-! ### Lines in a listing -/

/-- The listing has the given lines from line `i` on. -/
def Holds (listing : Listing) : Nat → List Line → Prop
  | _, [] => True
  | i, line :: rest => listing.line? i = some line ∧ listing.Holds (i + 1) rest

variable {listing : Listing}

theorem holds_append {i : Nat} {lines lines' : List Line} :
    listing.Holds i (lines ++ lines') ↔ listing.Holds i lines ∧ listing.Holds (i + lines.length) lines' := by
  induction lines generalizing i with
  | nil => simp [Holds]
  | cons line lines ih =>
    have hi : i + 1 + lines.length = i + (lines.length + 1) := by omega
    simp only [List.cons_append, Holds, ih, List.length_cons, hi, and_assoc]

/-- A listing made from a list holds it. -/
theorem holds_toArray (lines : List Line) : Holds ⟨lines.toArray⟩ 0 lines := by
  suffices h : ∀ before after : List Line, Holds ⟨(before ++ after).toArray⟩ before.length after from h [] lines
  intro before after
  induction after generalizing before with
  | nil => trivial
  | cons line after ih =>
    refine ⟨by simp [line?], ?_⟩
    have := ih (before ++ [line])
    simpa using this

/-- The parts of a block: its opener, the lines inside and its closer. -/
theorem Holds.parts {i : Nat} {opener closer : Line} {inner : List Line}
    (h : listing.Holds i (opener :: (inner ++ [closer]))) :
    listing.line? i = some opener ∧ listing.Holds (i + 1) inner ∧
      listing.line? (i + 1 + inner.length) = some closer := by
  obtain ⟨ho, hrest⟩ := h
  obtain ⟨hi, hc⟩ := holds_append.mp hrest
  exact ⟨ho, hi, hc.1⟩

theorem add_length_block (i : Nat) (opener closer : Line) (inner : List Line) :
    i + (opener :: (inner ++ [closer])).length = i + 1 + inner.length + 1 := by
  simp only [List.length_cons, List.length_append, List.length_nil]
  omega

/-! ### Searching through them -/

/-- A search with `depth` open blocks goes through the lines and has as many open behind them. -/
def Skips (listing : Listing) (alternatives : Bool) (depth i : Nat) (lines : List Line) : Prop :=
  ∀ count, listing.search alternatives (lines.length + count) depth i =
    listing.search alternatives count depth (i + lines.length)

variable {alternatives : Bool} {depth i : Nat}

theorem Skips.append {lines lines' : List Line} (h : listing.Skips alternatives depth i lines)
    (h' : listing.Skips alternatives depth (i + lines.length) lines') :
    listing.Skips alternatives depth i (lines ++ lines') := by
  intro count
  rw [List.length_append, Nat.add_assoc, h, h', Nat.add_assoc]

theorem skips_plain {line : Line} (hl : listing.line? i = some line) (hr : line.role = .plain) :
    listing.Skips alternatives depth i [line] := by
  intro count
  rw [List.length_singleton, Nat.add_comm 1 count, search_succ, role_of_line? hl, hr]

/-- An `else` that does not belong to the block that the search is about. -/
theorem skips_alternative {line : Line} (hl : listing.line? i = some line) (hr : line.role = .alternative)
    (ha : alternatives = false ∨ 2 ≤ depth) : listing.Skips alternatives depth i [line] := by
  intro count
  rw [List.length_singleton, Nat.add_comm 1 count, search_succ, role_of_line? hl, hr]
  have hstop : (alternatives && depth == 1) = false := by
    rcases ha with rfl | hd
    · rfl
    · have : depth ≠ 1 := by omega
      simp [this]
  simp [hstop]

/-- Two branches with such an `else` between them. -/
theorem Skips.branches {line : Line} {yes no : List Line} (hy : listing.Skips alternatives depth i yes)
    (hl : listing.line? (i + yes.length) = some line) (hr : line.role = .alternative)
    (ha : alternatives = false ∨ 2 ≤ depth) (hn : listing.Skips alternatives depth (i + yes.length + 1) no) :
    listing.Skips alternatives depth i (yes ++ line :: no) :=
  hy.append ((skips_alternative hl hr ha).append hn)

/-- A block inside of another one is skipped if what is inside it is. -/
theorem skips_block {opener closer : Line} {inner : List Line} (hd : 1 ≤ depth)
    (h : listing.Holds i (opener :: (inner ++ [closer]))) (ho : opener.role = .opener) (hc : closer.role = .closer)
    (hi : listing.Skips alternatives (depth + 1) (i + 1) inner) :
    listing.Skips alternatives depth i (opener :: (inner ++ [closer])) := by
  intro count
  obtain ⟨hlo, -, hlc⟩ := h.parts
  have hcount : (opener :: (inner ++ [closer])).length + count = inner.length + (count + 1) + 1 := by
    simp only [List.length_cons, List.length_append, List.length_nil]
    omega
  have hdepth : ¬ depth + 1 ≤ 1 := by omega
  rw [add_length_block, hcount, search_succ, role_of_line? hlo, ho]
  simp only
  rw [hi, search_succ, role_of_line? hlc, hc]
  simp only [hdepth, if_false, Nat.add_sub_cancel]

/-- The end of a block. -/
theorem search_of_holds {opener closer : Line} {inner : List Line}
    (h : listing.Holds i (opener :: (inner ++ [closer]))) (ho : opener.role = .opener) (hc : closer.role = .closer)
    (hi : listing.Skips alternatives 1 (i + 1) inner) :
    listing.search alternatives (listing.size - i) 0 i = some (i + 1 + inner.length) := by
  obtain ⟨hlo, -, hlc⟩ := h.parts
  have hlt := lt_size_of_line? hlc
  have hcount : listing.size - (i + 1) = inner.length + (listing.size - (i + 1 + inner.length) - 1 + 1) := by omega
  rw [search_from_opener (by rw [role_of_line? hlo, ho]), hcount, hi, search_succ, role_of_line? hlc, hc]
  rfl

theorem closer?_of_holds {opener closer : Line} {inner : List Line}
    (h : listing.Holds i (opener :: (inner ++ [closer]))) (ho : opener.role = .opener) (hc : closer.role = .closer)
    (hi : listing.Skips false 1 (i + 1) inner) : listing.closer? i = some (i + 1 + inner.length) :=
  search_of_holds h ho hc hi

theorem elseOrCloser?_of_holds {opener closer : Line} {inner : List Line}
    (h : listing.Holds i (opener :: (inner ++ [closer]))) (ho : opener.role = .opener) (hc : closer.role = .closer)
    (hi : listing.Skips true 1 (i + 1) inner) : listing.elseOrCloser? i = some (i + 1 + inner.length) :=
  search_of_holds h ho hc hi

/-- An `else` behind the first branch. -/
theorem elseOrCloser?_of_else {opener alternative : Line} {yes : List Line}
    (hlo : listing.line? i = some opener) (hla : listing.line? (i + 1 + yes.length) = some alternative)
    (ho : opener.role = .opener) (ha : alternative.role = .alternative)
    (hy : listing.Skips true 1 (i + 1) yes) : listing.elseOrCloser? i = some (i + 1 + yes.length) := by
  have hlt := lt_size_of_line? hla
  have hcount : listing.size - (i + 1) = yes.length + (listing.size - (i + 1 + yes.length) - 1 + 1) := by omega
  rw [elseOrCloser?, search_from_opener (by rw [role_of_line? hlo, ho]), hcount, hy, search_succ,
    role_of_line? hla, ha]
  rfl

end Listing

mutual

theorem Construct.skips_lines {listing : Listing} {alternatives : Bool} (c : Construct) {depth i : Nat}
    (hd : 1 ≤ depth) (h : listing.Holds i c.lines) : listing.Skips alternatives depth i c.lines := by
  cases c with
  | simple line hl =>
    rw [Construct.lines] at h ⊢
    exact Listing.skips_plain h.1 (Line.role_of_isSimple hl)
  | push body | if_ _ body | while_ _ body =>
    rw [Construct.lines] at h ⊢
    exact Listing.skips_block hd h rfl rfl (skips_linesOf body (by omega) h.parts.2.1)
  | ifElse test yes no =>
    rw [Construct.lines] at h ⊢
    obtain ⟨hy, he, hn⟩ := Listing.holds_append.mp h.parts.2.1
    refine Listing.skips_block hd h rfl rfl ?_
    exact (skips_linesOf yes (by omega) hy).branches he rfl (Or.inr (by omega)) (skips_linesOf no (by omega) hn)

/-- A search inside a block walks over all constructs in it. -/
theorem skips_linesOf {listing : Listing} {alternatives : Bool} (cs : List Construct) {depth i : Nat}
    (hd : 1 ≤ depth) (h : listing.Holds i (linesOf cs)) : listing.Skips alternatives depth i (linesOf cs) := by
  cases cs with
  | nil =>
    intro count
    simp [linesOf]
  | cons c rest =>
    rw [linesOf] at h ⊢
    obtain ⟨hc, hrest⟩ := Listing.holds_append.mp h
    exact (c.skips_lines hd hc).append (skips_linesOf rest hd hrest)

end

end LineScript
