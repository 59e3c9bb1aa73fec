import LineScript.Engine
import LineScript.Proofs.ReadBack

/-!
# LineScript.Proofs.LineEndings — the lines of a text

A newline ends a line, and the last line may do without it.  Carriage returns at the end of a line are dropped with the
newline, so it does not matter which of the two usual ends the lines have.

* `Text.induction_on_fields`: a property of texts, shown piece by piece.
* `Listing.sourceLines_append`: what stands in front of a newline and what stands behind it are read apart.
* `Listing.sourceLines_flatMap`: lines that are written one below the other are those that are read.
* `Text.withReturns`: newlines with a carriage return in front, which is not seen (`Listing.ofText_withReturns`).
* `Listing.lines_respected`: all of it, and what it means for runs.
-/

namespace LineScript

namespace Text

/-- A property of texts holds if it holds of texts without separator and goes over to texts with one more piece in
front. -/
theorem induction_on_fields (sep : Char) {P : List Char → Prop} (last : ∀ f, sep ∉ f → P f)
    (more : ∀ f rest, sep ∉ f → P rest → P (f ++ sep :: rest)) (cs : List Char) : P cs := by
  have hunite : ∀ fs : List (List Char), (∀ f ∈ fs, sep ∉ f) → P (unite sep fs) := by
    intro fs
    induction fs with
    | nil => exact fun _ => last [] (by simp)
    | cons f rest ih =>
      intro h
      have hf : sep ∉ f := h f List.mem_cons_self
      have hrest := ih fun g hg => h g (List.mem_cons_of_mem f hg)
      cases rest with
      | nil => exact last f hf
      | cons g rest => exact more f (unite sep (g :: rest)) hf hrest
  rw [← unite_fields sep cs]
  exact hunite _ fun f hf => notMem_of_mem_fields hf

/-- The text with a carriage return in front of every newline. -/
def withReturns (cs : List Char) : List Char :=
  cs.flatMap fun c => if c = '\n' then ['\r', '\n'] else [c]

theorem withReturns_of_notMem {cs : List Char} (h : '\n' ∉ cs) : withReturns cs = cs := by
  have hkeep : ∀ c ∈ cs, (if c = '\n' then ['\r', '\n'] else [c]) = [c] := by
    intro c hc
    have hne : c ≠ '\n' := by
      rintro rfl
      exact h hc
    exact if_neg hne
  rw [withReturns, List.flatMap_def, List.map_congr_left hkeep, ← List.flatMap_def, List.flatMap_singleton']

theorem withReturns_append_newline (xs ys : List Char) :
    withReturns (xs ++ '\n' :: ys) = (withReturns xs ++ ['\r']) ++ '\n' :: withReturns ys := by
  simp [withReturns]

end Text

/-! ### Cutting a text into lines -/

namespace Line

/-- A carriage return at the end of a line is not seen. -/
theorem ofChars_concat_return (cs : List Char) : ofChars (cs ++ ['\r']) = ofChars cs := by
  have hdrop : Text.dropTrailing isLineEnd (cs ++ ['\r']) = Text.dropTrailing isLineEnd cs :=
    List.rdropWhile_concat_pos isLineEnd cs '\r' rfl
  rw [ofChars, tokenize, hdrop, ← tokenize, ← ofChars]

end Line

namespace Listing

/-- An empty piece at the end of a text is no line; the text without characters is no exception. -/
theorem sourceLines_eq (cs : List Char) :
    sourceLines cs = if (Text.fields '\n' cs).getLast? = some [] then (Text.fields '\n' cs).dropLast
      else Text.fields '\n' cs := by
  cases cs with
  | nil => rfl
  | cons c cs => rfl

/-- What stands in front of a newline and what stands behind it are read apart. -/
theorem sourceLines_append (xs ys : List Char) :
    sourceLines (xs ++ '\n' :: ys) = Text.fields '\n' xs ++ sourceLines ys := by
  obtain ⟨f, fs, hys⟩ := Text.exists_fields_eq_cons '\n' ys
  have hne : Text.fields '\n' ys ≠ [] := by simp [hys]
  rw [sourceLines_eq, sourceLines_eq, Text.fields_append, List.getLast?_append_of_ne_nil _ hne]
  split
  · rw [List.dropLast_append_of_ne_nil hne]
  · rfl

theorem sourceLines_of_notMem {cs : List Char} (hne : cs ≠ []) (h : '\n' ∉ cs) : sourceLines cs = [cs] := by
  rw [sourceLines_eq, Text.fields_of_notMem h]
  simp [hne]

/-- The newline behind the last line may be left out. -/
theorem sourceLines_concat_newline {cs : List Char} (hne : cs ≠ []) (hlast : cs.getLast? ≠ some '\n') :
    sourceLines (cs ++ ['\n']) = sourceLines cs := by
  induction cs using Text.induction_on_fields '\n' with
  | last f hf => rw [sourceLines_concat, Text.fields_of_notMem hf, sourceLines_of_notMem hne hf]
  | more f rest hf ih =>
    have hrest : rest ≠ [] := by
      rintro rfl
      simp at hlast
    have hend : rest.getLast? ≠ some '\n' := by
      rwa [List.getLast?_append_of_ne_nil _ (List.cons_ne_nil _ _), List.getLast?_cons_of_ne_nil hrest] at hlast
    have hsplit : f ++ '\n' :: rest ++ ['\n'] = f ++ '\n' :: (rest ++ ['\n']) := by simp
    rw [hsplit, sourceLines_append, ih hrest hend, ← sourceLines_append]

/-- Lines that are written one below the other are the lines that are read. -/
theorem sourceLines_flatMap {ls : List (List Char)} (h : ∀ l ∈ ls, '\n' ∉ l) :
    sourceLines (ls.flatMap (· ++ ['\n'])) = ls := by
  induction ls with
  | nil => rfl
  | cons l ls ih =>
    have hl : '\n' ∉ l := h l List.mem_cons_self
    have hls := ih fun k hk => h k (List.mem_cons_of_mem l hk)
    rw [List.flatMap_cons, List.append_assoc, List.singleton_append, sourceLines_append, Text.fields_of_notMem hl, hls,
      List.singleton_append]

/-- A carriage return in front of a newline is dropped with it. -/
theorem map_ofChars_withReturns (cs : List Char) :
    (sourceLines (Text.withReturns cs)).map Line.ofChars = (sourceLines cs).map Line.ofChars := by
  induction cs using Text.induction_on_fields '\n' with
  | last f hf => rw [Text.withReturns_of_notMem hf]
  | more f rest hf ih =>
    have hcut : '\n' ∉ f ++ ['\r'] := by simp [hf]
    rw [Text.withReturns_append_newline, Text.withReturns_of_notMem hf, sourceLines_append, sourceLines_append,
      Text.fields_of_notMem hcut, Text.fields_of_notMem hf, List.map_append, List.map_append, ih, List.map_singleton,
      List.map_singleton, Line.ofChars_concat_return]

/-! ### Listings -/

theorem ofText_congr {s t : String}
    (h : (sourceLines s.toList).map Line.ofChars = (sourceLines t.toList).map Line.ofChars) : ofText s = ofText t := by
  rw [ofText, ofText, h]

theorem lines_ofText_append (a b : String) :
    (ofText (a ++ "\n" ++ b)).lines = (ofText (a ++ "\n")).lines ++ (ofText b).lines := by
  have hall : (a ++ "\n" ++ b).toList = a.toList ++ '\n' :: b.toList := by simp
  have hfirst : (a ++ "\n").toList = a.toList ++ ['\n'] := by simp
  rw [ofText, ofText, ofText, hall, hfirst, sourceLines_append, sourceLines_concat, List.map_append,
    List.append_toArray]

/-- Lines that are added one after the other. -/
theorem foldl_push (ss : List String) (listing : Listing) :
    ss.foldl push listing = ⟨listing.lines ++ (ss.map Line.ofText).toArray⟩ := by
  induction ss generalizing listing with
  | nil => simp
  | cons s ss ih => simp [ih, push]

theorem ofText_join {ss : List String} (h : ∀ s ∈ ss, '\n' ∉ s.toList) :
    ofText (String.join (ss.map (· ++ "\n"))) = ss.foldl push {} := by
  have htext : (String.join (ss.map (· ++ "\n"))).toList = (ss.map String.toList).flatMap (· ++ ['\n']) := by
    rw [String.toList_join, List.flatMap_map, List.flatMap_map]
    simp
  have hlines : ∀ l ∈ ss.map String.toList, '\n' ∉ l := by
    intro l hl
    obtain ⟨s, hs, rfl⟩ := List.mem_map.mp hl
    exact h s hs
  rw [ofText, htext, sourceLines_flatMap hlines, List.map_map, foldl_push]
  simp [Function.comp_def, Line.ofText]

/-- A script with a carriage return in front of every newline. -/
def withReturns (source : String) : String :=
  String.ofList (Text.withReturns source.toList)

theorem ofText_withReturns (source : String) : ofText (withReturns source) = ofText source := by
  refine ofText_congr ?_
  rw [withReturns, String.toList_ofList]
  exact map_ofChars_withReturns source.toList

/-- **The lines of a text.**  What stands in front of a newline and what stands behind it are read apart, so that no line
changes its number with what follows it.  Lines written one below the other make up the listing to which they are added
one by one, and running the text is running that listing.  Line ends with a carriage return make no difference, neither
to the listing nor to its runs, and the last line needs no line end.  No token is empty or holds a space. -/
theorem lines_respected :
    (∀ a b : String, (ofText (a ++ "\n" ++ b)).lines = (ofText (a ++ "\n")).lines ++ (ofText b).lines) ∧
    (∀ ss : List String, (∀ s ∈ ss, '\n' ∉ s.toList) →
      ofText (String.join (ss.map (· ++ "\n"))) = ss.foldl push {} ∧
        ∀ fuel engine, Engine.runText fuel (String.join (ss.map (· ++ "\n"))) engine =
          Engine.runListing fuel (ss.foldl push {}) engine) ∧
    (∀ source : String, ofText (withReturns source) = ofText source ∧
      ∀ fuel engine, Engine.runText fuel (withReturns source) engine = Engine.runText fuel source engine) ∧
    (∀ source : String, source ≠ "" → source.toList.getLast? ≠ some '\n' →
      ofText (source ++ "\n") = ofText source) ∧
    (∀ source : String, ∀ line ∈ (ofText source).lines, ∀ t ∈ line.tokens, t ≠ "" ∧ ' ' ∉ t.toList) := by
  refine ⟨lines_ofText_append, ?_, ?_, ?_, tokenized_ofText⟩
  · intro ss h
    have hjoin := ofText_join h
    exact ⟨hjoin, fun fuel engine => by rw [Engine.runText, hjoin]⟩
  · intro source
    have hreturns := ofText_withReturns source
    exact ⟨hreturns, fun fuel engine => by rw [Engine.runText, hreturns, ← Engine.runText]⟩
  · intro source hne hlast
    have hsame := sourceLines_concat_newline (by simpa using hne) hlast
    refine ofText_congr ?_
    rw [String.toList_append, show "\n".toList = ['\n'] from rfl, hsame]

/-- Lines as they may be typed: with a carriage return left over, without characters, with more spaces than needed. -/
def typedLines : List String :=
  ["integer x\r", "", "  x =  5 ", "print x"]

theorem lines_respected_typedLines :
    (∀ s ∈ typedLines, '\n' ∉ s.toList) ∧
    ofText "integer x\r\n\n  x =  5 \nprint x\n" = typedLines.foldl push {} ∧
    (typedLines.foldl push {}).size = 4 ∧
    ofText "integer x\r\n\n  x =  5 \nprint x\n" = ofText "integer x\r\n\n  x =  5 \nprint x" := by
  obtain ⟨-, htyped, -, hlast, -⟩ := lines_respected
  have hclean : ∀ s ∈ typedLines, '\n' ∉ s.toList := by decide
  refine ⟨hclean, (htyped typedLines hclean).1, by decide, ?_⟩
  exact hlast "integer x\r\n\n  x =  5 \nprint x" (by decide) (by decide)

end Listing

end LineScript
