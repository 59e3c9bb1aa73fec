import LineScript.ScriptFile
import Mathlib.Data.List.DropRight

/-!
# LineScript.Proofs.ReadBack — listings written out and read again

A listing is written line by line, with single spaces between the tokens.  Reading cuts at every newline and drops a
run of line ends behind each line, so the text means the same listing again unless a token holds a newline or a line
ends in a carriage return.

* `Text.fields_unite`, `Text.flatten_fields`: cutting undoes uniting, and loses the separators only.
* `Line.tokenize_unite_iff`: a line is read back unless line ends stand behind its last token.
* `Listing.Writable`: the listings that survive.
* `Listing.edited`: the listings that can be made; their tokens are never empty and hold no space.
* `Listing.reads_back_iff`: what survives being written and read, as text and through a file.
-/

namespace LineScript

/-! ### Cutting and uniting -/

namespace Text

variable {sep : Char} {fs : List (List Char)}

theorem fields_unite (hne : fs ≠ []) (h : ∀ f ∈ fs, sep ∉ f) : fields sep (unite sep fs) = fs := by
  induction fs with
  | nil => exact absurd rfl hne
  | cons f rest ih =>
    have hf : sep ∉ f := h f List.mem_cons_self
    cases rest with
    | nil => exact fields_of_notMem hf
    | cons g rest =>
      have hrest : fields sep (unite sep (g :: rest)) = g :: rest :=
        ih (List.cons_ne_nil g rest) fun x hx => h x (List.mem_cons_of_mem f hx)
      rw [show unite sep (f :: g :: rest) = f ++ sep :: unite sep (g :: rest) from rfl, fields_append,
        fields_of_notMem hf, hrest, List.singleton_append]

/-- Only the separators are lost by cutting. -/
theorem flatten_fields (sep : Char) (cs : List Char) : (fields sep cs).flatten = cs.filter (· ≠ sep) := by
  induction cs with
  | nil => rfl
  | cons c cs ih =>
    obtain ⟨f, fs, h⟩ := exists_fields_eq_cons sep cs
    rw [h, List.flatten_cons] at ih
    by_cases hc : c = sep
    · rw [fields_cons, hc, extend_self, h, List.flatten_cons, List.nil_append, List.flatten_cons, ih]
      simp
    · rw [fields_cons, h, extend_cons_of_ne hc, List.flatten_cons, List.cons_append, ih]
      simp [hc]

theorem filter_unite (h : ∀ f ∈ fs, sep ∉ f) : (unite sep fs).filter (· ≠ sep) = fs.flatten := by
  cases fs with
  | nil => rfl
  | cons f rest => rw [← flatten_fields, fields_unite (List.cons_ne_nil f rest) h]

/-- The text ends as its last field does. -/
theorem getLast?_unite {f : List Char} (hf : fs.getLast? = some f) (hne : f ≠ []) :
    (unite sep fs).getLast? = f.getLast? := by
  induction fs with
  | nil => cases hf
  | cons g rest ih =>
    cases rest with
    | nil =>
      cases hf
      rfl
    | cons g' rest =>
      rw [List.getLast?_cons_cons] at hf
      have hrest := ih hf
      have hpart : unite sep (g :: g' :: rest) = (g ++ [sep]) ++ unite sep (g' :: rest) := by simp [unite]
      rw [hpart, List.getLast?_append, hrest, List.getLast?_eq_some_getLast hne, Option.some_or]

theorem notMem_unite {c : Char} (hc : c ≠ sep) (h : ∀ f ∈ fs, c ∉ f) : c ∉ unite sep fs := by
  induction fs with
  | nil => simp [unite]
  | cons f rest ih =>
    have hf : c ∉ f := h f List.mem_cons_self
    cases rest with
    | nil => exact hf
    | cons g rest =>
      have hrest : c ∉ unite sep (g :: rest) := ih fun x hx => h x (List.mem_cons_of_mem f hx)
      rw [show unite sep (f :: g :: rest) = f ++ sep :: unite sep (g :: rest) from rfl, List.mem_append,
        List.mem_cons]
      rintro (hmem | rfl | hmem)
      · exact hf hmem
      · exact hc rfl
      · exact hrest hmem

theorem unite_eq_intercalate (sep : Char) (fs : List (List Char)) : unite sep fs = [sep].intercalate fs := by
  induction fs with
  | nil => rfl
  | cons f rest ih =>
    cases rest with
    | nil => simp [unite]
    | cons g rest =>
      rw [show unite sep (f :: g :: rest) = f ++ sep :: unite sep (g :: rest) from rfl, ih]
      simp [List.intercalate]

end Text

/-! ### Lines -/

namespace Line

/-- The line is as reading makes it: no token is empty, and none holds a space. -/
def Tokenized (line : Line) : Prop :=
  ∀ t ∈ line.tokens, t ≠ "" ∧ ' ' ∉ t.toList

/-- The line means the same when it is written and read again: no token holds a newline, and the last one does not end
with a carriage return. -/
def Writable (line : Line) : Prop :=
  (∀ t ∈ line.tokens, '\n' ∉ t.toList) ∧ ∀ t ∈ line.tokens.getLast?, t.toList.getLast? ≠ some '\r'

instance (line : Line) : Decidable line.Writable :=
  inferInstanceAs (Decidable (_ ∧ _))

variable {line : Line}

theorem flatten_tokenize (cs : List Char) :
    (tokenize cs).flatten = (Text.dropTrailing isLineEnd cs).filter (· ≠ ' ') := by
  rw [tokenize, List.flatten_filter_not_isEmpty, Text.flatten_fields]

/-- Words that stand on one line are read back unless line ends stand behind them. -/
theorem tokenize_unite_iff {ws : List (List Char)} (h : ∀ w ∈ ws, w ≠ [] ∧ ' ' ∉ w) :
    tokenize (Text.unite ' ' ws) = ws ↔
      Text.dropTrailing isLineEnd (Text.unite ' ' ws) = Text.unite ' ' ws := by
  have hspace : ∀ w ∈ ws, ' ' ∉ w := fun w hw => (h w hw).2
  constructor
  · intro hread
    -- what is dropped at the end holds no space, so nothing else can make up for it
    have hsplit : (Text.unite ' ' ws).rdropWhile isLineEnd ++ (Text.unite ' ' ws).rtakeWhile isLineEnd =
        Text.unite ' ' ws := List.rdropWhile_append_rtakeWhile
    have htail : ((Text.unite ' ' ws).rtakeWhile isLineEnd).filter (· ≠ ' ') =
        (Text.unite ' ' ws).rtakeWhile isLineEnd := by
      rw [List.filter_eq_self]
      intro c hc
      have hend := List.mem_rtakeWhile_imp hc
      simp only [isLineEnd, Bool.or_eq_true, beq_iff_eq] at hend
      rcases hend with rfl | rfl <;> decide
    have hlost : (Text.unite ' ' ws).rtakeWhile isLineEnd = [] := by
      have hflat := flatten_tokenize (Text.unite ' ' ws)
      rw [hread, ← Text.filter_unite hspace] at hflat
      nth_rewrite 1 [← hsplit] at hflat
      rw [List.filter_append, htail] at hflat
      exact List.append_right_eq_self.mp hflat
    rw [hlost, List.append_nil] at hsplit
    exact hsplit
  · intro hkeep
    rw [tokenize, hkeep]
    cases ws with
    | nil => rfl
    | cons w rest =>
      rw [Text.fields_unite (List.cons_ne_nil w rest) hspace, List.filter_eq_self]
      intro x hx
      simpa using (h x hx).1

theorem toList_text (line : Line) : line.text.toList = Text.unite ' ' (line.tokens.map String.toList) := by
  rw [text, String.toList_intercalate, Text.unite_eq_intercalate]
  rfl

theorem tokenized_ofChars (cs : List Char) : (ofChars cs).Tokenized := by
  intro t ht
  obtain ⟨w, hw, rfl⟩ := List.mem_map.mp ht
  rw [tokenize, List.mem_filter] at hw
  refine ⟨?_, ?_⟩
  · intro hempty
    have : w = [] := by simpa using congrArg String.toList hempty
    simp [this] at hw
  · rw [String.toList_ofList]
    exact Text.notMem_of_mem_fields hw.1

/-- Reading makes up no characters. -/
theorem mem_of_mem_token {cs : List Char} {t : String} {c : Char} (ht : t ∈ (ofChars cs).tokens)
    (hc : c ∈ t.toList) : c ∈ cs := by
  obtain ⟨w, hw, rfl⟩ := List.mem_map.mp ht
  rw [String.toList_ofList] at hc
  have hflat : c ∈ (tokenize cs).flatten := List.mem_flatten.mpr ⟨w, hw, hc⟩
  rw [flatten_tokenize] at hflat
  exact (List.rdropWhile_prefix isLineEnd cs).subset (List.mem_of_mem_filter hflat)

theorem ofText_text_iff_dropTrailing (h : line.Tokenized) :
    ofText line.text = line ↔ Text.dropTrailing isLineEnd line.text.toList = line.text.toList := by
  have hwords : ∀ w ∈ line.tokens.map String.toList, w ≠ [] ∧ ' ' ∉ w := by
    intro w hw
    obtain ⟨t, ht, rfl⟩ := List.mem_map.mp hw
    exact ⟨by simpa using (h t ht).1, (h t ht).2⟩
  have hline : ∀ ws, (⟨ws.map String.ofList⟩ : Line) = line ↔ ws = line.tokens.map String.toList := by
    intro ws
    obtain ⟨tokens⟩ := line
    rw [Line.mk.injEq]
    constructor
    · rintro rfl
      simp [Function.comp_def]
    · rintro rfl
      simp [Function.comp_def]
  rw [ofText, ofChars, hline, toList_text, tokenize_unite_iff hwords]

theorem getLast?_text (h : line.Tokenized) {t : String} (ht : line.tokens.getLast? = some t) :
    line.text.toList.getLast? = t.toList.getLast? := by
  have hne : t.toList ≠ [] := by simpa using (h t (List.mem_of_getLast? ht)).1
  rw [toList_text]
  exact Text.getLast?_unite (by rw [List.getLast?_map, ht, Option.map_some]) hne

/-- A line without a newline in it is read back unless it ends in a carriage return. -/
theorem ofText_text_iff (h : line.Tokenized) (hn : ∀ t ∈ line.tokens, '\n' ∉ t.toList) :
    ofText line.text = line ↔ ∀ t ∈ line.tokens.getLast?, t.toList.getLast? ≠ some '\r' := by
  rw [ofText_text_iff_dropTrailing h, Text.dropTrailing, ← List.rdropWhile, List.rdropWhile_eq_self_iff]
  cases ht : line.tokens.getLast? with
  | none =>
    have hempty : line.text.toList = [] := by
      rw [toList_text, List.getLast?_eq_none_iff.mp ht]
      rfl
    simp [hempty]
  | some t =>
    have hlast := getLast?_text h ht
    have hnewline : '\n' ∉ t.toList := hn t (List.mem_of_getLast? ht)
    simp only [Option.mem_def, Option.some.injEq, forall_eq', ← hlast]
    constructor
    · intro hkeep hcr
      have hne : line.text.toList ≠ [] := by
        intro hnil
        simp [hnil] at hcr
      rw [List.getLast?_eq_some_getLast hne, Option.some.injEq] at hcr
      exact hkeep hne (by rw [hcr]; rfl)
    · intro hcr hne hend
      rw [List.getLast?_eq_some_getLast hne] at hlast hcr
      simp only [isLineEnd, Bool.or_eq_true, beq_iff_eq] at hend
      rcases hend with hend | hend
      · rw [hend] at hlast
        exact hnewline (List.mem_of_getLast? hlast.symm)
      · exact hcr (by rw [hend])

end Line

/-! ### Listings -/

namespace Listing

/-- Every line is as reading makes it. -/
def Tokenized (listing : Listing) : Prop :=
  ∀ line ∈ listing.lines, line.Tokenized

/-- Every line means the same when it is written and read again. -/
def Writable (listing : Listing) : Prop :=
  ∀ line ∈ listing.lines, line.Writable

instance (listing : Listing) : Decidable listing.Writable :=
  inferInstanceAs (Decidable (∀ line ∈ listing.lines, line.Writable))

variable {listing : Listing}

/-- The newline behind the last line is dropped, and no other. -/
theorem sourceLines_concat (cs : List Char) : sourceLines (cs ++ ['\n']) = Text.fields '\n' cs := by
  have hcut : Text.fields '\n' (cs ++ ['\n']) = Text.fields '\n' cs ++ [[]] := Text.fields_append '\n' cs []
  unfold sourceLines
  split
  · rename_i hnil
    exact absurd hnil (by simp)
  · simp [hcut]

theorem toList_text (listing : Listing) :
    listing.text.toList = (listing.lines.toList.map fun line => line.text.toList ++ ['\n']).flatten := by
  rw [text, String.toList_join, List.flatMap_def, List.map_map]
  congr 1
  refine List.map_congr_left fun line _ => ?_
  simp

/-- Every line ends in a newline, which is as good as newlines between them and one at the end. -/
theorem flatten_map_concat {fs : List (List Char)} (hne : fs ≠ []) (sep : Char) :
    (fs.map (· ++ [sep])).flatten = Text.unite sep fs ++ [sep] := by
  induction fs with
  | nil => exact absurd rfl hne
  | cons f rest ih =>
    cases rest with
    | nil => simp [Text.unite]
    | cons g rest =>
      rw [List.map_cons, List.flatten_cons, ih (List.cons_ne_nil g rest)]
      simp [Text.unite]

/-- The lines of a listing that was written, if none holds a newline. -/
theorem sourceLines_text (h : ∀ line ∈ listing.lines, '\n' ∉ line.text.toList) :
    sourceLines listing.text.toList = listing.lines.toList.map fun line => line.text.toList := by
  have hfields : ∀ f ∈ listing.lines.toList.map (fun line => line.text.toList), '\n' ∉ f := by
    intro f hf
    obtain ⟨line, hline, rfl⟩ := List.mem_map.mp hf
    exact h line (Array.mem_toList_iff.mp hline)
  rw [toList_text]
  by_cases hne : listing.lines.toList = []
  · simp [hne, sourceLines]
  · have hne' : listing.lines.toList.map (fun line => line.text.toList) ≠ [] := by simpa using hne
    rw [show (listing.lines.toList.map fun line => line.text.toList ++ ['\n']) =
        (listing.lines.toList.map fun line => line.text.toList).map (· ++ ['\n']) by simp [Function.comp_def],
      flatten_map_concat hne', sourceLines_concat, Text.fields_unite hne' hfields]

/-- Tokens hold characters of the text that was read, and no newline. -/
theorem mem_of_mem_token {source : String} {line : Line} {t : String} {c : Char}
    (hline : line ∈ (ofText source).lines) (ht : t ∈ line.tokens) (hc : c ∈ t.toList) :
    c ∈ source.toList ∧ c ≠ '\n' := by
  rw [ofText, List.mem_toArray] at hline
  obtain ⟨piece, hpiece, rfl⟩ := List.mem_map.mp hline
  have hmem : c ∈ piece := Line.mem_of_mem_token ht hc
  have hcut : piece ∈ Text.fields '\n' source.toList := by
    unfold sourceLines at hpiece
    split at hpiece
    · cases hpiece
    · dsimp only at hpiece
      split at hpiece
      · exact List.dropLast_subset _ hpiece
      · exact hpiece
  have hflat : c ∈ (Text.fields '\n' source.toList).flatten := List.mem_flatten.mpr ⟨piece, hcut, hmem⟩
  rw [Text.flatten_fields, List.mem_filter] at hflat
  simpa using hflat

theorem tokenized_ofText (source : String) : (ofText source).Tokenized := by
  intro line hline
  rw [ofText, List.mem_toArray] at hline
  obtain ⟨piece, -, rfl⟩ := List.mem_map.mp hline
  exact Line.tokenized_ofChars piece

/-- A listing is read back just when every line is. -/
theorem ofText_text_iff_lines (h : ∀ line ∈ listing.lines, '\n' ∉ line.text.toList) :
    ofText listing.text = listing ↔ ∀ line ∈ listing.lines, Line.ofText line.text = line := by
  have hread : ofText listing.text = ⟨(listing.lines.toList.map fun line => Line.ofText line.text).toArray⟩ := by
    rw [ofText, sourceLines_text h, List.map_map]
    rfl
  obtain ⟨lines⟩ := listing
  rw [hread, Listing.mk.injEq, ← Array.toList_inj]
  nth_rewrite 2 [← List.map_id lines.toList]
  rw [List.map_inj_left]
  simp

/-- **Which listings are read back.** -/
theorem ofText_text_iff (h : listing.Tokenized) : ofText listing.text = listing ↔ listing.Writable := by
  have hlines : (∀ line ∈ listing.lines, ∀ t ∈ line.tokens, '\n' ∉ t.toList) →
      ∀ line ∈ listing.lines, '\n' ∉ line.text.toList := by
    intro hn line hline
    rw [Line.toList_text]
    refine Text.notMem_unite (by decide) ?_
    intro w hw
    obtain ⟨t, ht, rfl⟩ := List.mem_map.mp hw
    exact hn line hline t ht
  constructor
  · intro hread
    have hn : ∀ line ∈ listing.lines, ∀ t ∈ line.tokens, '\n' ∉ t.toList := by
      intro line hline t ht hmem
      rw [← hread] at hline
      exact (mem_of_mem_token hline ht hmem).2 rfl
    intro line hline
    refine ⟨hn line hline, ?_⟩
    rw [← Line.ofText_text_iff (h line hline) (hn line hline)]
    exact (ofText_text_iff_lines (hlines hn)).mp hread line hline
  · intro hw
    have hn : ∀ line ∈ listing.lines, ∀ t ∈ line.tokens, '\n' ∉ t.toList := fun line hline => (hw line hline).1
    rw [ofText_text_iff_lines (hlines hn)]
    intro line hline
    exact (Line.ofText_text_iff (h line hline) (hn line hline)).mpr (hw line hline).2

/-- A text without carriage returns is read into a listing that survives. -/
theorem writable_ofText {source : String} (h : '\r' ∉ source.toList) : (ofText source).Writable := by
  intro line hline
  refine ⟨?_, ?_⟩
  · intro t ht hmem
    exact (mem_of_mem_token hline ht hmem).2 rfl
  · intro t ht hlast
    exact h (mem_of_mem_token hline (List.mem_of_getLast? ht) (List.mem_of_getLast? hlast)).1

/-! ### Listings that can be made -/

/-- A change to a listing: it is read anew, gets one more line, or is cleared. -/
inductive Edit
  | read (source : String)
  | push (s : String)
  | clear
deriving DecidableEq, Repr

/-- The listing after a change. -/
def edit (listing : Listing) : Edit → Listing
  | .read source => ofText source
  | .push s => listing.push s
  | .clear => {}

/-- The listing after changes to an empty one. -/
def edited (edits : List Edit) : Listing :=
  edits.foldl edit {}

theorem Tokenized.edit (h : listing.Tokenized) (e : Edit) : (listing.edit e).Tokenized := by
  cases e with
  | read source => exact tokenized_ofText source
  | push s =>
    intro line hline
    rcases Array.mem_push.mp hline with hline | rfl
    · exact h line hline
    · exact Line.tokenized_ofChars s.toList
  | clear =>
    intro line hline
    simp [Listing.edit] at hline

theorem tokenized_edited (edits : List Edit) : (edited edits).Tokenized := by
  have hrun : ∀ listing : Listing, listing.Tokenized → (edits.foldl Listing.edit listing).Tokenized := by
    induction edits with
    | nil => exact fun listing h => h
    | cons e edits ih => exact fun listing h => ih (listing.edit e) (h.edit e)
  refine hrun {} ?_
  intro line hline
  simp at hline

end Listing

/-! ### Files -/

namespace ScriptFile

theorem load_of_readText? {disk : Disk} {path source : String} (h : disk.readText? path = some source) :
    load disk path = .ok (.ofText source) := by
  unfold Disk.readText? at h
  unfold load
  split at h
  · rename_i contents hread
    rw [hread, listingOf, h]
  · cases h

theorem isEmpty_of_save {disk disk' : Disk} {listing : Listing} {path : String}
    (h : save disk listing path = (.ok (), disk')) : listing.isEmpty = false := by
  cases he : listing.isEmpty with
  | false => rfl
  | true => simp [save, contentsOf, he] at h

end ScriptFile

namespace Listing

/-- **What survives being written and read.**  A listing, however it was made, is the one that its text means just when
no token holds a newline and no line ends in a carriage return.  A listing that was saved is not empty, and if the file
holds the text that was written to it then loading gives the same listing just under that condition.  A listing that was
read from a text without carriage returns always survives. -/
theorem reads_back_iff (edits : List Edit) :
    (ofText (edited edits).text = edited edits ↔ (edited edits).Writable) ∧
    (∀ disk disk' path, ScriptFile.save disk (edited edits) path = (.ok (), disk') →
      disk'.readText? path = some (edited edits).text →
      (edited edits).isEmpty = false ∧
        (ScriptFile.load disk' path = .ok (edited edits) ↔ (edited edits).Writable)) ∧
    (∀ source, '\r' ∉ source.toList →
      (ofText source).Writable ∧ ofText (ofText source).text = ofText source ∧
        ∀ disk disk' path, ScriptFile.save disk (ofText source) path = (.ok (), disk') →
          disk'.readText? path = some (ofText source).text → ScriptFile.load disk' path = .ok (ofText source)) := by
  have hiff := ofText_text_iff (tokenized_edited edits)
  refine ⟨hiff, ?_, ?_⟩
  · intro disk disk' path hsave hread
    refine ⟨ScriptFile.isEmpty_of_save hsave, ?_⟩
    rw [ScriptFile.load_of_readText? hread, Except.ok.injEq]
    exact hiff
  · intro source hsource
    have hw := writable_ofText hsource
    have hself := (ofText_text_iff (tokenized_ofText source)).mpr hw
    refine ⟨hw, hself, ?_⟩
    intro disk disk' path _ hread
    rw [ScriptFile.load_of_readText? hread, hself]

/-- A line with a carriage return in its middle. -/
def innerReturn : List Edit :=
  [.read "x\n", .push "a\r  b "]

/-- A line with a carriage return behind its last word, kept from being dropped by the space after it. -/
def finalReturn : List Edit :=
  [.push "a  b\r "]

theorem reads_back_iff_innerReturn :
    ∃ disk, ScriptFile.save {} (edited innerReturn) "s" = (.ok (), disk) ∧
      disk.readText? "s" = some (edited innerReturn).text ∧
      ScriptFile.load disk "s" = .ok (edited innerReturn) ∧
      ofText (edited finalReturn).text ≠ edited finalReturn := by
  have hsave : ∃ disk, ScriptFile.save {} (edited innerReturn) "s" = (.ok (), disk) ∧
      disk.readText? "s" = some (edited innerReturn).text := ⟨_, rfl, rfl⟩
  obtain ⟨disk, hsave, hread⟩ := hsave
  obtain ⟨-, hfile, -⟩ := reads_back_iff innerReturn
  obtain ⟨-, hload⟩ := hfile {} disk "s" hsave hread
  refine ⟨disk, hsave, hread, hload.mpr (by decide), ?_⟩
  rw [ne_eq, (reads_back_iff finalReturn).1]
  decide

end Listing

end LineScript
