/-!
# LineScript.Text — cutting text into fields

* `Text.fields sep cs`: the pieces of `cs` between the separators; `n` separators give `n + 1` pieces.
* `Text.dropTrailing p cs`: `cs` without its longest final run of characters in `p`.
* `Text.unite sep fs`: the pieces put together again, the inverse of `fields` (`Text.unite_fields`).
* `Text.fields_append`: cutting at one separator cuts the two sides apart.
-/

namespace LineScript.Text

/-- Puts one more character in front of the first field, or starts a new field at a separator. -/
def extend (sep c : Char) (fs : List (List Char)) : List (List Char) :=
  if c = sep then [] :: fs
  else
    match fs with
    | [] => [[c]]
    | f :: rest => (c :: f) :: rest

/-- The pieces between the separators, empty pieces included. -/
def fields (sep : Char) (cs : List Char) : List (List Char) :=
  cs.foldr (extend sep) [[]]

/-- Pieces put together with one separator between neighbours. -/
def unite (sep : Char) : List (List Char) → List Char
  | [] => []
  | [f] => f
  | f :: rest => f ++ sep :: unite sep rest

/-- The text without its longest final run of characters satisfying `p`. -/
def dropTrailing (p : Char → Bool) (cs : List Char) : List Char :=
  (cs.reverse.dropWhile p).reverse

@[simp] theorem fields_nil (sep : Char) : fields sep [] = [[]] := rfl

@[simp] theorem fields_cons (sep c : Char) (cs : List Char) :
    fields sep (c :: cs) = extend sep c (fields sep cs) := rfl

@[simp] theorem extend_self (sep : Char) (fs : List (List Char)) : extend sep sep fs = [] :: fs := by
  simp [extend]

theorem extend_cons_of_ne {sep c : Char} (h : c ≠ sep) (f : List Char) (fs : List (List Char)) :
    extend sep c (f :: fs) = (c :: f) :: fs := by
  simp [extend, h]

/-- There is always a first field. -/
theorem exists_fields_eq_cons (sep : Char) (cs : List Char) : ∃ f fs, fields sep cs = f :: fs := by
  induction cs with
  | nil => exact ⟨[], [], rfl⟩
  | cons c cs ih =>
    obtain ⟨f, fs, h⟩ := ih
    by_cases hc : c = sep
    · exact ⟨[], f :: fs, by simp [hc, h]⟩
    · exact ⟨c :: f, fs, by rw [fields_cons, h, extend_cons_of_ne hc]⟩

/-- Cutting at one separator cuts the two sides apart. -/
theorem fields_append (sep : Char) (xs ys : List Char) :
    fields sep (xs ++ sep :: ys) = fields sep xs ++ fields sep ys := by
  induction xs with
  | nil => simp
  | cons c xs ih =>
    obtain ⟨f, fs, h⟩ := exists_fields_eq_cons sep xs
    rw [List.cons_append, fields_cons, fields_cons, ih, h]
    by_cases hc : c = sep
    · simp [hc]
    · rw [List.cons_append, extend_cons_of_ne hc, extend_cons_of_ne hc, List.cons_append]

/-- A text without a separator is one field. -/
theorem fields_of_notMem {sep : Char} {cs : List Char} (h : sep ∉ cs) : fields sep cs = [cs] := by
  induction cs with
  | nil => rfl
  | cons c cs ih =>
    rw [List.mem_cons, not_or] at h
    rw [fields_cons, ih h.2, extend_cons_of_ne (Ne.symm h.1)]

/-- No field holds a separator. -/
theorem notMem_of_mem_fields {sep : Char} {cs f : List Char} (hf : f ∈ fields sep cs) : sep ∉ f := by
  induction cs generalizing f with
  | nil =>
    rw [fields_nil, List.mem_singleton] at hf
    simp [hf]
  | cons c cs ih =>
    obtain ⟨g, gs, h⟩ := exists_fields_eq_cons sep cs
    rw [h] at ih
    rw [fields_cons, h] at hf
    by_cases hc : c = sep
    · rw [hc, extend_self] at hf
      rcases List.mem_cons.mp hf with rfl | hf
      · simp
      · exact ih hf
    · rw [extend_cons_of_ne hc] at hf
      rcases List.mem_cons.mp hf with rfl | hf
      · rw [List.mem_cons, not_or]
        exact ⟨Ne.symm hc, ih List.mem_cons_self⟩
      · exact ih (List.mem_cons_of_mem _ hf)

/-- Nothing is lost by cutting. -/
theorem unite_fields (sep : Char) (cs : List Char) : unite sep (fields sep cs) = cs := by
  induction cs with
  | nil => rfl
  | cons c cs ih =>
    obtain ⟨f, fs, h⟩ := exists_fields_eq_cons sep cs
    rw [h] at ih
    by_cases hc : c = sep
    · subst hc
      simp [h, unite, ih]
    · rw [fields_cons, h, extend_cons_of_ne hc, ← ih]
      cases fs <;> simp [unite]

end LineScript.Text
