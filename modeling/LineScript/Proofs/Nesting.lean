import LineScript.Listing.Matching
import Mathlib.Data.List.Basic

/-!
# LineScript.Proofs.Nesting — the lexical nesting of a listing

Which blocks enclose a line is a matter of the listing alone: going down from the top, an opener adds its line to the
open ones and a closer takes the innermost of them away.

* `Listing.nesting? i`: the openers of the blocks that enclose line `i`, innermost first; `none` if a closer above
  has nothing to close.
* `Listing.Balanced`: no block is left open at the end.
* `Listing.nesting?_of_search`: where the counting search stops, exactly the block that it started from is innermost.
* `Listing.closer?_eq_search`: the search for the closer of an enclosing block passes through every line inside it.
* `Listing.exists_closer`: in a balanced listing every enclosing block has a closer.
-/

namespace LineScript

/-- The open blocks, innermost first, after line `i` with a given role.  A closer needs a block to close. -/
def Role.nest? (i : Nat) : Role → List Nat → Option (List Nat)
  | .opener, blocks => some (i :: blocks)
  | .closer, [] => none
  | .closer, _ :: outer => some outer
  | .alternative, blocks => some blocks
  | .plain, blocks => some blocks

namespace Listing

/-- The part that a line plays in the nesting of blocks; there is nothing behind the last line. -/
def role (listing : Listing) (i : Nat) : Role :=
  ((listing.line? i).map Line.role).getD .plain

/-- The openers of the blocks that enclose line `i`, innermost first, found by matching the lines above it. -/
def nesting? (listing : Listing) : Nat → Option (List Nat)
  | 0 => some []
  | i + 1 => (listing.nesting? i).bind ((listing.role i).nest? i)

/-- The word that a line starts with. -/
def firstToken? (listing : Listing) (i : Nat) : Option String :=
  (listing.line? i).bind fun line => line.tokens.head?

/-- Openers and closers match, and none is left over. -/
def Balanced (listing : Listing) : Prop :=
  listing.nesting? listing.size = some []

instance (listing : Listing) : Decidable listing.Balanced :=
  inferInstanceAs (Decidable (_ = _))

variable {listing : Listing}

/-! ### Roles and lines -/

theorem line?_eq_none_iff {i : Nat} : listing.line? i = none ↔ listing.size ≤ i := by
  simp [line?, size]

theorem lt_size_of_line? {i : Nat} {line : Line} (h : listing.line? i = some line) : i < listing.size := by
  by_contra hi
  rw [line?_eq_none_iff.mpr (Nat.not_lt.mp hi)] at h
  cases h

theorem exists_line?_of_lt {i : Nat} (h : i < listing.size) : ∃ line, listing.line? i = some line :=
  ⟨_, Array.getElem?_eq_getElem h⟩

theorem role_of_line? {i : Nat} {line : Line} (h : listing.line? i = some line) : listing.role i = line.role := by
  simp [role, h]

theorem role_of_size_le {i : Nat} (h : listing.size ≤ i) : listing.role i = .plain := by
  simp [role, line?_eq_none_iff.mpr h]

theorem role_of_keyword? {i : Nat} {k : Keyword} (h : listing.keyword? i = some k) :
    listing.role i =
      if k.isOpener then .opener else if k.isCloser then .closer else if k = .else_ then .alternative
      else .plain := by
  unfold keyword? at h
  cases hl : listing.line? i with
  | none => simp [hl] at h
  | some line =>
    rw [hl, Option.bind_some] at h
    rw [role_of_line? hl, Line.role, h]

theorem role_of_keyword?_eq_none {i : Nat} (h : listing.keyword? i = none) : listing.role i = .plain := by
  unfold keyword? at h
  cases hl : listing.line? i with
  | none => simp [role, hl]
  | some line =>
    rw [hl, Option.bind_some] at h
    rw [role_of_line? hl, Line.role, h]

theorem keyword?_eq_some_iff {i : Nat} {k : Keyword} :
    listing.keyword? i = some k ↔ listing.firstToken? i = some k.text := by
  unfold keyword? firstToken? Line.keyword?
  cases listing.line? i with
  | none => simp
  | some line => simp only [Option.bind_some, Option.bind_eq_some_iff, Keyword.ofText?_eq_some_iff, exists_eq_right]

theorem role_eq_opener_iff {i : Nat} :
    listing.role i = .opener ↔
      listing.keyword? i = some .push ∨ listing.keyword? i = some .if_ ∨ listing.keyword? i = some .while_ := by
  cases hk : listing.keyword? i with
  | none => simp [role_of_keyword?_eq_none hk]
  | some k => rw [role_of_keyword? hk]; cases k <;> decide

theorem role_eq_closer_iff {i : Nat} :
    listing.role i = .closer ↔ listing.keyword? i = some .pop ∨ listing.keyword? i = some .end_ := by
  cases hk : listing.keyword? i with
  | none => simp [role_of_keyword?_eq_none hk]
  | some k => rw [role_of_keyword? hk]; cases k <;> decide

theorem role_eq_alternative_iff {i : Nat} :
    listing.role i = .alternative ↔ listing.keyword? i = some .else_ := by
  cases hk : listing.keyword? i with
  | none => simp [role_of_keyword?_eq_none hk]
  | some k => rw [role_of_keyword? hk]; cases k <;> decide

theorem lt_size_of_role {i : Nat} (h : listing.role i ≠ .plain) : i < listing.size := by
  by_contra hi
  exact h (role_of_size_le (Nat.not_lt.mp hi))

/-! ### Nesting, line by line -/

theorem nesting?_succ {i : Nat} {blocks : List Nat} (h : listing.nesting? i = some blocks) :
    listing.nesting? (i + 1) = (listing.role i).nest? i blocks := by
  simp [nesting?, h]

theorem nesting?_succ_eq_some {i : Nat} {blocks' : List Nat} (h : listing.nesting? (i + 1) = some blocks') :
    ∃ blocks, listing.nesting? i = some blocks ∧ (listing.role i).nest? i blocks = some blocks' := by
  simpa only [nesting?, Option.bind_eq_some_iff] using h

theorem nesting?_opener {i : Nat} {blocks : List Nat} (h : listing.nesting? i = some blocks)
    (hr : listing.role i = .opener) : listing.nesting? (i + 1) = some (i :: blocks) := by
  rw [nesting?_succ h, hr, Role.nest?]

theorem nesting?_closer {i o : Nat} {outer : List Nat} (h : listing.nesting? i = some (o :: outer))
    (hr : listing.role i = .closer) : listing.nesting? (i + 1) = some outer := by
  rw [nesting?_succ h, hr, Role.nest?]

theorem nesting?_other {i : Nat} {blocks : List Nat} (h : listing.nesting? i = some blocks)
    (ho : listing.role i ≠ .opener) (hc : listing.role i ≠ .closer) :
    listing.nesting? (i + 1) = some blocks := by
  rw [nesting?_succ h]
  cases hr : listing.role i with
  | opener => exact absurd hr ho
  | closer => exact absurd hr hc
  | alternative => rfl
  | plain => rfl

/-- What is matched down to a line is matched above it. -/
theorem exists_nesting?_of_le {i j : Nat} (hij : i ≤ j) {blocks : List Nat}
    (h : listing.nesting? j = some blocks) : ∃ blocks', listing.nesting? i = some blocks' := by
  induction j generalizing blocks with
  | zero =>
    obtain rfl : i = 0 := by omega
    exact ⟨blocks, h⟩
  | succ j ih =>
    rcases Nat.lt_or_ge i (j + 1) with hlt | hge
    · obtain ⟨blocks', h', -⟩ := nesting?_succ_eq_some h
      exact ih (by omega) h'
    · obtain rfl : i = j + 1 := by omega
      exact ⟨blocks, h⟩

/-- A block around line `k + 1` is opened by line `k`, or it is around line `k` already. -/
theorem nesting?_inside_succ {k i : Nat} {inner outer : List Nat}
    (h : listing.nesting? (k + 1) = some (inner ++ i :: outer)) :
    (i = k ∧ inner = [] ∧ listing.role k = .opener ∧ listing.nesting? k = some outer) ∨
    ∃ inner', listing.nesting? k = some (inner' ++ i :: outer) := by
  obtain ⟨blocks, hb, hn⟩ := nesting?_succ_eq_some h
  cases hr : listing.role k with
  | opener =>
    simp only [hr, Role.nest?, Option.some.injEq] at hn
    cases inner with
    | nil =>
      obtain ⟨rfl, rfl⟩ := List.cons_eq_cons.mp hn
      exact Or.inl ⟨rfl, rfl, rfl, hb⟩
    | cons a inner =>
      obtain ⟨-, rfl⟩ := List.cons_eq_cons.mp hn
      exact Or.inr ⟨inner, hb⟩
  | closer =>
    cases blocks with
    | nil => simp [hr, Role.nest?] at hn
    | cons a blocks =>
      simp only [hr, Role.nest?, Option.some.injEq] at hn
      exact Or.inr ⟨a :: inner, by rw [hb, hn]; rfl⟩
  | alternative =>
    simp only [hr, Role.nest?, Option.some.injEq] at hn
    exact Or.inr ⟨inner, by rw [hb, hn]⟩
  | plain =>
    simp only [hr, Role.nest?, Option.some.injEq] at hn
    exact Or.inr ⟨inner, by rw [hb, hn]⟩

/-- Every enclosing block was opened further up, where exactly the blocks around it were open. -/
theorem nesting?_at_opener {k i : Nat} {inner outer : List Nat}
    (h : listing.nesting? k = some (inner ++ i :: outer)) :
    i < k ∧ listing.role i = .opener ∧ listing.nesting? i = some outer := by
  induction k generalizing inner with
  | zero => simp [nesting?] at h
  | succ k ih =>
    rcases nesting?_inside_succ h with ⟨rfl, -, hr, ho⟩ | ⟨inner', h'⟩
    · exact ⟨Nat.lt_succ_self i, hr, ho⟩
    · obtain ⟨h1, h2, h3⟩ := ih h'
      exact ⟨by omega, h2, h3⟩

/-! ### The search -/

theorem search_succ (alternatives : Bool) (count depth i : Nat) :
    listing.search alternatives (count + 1) depth i =
      match listing.role i with
      | .opener => listing.search alternatives count (depth + 1) (i + 1)
      | .closer => if depth ≤ 1 then some i else listing.search alternatives count (depth - 1) (i + 1)
      | .alternative =>
        if alternatives && depth == 1 then some i else listing.search alternatives count depth (i + 1)
      | .plain => listing.search alternatives count depth (i + 1) := by
  rw [search]
  unfold role
  cases listing.line? i with
  | none => rfl
  | some line => cases hr : line.role <;> simp [hr]

/-- One step of the search below the opener of its block, seen from the nesting: it stops on a line that leaves the
block innermost, or the next line is inside the block too. -/
theorem search_succ_inside (alternatives : Bool) (count : Nat) {k i : Nat} {inner outer : List Nat}
    (h : listing.nesting? k = some (inner ++ i :: outer)) :
    (inner = [] ∧ (listing.role k = .closer ∨ (alternatives = true ∧ listing.role k = .alternative)) ∧
      listing.search alternatives (count + 1) (inner.length + 1) k = some k) ∨
    ∃ inner', listing.nesting? (k + 1) = some (inner' ++ i :: outer) ∧
      listing.search alternatives (count + 1) (inner.length + 1) k =
        listing.search alternatives count (inner'.length + 1) (k + 1) := by
  rw [search_succ]
  cases hr : listing.role k with
  | opener => exact Or.inr ⟨k :: inner, nesting?_opener h hr, rfl⟩
  | closer =>
    cases inner with
    | nil => exact Or.inl ⟨rfl, Or.inl rfl, rfl⟩
    | cons a inner => exact Or.inr ⟨inner, nesting?_closer h hr, by simp⟩
  | alternative =>
    have hn := nesting?_other h (by simp [hr]) (by simp [hr])
    by_cases ha : alternatives = true ∧ inner = []
    · obtain ⟨rfl, rfl⟩ := ha
      exact Or.inl ⟨rfl, Or.inr ⟨rfl, rfl⟩, rfl⟩
    · refine Or.inr ⟨inner, hn, ?_⟩
      rw [not_and] at ha
      cases alternatives with
      | false => simp
      | true => simp [ha rfl]
  | plain => exact Or.inr ⟨inner, nesting?_other h (by simp [hr]) (by simp [hr]), rfl⟩

/-- Where the search stops, the block that it started from is innermost. -/
theorem nesting?_of_search {alternatives : Bool} {count k i j : Nat} {inner outer : List Nat}
    (h : listing.nesting? k = some (inner ++ i :: outer))
    (hs : listing.search alternatives count (inner.length + 1) k = some j) :
    k ≤ j ∧ listing.nesting? j = some (i :: outer) ∧
      (listing.role j = .closer ∨ (alternatives = true ∧ listing.role j = .alternative)) := by
  induction count generalizing k inner with
  | zero => cases hs
  | succ count ih =>
    rcases search_succ_inside alternatives count h with
      ⟨rfl, hr, he⟩ | ⟨inner', hn, he⟩
    · rw [he, Option.some.injEq] at hs
      subst hs
      exact ⟨Nat.le_refl k, h, hr⟩
    · rw [he] at hs
      obtain ⟨h1, h2, h3⟩ := ih hn hs
      exact ⟨by omega, h2, h3⟩

/-- A search that finds nothing has not left the block. -/
theorem nesting?_of_search_eq_none {alternatives : Bool} {count k i : Nat} {inner outer : List Nat}
    (h : listing.nesting? k = some (inner ++ i :: outer))
    (hs : listing.search alternatives count (inner.length + 1) k = none) :
    ∃ inner', listing.nesting? (k + count) = some (inner' ++ i :: outer) := by
  induction count generalizing k inner with
  | zero => exact ⟨inner, h⟩
  | succ count ih =>
    rcases search_succ_inside alternatives count h with
      ⟨-, -, he⟩ | ⟨inner', hn, he⟩
    · rw [he] at hs
      cases hs
    · rw [he] at hs
      obtain ⟨inner'', h'⟩ := ih hn hs
      exact ⟨inner'', by rw [← h']; congr 1; omega⟩

/-- A search from an opener enters its block first. -/
theorem search_from_opener {alternatives : Bool} {i : Nat} (hr : listing.role i = .opener) :
    listing.search alternatives (listing.size - i) 0 i =
      listing.search alternatives (listing.size - (i + 1)) 1 (i + 1) := by
  have hi : i < listing.size := lt_size_of_role (by simp [hr])
  rw [show listing.size - i = (listing.size - (i + 1)) + 1 by omega, search_succ, hr]

/-- The line that closes a block has just that block innermost. -/
theorem nesting?_of_closer? {i j : Nat} {outer : List Nat} (h : listing.nesting? i = some outer)
    (hr : listing.role i = .opener) (hc : listing.closer? i = some j) :
    i < j ∧ listing.role j = .closer ∧ listing.nesting? j = some (i :: outer) := by
  rw [closer?, search_from_opener hr] at hc
  have hn : listing.nesting? (i + 1) = some ([] ++ i :: outer) := nesting?_opener h hr
  obtain ⟨h1, h2, h3⟩ := nesting?_of_search hn hc
  exact ⟨h1, by simpa using h3, h2⟩

/-- So has an `else` that stands for the line that closes the block. -/
theorem nesting?_of_elseOrCloser? {i j : Nat} {outer : List Nat} (h : listing.nesting? i = some outer)
    (hr : listing.role i = .opener) (hc : listing.elseOrCloser? i = some j) :
    i < j ∧ (listing.role j = .closer ∨ listing.role j = .alternative) ∧
      listing.nesting? j = some (i :: outer) := by
  rw [elseOrCloser?, search_from_opener hr] at hc
  have hn : listing.nesting? (i + 1) = some ([] ++ i :: outer) := nesting?_opener h hr
  obtain ⟨h1, h2, h3⟩ := nesting?_of_search hn hc
  exact ⟨h1, by simpa using h3, h2⟩

/-- The search for the closer of an enclosing block passes through line `k`, with one block more than those inside
it open. -/
theorem closer?_eq_search {k i : Nat} {inner outer : List Nat}
    (h : listing.nesting? k = some (inner ++ i :: outer)) :
    listing.closer? i = listing.search false (listing.size - k) (inner.length + 1) k := by
  induction k generalizing inner with
  | zero => simp [nesting?] at h
  | succ k ih =>
    rcases nesting?_inside_succ h with ⟨rfl, rfl, hr, -⟩ | ⟨inner', h'⟩
    · rw [closer?, search_from_opener hr]
      rfl
    · rw [ih h']
      rcases Nat.lt_or_ge k listing.size with hk | hk
      · rw [show listing.size - k = (listing.size - (k + 1)) + 1 by omega]
        rcases search_succ_inside false (listing.size - (k + 1)) h' with
          ⟨rfl, hr, -⟩ | ⟨inner'', hn, he⟩
        · -- the block would end on line `k` and not be around the next one
          have hn := nesting?_closer h' (by simpa using hr)
          rw [h, Option.some.injEq] at hn
          have hlen := congrArg List.length hn
          simp only [List.length_append, List.length_cons] at hlen
          omega
        · rw [h, Option.some.injEq] at hn
          rw [he, List.append_cancel_right hn]
      · rw [show listing.size - k = 0 by omega, show listing.size - (k + 1) = 0 by omega]
        rfl

theorem closer_eq_ok_iff {i j : Nat} : listing.closer i = .ok j ↔ listing.closer? i = some j := by
  unfold closer
  cases listing.closer? i <;> simp

theorem elseOrCloser_eq_ok_iff {i j : Nat} : listing.elseOrCloser i = .ok j ↔ listing.elseOrCloser? i = some j := by
  unfold elseOrCloser
  cases listing.elseOrCloser? i <;> simp

/-! ### Balanced listings -/

/-- In a balanced listing no search from inside a block fails. -/
theorem exists_search {alternatives : Bool} {k i : Nat} {inner outer : List Nat} (hb : listing.Balanced)
    (h : listing.nesting? k = some (inner ++ i :: outer)) (hk : k ≤ listing.size) :
    ∃ j, listing.search alternatives (listing.size - k) (inner.length + 1) k = some j := by
  cases hs : listing.search alternatives (listing.size - k) (inner.length + 1) k with
  | some j => exact ⟨j, rfl⟩
  | none =>
    obtain ⟨inner', h'⟩ := nesting?_of_search_eq_none h hs
    rw [show k + (listing.size - k) = listing.size by omega, hb] at h'
    simp at h'

/-- In a balanced listing every block that encloses a line has a closer. -/
theorem exists_closer {k i : Nat} {inner outer : List Nat} (hb : listing.Balanced)
    (h : listing.nesting? k = some (inner ++ i :: outer)) (hk : k ≤ listing.size) :
    ∃ j, listing.closer? i = some j := by
  rw [closer?_eq_search h]
  exact exists_search hb h hk

/-- In a balanced listing every opener has a closer. -/
theorem exists_closer_of_opener {i : Nat} {blocks : List Nat} (hb : listing.Balanced)
    (h : listing.nesting? i = some blocks) (hr : listing.role i = .opener) :
    ∃ j, listing.closer? i = some j := by
  have hi : i < listing.size := lt_size_of_role (by simp [hr])
  have hn : listing.nesting? (i + 1) = some ([] ++ i :: blocks) := nesting?_opener h hr
  exact exists_closer hb hn hi

/-- In a balanced listing every opener has an `else` or a closer. -/
theorem exists_elseOrCloser {i : Nat} {blocks : List Nat} (hb : listing.Balanced)
    (h : listing.nesting? i = some blocks) (hr : listing.role i = .opener) :
    ∃ j, listing.elseOrCloser? i = some j := by
  have hi : i < listing.size := lt_size_of_role (by simp [hr])
  rw [elseOrCloser?, search_from_opener hr]
  have hn : listing.nesting? (i + 1) = some ([] ++ i :: blocks) := nesting?_opener h hr
  exact exists_search hb hn hi

/-- In a balanced listing a closer has a block to close. -/
theorem exists_cons_of_closer {i : Nat} {blocks : List Nat} (hb : listing.Balanced)
    (h : listing.nesting? i = some blocks) (hr : listing.role i = .closer) :
    ∃ o outer, blocks = o :: outer := by
  have hi : i < listing.size := lt_size_of_role (by simp [hr])
  obtain ⟨blocks', h'⟩ := exists_nesting?_of_le hi hb
  rw [nesting?_succ h, hr] at h'
  cases blocks with
  | nil => cases h'
  | cons o outer => exact ⟨o, outer, rfl⟩

end Listing

end LineScript
