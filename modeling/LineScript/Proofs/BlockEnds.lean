import LineScript.Proofs.Nesting
import Mathlib.Order.Lattice.Nat

/-!
# LineScript.Proofs.BlockEnds — where blocks end, by counting

The search for the end of a block carries one number down the listing.  What it finds can be said without a search: the
end of the block opened on line `i` is the first line below it down to which there are as many closers as openers.
Nothing is asked of the lines above `i`, so this holds in listings that are not well bracketed too.

* `Listing.countLines words i j`: how many of the lines `i` to `j` start with one of some words.
* `Listing.endsBehind i`: the lines below `i` down to which closers and openers from `i` on are equally many.
* `Listing.elsesOf i`: the `else` lines directly inside the block opened on line `i`.
* `Listing.search_eq_some_iff`: a search finds the first line that gives it reason to stop.
* `Listing.exists_search_of_deeper`: with fewer open blocks a search ends sooner, so blocks are properly nested.
* `Listing.searches_match_blocks`: what the two searches find.
-/

namespace LineScript

/-- The words that open a block. -/
def openerWords : List String := ["push", "if", "while"]

/-- The words that close a block. -/
def closerWords : List String := ["pop", "end"]

/-- The number of open blocks behind a line with a given role. -/
def Role.depthBehind : Role → Nat → Nat
  | .opener, depth => depth + 1
  | .closer, depth => depth - 1
  | .alternative, depth => depth
  | .plain, depth => depth

namespace Listing

/-- Line `i` starts with one of some words. -/
def StartsWith (listing : Listing) (words : List String) (i : Nat) : Prop :=
  ∃ w ∈ words, listing.firstToken? i = some w

instance (listing : Listing) (words : List String) (i : Nat) : Decidable (listing.StartsWith words i) :=
  inferInstanceAs (Decidable (∃ w ∈ words, _))

/-- The number of lines from `i` to `j`, both included, that start with one of some words. -/
def countLines (listing : Listing) (words : List String) (i j : Nat) : Nat :=
  (List.range' i (j + 1 - i)).countP fun k => listing.StartsWith words k

/-- The lines below `i` down to which there are as many closers as openers, counted from line `i` on. -/
def endsBehind (listing : Listing) (i : Nat) : Set Nat :=
  {j | i < j ∧ j < listing.size ∧ listing.countLines closerWords i j = listing.countLines openerWords i j}

/-- The lines `else` below `i` with one more opener than closers down to them, counted from line `i` on. -/
def elsesBehind (listing : Listing) (i : Nat) : Set Nat :=
  {j | i < j ∧ listing.StartsWith ["else"] j ∧
    listing.countLines openerWords i j = listing.countLines closerWords i j + 1}

/-- The lines `else` directly inside the block opened on line `i`: one level deep, and above its end if it has one. -/
def elsesOf (listing : Listing) (i : Nat) : Set Nat :=
  {j | j ∈ listing.elsesBehind i ∧ ∀ c, IsLeast (listing.endsBehind i) c → j < c}

variable {listing : Listing} {i j k l : Nat}

/-! ### Counting lines -/

theorem startsWith_openerWords_iff : listing.StartsWith openerWords i ↔ listing.role i = .opener := by
  rw [role_eq_opener_iff]
  simp [StartsWith, openerWords, keyword?_eq_some_iff, Keyword.text]

theorem startsWith_closerWords_iff : listing.StartsWith closerWords i ↔ listing.role i = .closer := by
  rw [role_eq_closer_iff]
  simp [StartsWith, closerWords, keyword?_eq_some_iff, Keyword.text]

theorem startsWith_else_iff : listing.StartsWith ["else"] i ↔ listing.role i = .alternative := by
  rw [role_eq_alternative_iff]
  simp [StartsWith, keyword?_eq_some_iff, Keyword.text]

theorem countLines_of_lt (words : List String) (h : j < k) : listing.countLines words k j = 0 := by
  rw [countLines, show j + 1 - k = 0 by omega]
  rfl

theorem countLines_of_le (words : List String) (h : k ≤ j) :
    listing.countLines words k j =
      (if listing.StartsWith words k then 1 else 0) + listing.countLines words (k + 1) j := by
  rw [countLines, show j + 1 - k = (j + 1 - (k + 1)) + 1 by omega, List.range'_succ, List.countP_cons, Nat.add_comm]
  simp [countLines]

theorem openers_of_le (h : k ≤ j) :
    listing.countLines openerWords k j =
      (if listing.role k = .opener then 1 else 0) + listing.countLines openerWords (k + 1) j := by
  rw [countLines_of_le openerWords h]
  simp only [startsWith_openerWords_iff]

theorem closers_of_le (h : k ≤ j) :
    listing.countLines closerWords k j =
      (if listing.role k = .closer then 1 else 0) + listing.countLines closerWords (k + 1) j := by
  rw [countLines_of_le closerWords h]
  simp only [startsWith_closerWords_iff]

/-! ### What a search finds -/

/-- A search that enters line `k` with `depth` open blocks has reason to stop on line `l`: all of these blocks are
closed there, or it looks for an `else` too and finds one directly inside the outermost of them. -/
def StopsAt (listing : Listing) (alternatives : Bool) (depth k l : Nat) : Prop :=
  listing.countLines closerWords k l = listing.countLines openerWords k l + depth ∨
  (alternatives = true ∧ listing.role l = .alternative ∧
    listing.countLines openerWords k l + depth = listing.countLines closerWords k l + 1)

/-- The lines on which a search of `count` lines from line `k` on has reason to stop. -/
def stops (listing : Listing) (alternatives : Bool) (count depth k : Nat) : Set Nat :=
  {l | k ≤ l ∧ l < k + count ∧ listing.StopsAt alternatives depth k l}

section Search

variable {alternatives : Bool} {count depth : Nat}

theorem stopsAt_self_iff (hd : 1 ≤ depth) :
    listing.StopsAt alternatives depth k k ↔
      depth = 1 ∧ (listing.role k = .closer ∨ (alternatives = true ∧ listing.role k = .alternative)) := by
  unfold StopsAt
  rw [openers_of_le le_rfl, closers_of_le le_rfl, countLines_of_lt _ (Nat.lt_succ_self k),
    countLines_of_lt _ (Nat.lt_succ_self k)]
  cases hr : listing.role k with
  | opener | plain => simp; omega
  | closer => simp [eq_comm]
  | alternative => simp [and_comm]; omega

/-- Reasons to stop below a line that gives none are those of a search from the next line on. -/
theorem stopsAt_succ_iff (hk : ¬ listing.StopsAt alternatives depth k k) (hd : 1 ≤ depth) (hl : k < l) :
    listing.StopsAt alternatives depth k l ↔
      listing.StopsAt alternatives ((listing.role k).depthBehind depth) (k + 1) l := by
  rw [stopsAt_self_iff hd] at hk
  unfold StopsAt
  rw [openers_of_le hl.le, closers_of_le hl.le]
  cases hr : listing.role k with
  | opener =>
    refine or_congr ?_ (and_congr_right fun _ => and_congr_right fun _ => ?_)
    · simp [Role.depthBehind]; omega
    · simp [Role.depthBehind]; omega
  | closer =>
    have hne : depth ≠ 1 := fun h => hk ⟨h, Or.inl hr⟩
    refine or_congr ?_ (and_congr_right fun _ => and_congr_right fun _ => ?_)
    · simp [Role.depthBehind]; omega
    · simp [Role.depthBehind]; omega
  | alternative | plain => simp [Role.depthBehind]

theorem search_of_stopsAt (hd : 1 ≤ depth) (hk : listing.StopsAt alternatives depth k k) :
    listing.search alternatives (count + 1) depth k = some k := by
  obtain ⟨rfl, hr | ⟨rfl, hr⟩⟩ := (stopsAt_self_iff hd).mp hk
  · rw [search_succ, hr]
    rfl
  · rw [search_succ, hr]
    rfl

theorem search_of_not_stopsAt (count : Nat) (hd : 1 ≤ depth) (hk : ¬ listing.StopsAt alternatives depth k k) :
    1 ≤ (listing.role k).depthBehind depth ∧
    listing.search alternatives (count + 1) depth k =
      listing.search alternatives count ((listing.role k).depthBehind depth) (k + 1) := by
  rw [stopsAt_self_iff hd] at hk
  rw [search_succ]
  cases hr : listing.role k with
  | opener => exact ⟨Nat.succ_pos depth, rfl⟩
  | closer =>
    have hne : depth ≠ 1 := fun h => hk ⟨h, Or.inl hr⟩
    have hlt : ¬ depth ≤ 1 := by omega
    exact ⟨by simp only [Role.depthBehind]; omega, if_neg hlt⟩
  | alternative =>
    refine ⟨hd, if_neg ?_⟩
    intro h
    simp only [Bool.and_eq_true, beq_iff_eq] at h
    exact hk ⟨h.2, Or.inr ⟨h.1, hr⟩⟩
  | plain => exact ⟨hd, rfl⟩

/-- **A search finds the first line that gives it reason to stop.** -/
theorem search_eq_some_iff (hd : 1 ≤ depth) :
    listing.search alternatives count depth k = some j ↔
      IsLeast (listing.stops alternatives count depth k) j := by
  induction count generalizing depth k with
  | zero =>
    constructor
    · intro h
      cases h
    · rintro ⟨⟨h₁, h₂, -⟩, -⟩
      omega
  | succ count ih =>
    by_cases hk : listing.StopsAt alternatives depth k k
    · have hmem : k ∈ listing.stops alternatives (count + 1) depth k := ⟨le_rfl, by omega, hk⟩
      rw [search_of_stopsAt hd hk, Option.some.injEq]
      constructor
      · rintro rfl
        exact ⟨hmem, fun l hl => hl.1⟩
      · intro h
        exact le_antisymm h.1.1 (h.2 hmem)
    · obtain ⟨hd', hs⟩ := search_of_not_stopsAt count hd hk
      have hstops : listing.stops alternatives (count + 1) depth k =
          listing.stops alternatives count ((listing.role k).depthBehind depth) (k + 1) := by
        ext l
        constructor
        · rintro ⟨h₁, h₂, h₃⟩
          have hne : k ≠ l := by
            rintro rfl
            exact hk h₃
          have hlt : k < l := by omega
          exact ⟨hlt, by omega, (stopsAt_succ_iff hk hd hlt).mp h₃⟩
        · rintro ⟨h₁, h₂, h₃⟩
          exact ⟨by omega, by omega, (stopsAt_succ_iff hk hd h₁).mpr h₃⟩
      rw [hs, ih hd', hstops]

theorem search_eq_none_iff (hd : 1 ≤ depth) :
    listing.search alternatives count depth k = none ↔ listing.stops alternatives count depth k = ∅ := by
  constructor
  · intro h
    by_contra hne
    have hleast := isLeast_csInf (Set.nonempty_iff_ne_empty.mpr hne)
    rw [← search_eq_some_iff hd, h] at hleast
    cases hleast
  · intro h
    cases hs : listing.search alternatives count depth k with
    | none => rfl
    | some j =>
      have hmem := ((search_eq_some_iff hd).mp hs).1
      rw [h] at hmem
      cases hmem

/-- With fewer open blocks a search ends sooner. -/
theorem exists_search_of_deeper {deeper : Nat} (hd : 1 ≤ depth) (hlt : depth < deeper)
    (h : listing.search false count deeper k = some j) : ∃ j' < j, listing.search false count depth k = some j' := by
  induction count generalizing depth deeper k with
  | zero => cases h
  | succ count ih =>
    have hk : ¬ listing.StopsAt false deeper k k := fun hk => by
      have := ((stopsAt_self_iff (by omega)).mp hk).1
      omega
    obtain ⟨hd', hs⟩ := search_of_not_stopsAt count (by omega) hk
    rw [hs] at h
    have hkj : k < j := ((search_eq_some_iff hd').mp h).1.1
    by_cases hk' : listing.StopsAt false depth k k
    · exact ⟨k, hkj, search_of_stopsAt hd hk'⟩
    · obtain ⟨hd'', hs'⟩ := search_of_not_stopsAt count hd hk'
      rw [hs']
      refine ih hd'' ?_ h
      cases hr : listing.role k <;> simp only [hr, Role.depthBehind] at hd'' ⊢ <;> omega

/-- A search passes through every line above the one that it finds. -/
theorem exists_search_of_le (hd : 1 ≤ depth) (h : listing.search alternatives (listing.size - k) depth k = some j)
    (hkl : k ≤ l) (hlj : l ≤ j) :
    ∃ depth', 1 ≤ depth' ∧ listing.search alternatives (listing.size - l) depth' l = some j := by
  induction l, hkl using Nat.le_induction with
  | base => exact ⟨depth, hd, h⟩
  | succ l hkl ih =>
    obtain ⟨depth', hd', hs⟩ := ih (by omega)
    obtain ⟨⟨-, hsize, -⟩, hleast⟩ := (search_eq_some_iff hd').mp hs
    have hl : ¬ listing.StopsAt alternatives depth' l l := fun hl => by
      have := hleast ⟨le_rfl, by omega, hl⟩
      omega
    obtain ⟨hd'', hs'⟩ := search_of_not_stopsAt (listing.size - (l + 1)) hd' hl
    rw [show listing.size - l = listing.size - (l + 1) + 1 by omega, hs'] at hs
    exact ⟨_, hd'', hs⟩

end Search

/-! ### The ends of a block -/

theorem counts_behind_opener (hr : listing.role i = .opener) (hl : i < l) :
    listing.countLines openerWords i l = listing.countLines openerWords (i + 1) l + 1 ∧
      listing.countLines closerWords i l = listing.countLines closerWords (i + 1) l := by
  rw [openers_of_le hl.le, closers_of_le hl.le, hr]
  simp [Nat.add_comm]

theorem endsBehind_eq_stops (hr : listing.role i = .opener) :
    listing.endsBehind i = listing.stops false (listing.size - (i + 1)) 1 (i + 1) := by
  ext l
  simp only [endsBehind, stops, StopsAt, Set.mem_ofPred_eq, Bool.false_eq_true, false_and, or_false]
  constructor
  · rintro ⟨hl, hsize, hcount⟩
    obtain ⟨ho, hc⟩ := counts_behind_opener hr hl
    exact ⟨hl, by omega, by omega⟩
  · rintro ⟨hl, hsize, hcount⟩
    obtain ⟨ho, hc⟩ := counts_behind_opener hr hl
    exact ⟨hl, by omega, by omega⟩

theorem elsesBehind_union_eq_stops (hr : listing.role i = .opener) :
    listing.elsesBehind i ∪ listing.endsBehind i = listing.stops true (listing.size - (i + 1)) 1 (i + 1) := by
  ext l
  simp only [elsesBehind, endsBehind, stops, StopsAt, Set.mem_union, Set.mem_ofPred_eq, true_and,
    startsWith_else_iff]
  constructor
  · rintro (⟨hl, helse, hcount⟩ | ⟨hl, hsize, hcount⟩)
    · obtain ⟨ho, hc⟩ := counts_behind_opener hr hl
      have hsize : l < listing.size := lt_size_of_role (by simp [helse])
      exact ⟨hl, by omega, Or.inr ⟨helse, by omega⟩⟩
    · obtain ⟨ho, hc⟩ := counts_behind_opener hr hl
      exact ⟨hl, by omega, Or.inl (by omega)⟩
  · rintro ⟨hl, hsize, hcount | ⟨helse, hcount⟩⟩
    · obtain ⟨ho, hc⟩ := counts_behind_opener hr hl
      exact Or.inr ⟨hl, by omega, by omega⟩
    · obtain ⟨ho, hc⟩ := counts_behind_opener hr hl
      exact Or.inl ⟨hl, helse, by omega⟩

theorem closer?_eq_some_iff (hr : listing.role i = .opener) :
    listing.closer? i = some j ↔ IsLeast (listing.endsBehind i) j := by
  rw [closer?, search_from_opener hr, search_eq_some_iff le_rfl, endsBehind_eq_stops hr]

theorem closer?_eq_none_iff (hr : listing.role i = .opener) :
    listing.closer? i = none ↔ listing.endsBehind i = ∅ := by
  rw [closer?, search_from_opener hr, search_eq_none_iff le_rfl, endsBehind_eq_stops hr]

/-- The first of the `else` lines and ends is an `else` above the end, or the end if there is none. -/
theorem isLeast_elses_union_iff :
    IsLeast (listing.elsesBehind i ∪ listing.endsBehind i) j ↔
      IsLeast (listing.elsesOf i) j ∨ (listing.elsesOf i = ∅ ∧ IsLeast (listing.endsBehind i) j) := by
  constructor
  · rintro ⟨hj | hj, hleast⟩
    · refine Or.inl ⟨⟨hj, fun c hc => ?_⟩, fun l hl => hleast (Or.inl hl.1)⟩
      have hne : j ≠ c := by
        rintro rfl
        have helse := hj.2.2
        have hend := hc.1.2.2
        omega
      exact lt_of_le_of_ne (hleast (Or.inr hc.1)) hne
    · have hend : IsLeast (listing.endsBehind i) j := ⟨hj, fun l hl => hleast (Or.inr hl)⟩
      refine Or.inr ⟨Set.eq_empty_iff_forall_notMem.mpr fun l hl => ?_, hend⟩
      exact absurd (hl.2 j hend) (not_lt.mpr (hleast (Or.inl hl.1)))
  · rintro (⟨hj, hleast⟩ | ⟨hnone, hj⟩)
    · refine ⟨Or.inl hj.1, ?_⟩
      rintro l (hl | hl)
      · by_cases habove : ∀ c, IsLeast (listing.endsBehind i) c → l < c
        · exact hleast ⟨hl, habove⟩
        · push Not at habove
          obtain ⟨c, hc, hcl⟩ := habove
          exact (hj.2 c hc).le.trans hcl
      · have hc := isLeast_csInf (s := listing.endsBehind i) ⟨l, hl⟩
        exact (hj.2 _ hc).le.trans (hc.2 hl)
    · refine ⟨Or.inr hj.1, ?_⟩
      rintro l (hl | hl)
      · by_contra hlt
        have hmem : l ∈ listing.elsesOf i := ⟨hl, fun c hc => by rw [hc.unique hj]; exact not_le.mp hlt⟩
        rw [hnone] at hmem
        cases hmem
      · exact hj.2 hl

theorem elseOrCloser?_eq_some_iff (hr : listing.role i = .opener) :
    listing.elseOrCloser? i = some j ↔
      IsLeast (listing.elsesOf i) j ∨ (listing.elsesOf i = ∅ ∧ IsLeast (listing.endsBehind i) j) := by
  rw [elseOrCloser?, search_from_opener hr, search_eq_some_iff le_rfl, ← elsesBehind_union_eq_stops hr,
    isLeast_elses_union_iff]

theorem elseOrCloser?_eq_none_iff (hr : listing.role i = .opener) :
    listing.elseOrCloser? i = none ↔ listing.elsesOf i = ∅ ∧ listing.endsBehind i = ∅ := by
  rw [elseOrCloser?, search_from_opener hr, search_eq_none_iff le_rfl, ← elsesBehind_union_eq_stops hr,
    Set.union_empty_iff]
  refine and_congr_left fun hnone => ?_
  have hall : ∀ c, ¬ IsLeast (listing.endsBehind i) c := by simp [hnone, IsLeast]
  simp [elsesOf, hall]

/-- A block that is opened inside another one ends inside it. -/
theorem exists_closer?_inside (hi : listing.role i = .opener) (hk : listing.role k = .opener) (hik : i < k)
    (hj : listing.closer? i = some j) (hkj : k < j) : ∃ j' < j, listing.closer? k = some j' := by
  rw [closer?, search_from_opener hi] at hj
  rw [closer?, search_from_opener hk]
  obtain ⟨depth, hd, hs⟩ := exists_search_of_le le_rfl hj hik hkj.le
  have hsize : k < listing.size := lt_size_of_role (by simp [hk])
  rw [show listing.size - k = listing.size - (k + 1) + 1 by omega, search_succ, hk] at hs
  exact exists_search_of_deeper le_rfl (by omega) hs

/-- Two blocks do not end on the same line. -/
theorem opener_unique (hi : listing.role i = .opener) (hk : listing.role k = .opener)
    (hij : listing.closer? i = some j) (hkj : listing.closer? k = some j) : i = k := by
  have hbelow : ∀ {i k}, listing.role i = .opener → listing.role k = .opener → listing.closer? i = some j →
      listing.closer? k = some j → ¬ i < k := by
    intro i k hi hk hij hkj hik
    have hlt : k < j := ((closer?_eq_some_iff hk).mp hkj).1.1
    obtain ⟨j', hj', hkj'⟩ := exists_closer?_inside hi hk hik hij hlt
    rw [hkj, Option.some.injEq] at hkj'
    omega
  have h₁ := hbelow hi hk hij hkj
  have h₂ := hbelow hk hi hkj hij
  omega

/-- **The searches find the lexical matching.**  For a line that starts with an opener, the search for its closer finds
the first line below it down to which closers and openers are equally many, and fails just when there is none.  A block
opened inside another one ends inside it, and no two blocks end on the same line.  The search that stops at an `else`
finds the first one directly inside the block, else the closer, and fails only with the search for the closer. -/
theorem searches_match_blocks (listing : Listing) {i : Nat} (hi : listing.StartsWith openerWords i) :
    (∀ j, listing.closer i = .ok j ↔ IsLeast (listing.endsBehind i) j) ∧
    (listing.closer i = .error .unterminatedScope ↔ listing.endsBehind i = ∅) ∧
    (∀ j k, listing.StartsWith openerWords k → i < k → listing.closer i = .ok j → k < j →
      ∃ j' < j, listing.closer k = .ok j') ∧
    (∀ j k, listing.StartsWith openerWords k → i ≠ k → listing.closer i = .ok j → listing.closer k ≠ .ok j) ∧
    (∀ j, listing.elseOrCloser i = .ok j ↔
      IsLeast (listing.elsesOf i) j ∨ (listing.elsesOf i = ∅ ∧ listing.closer i = .ok j)) ∧
    ∀ cause, listing.elseOrCloser i = .error cause → listing.closer i = .error cause := by
  rw [startsWith_openerWords_iff] at hi
  simp only [closer_eq_ok_iff, elseOrCloser_eq_ok_iff, startsWith_openerWords_iff]
  refine ⟨fun j => closer?_eq_some_iff hi, ?_, fun j k hk hik hj hkj => exists_closer?_inside hi hk hik hj hkj,
    fun j k hk hik hj hkj => hik (opener_unique hi hk hj (closer_eq_ok_iff.mp hkj)), fun j => ?_, ?_⟩
  · rw [← closer?_eq_none_iff hi, closer]
    cases listing.closer? i <;> simp
  · rw [elseOrCloser?_eq_some_iff hi, closer?_eq_some_iff hi]
  · intro cause h
    rw [elseOrCloser] at h
    cases hnone : listing.elseOrCloser? i with
    | some j => simp [hnone] at h
    | none =>
      have hcloser := (closer?_eq_none_iff hi).mpr ((elseOrCloser?_eq_none_iff hi).mp hnone).2
      rw [hnone] at h
      rw [closer, hcloser]
      exact h

/-- A listing with a closer too many at its top, and an `else` in each of two nested blocks. -/
def nestedElses : Listing :=
  ⟨#[⟨["end"]⟩, ⟨["if", "a"]⟩, ⟨["while", "b"]⟩, ⟨["else"]⟩, ⟨["end"]⟩, ⟨[]⟩, ⟨["else"]⟩, ⟨["pop"]⟩, ⟨["push"]⟩]⟩

theorem searches_match_blocks_nestedElses :
    nestedElses.StartsWith openerWords 1 ∧ IsLeast (nestedElses.endsBehind 1) 7 ∧
      IsLeast (nestedElses.elsesOf 1) 6 ∧ nestedElses.closer 8 = .error .unterminatedScope ∧
      nestedElses.endsBehind 8 = ∅ := by
  have h₁ : nestedElses.StartsWith openerWords 1 := by decide
  have h₈ : nestedElses.StartsWith openerWords 8 := by decide
  obtain ⟨hclose, -, -, -, helse, -⟩ := searches_match_blocks nestedElses h₁
  have hsix := (helse 6).mp (by decide)
  refine ⟨h₁, (hclose 7).mp (by decide), ?_, by decide, ?_⟩
  · rcases hsix with hsix | ⟨-, hsix⟩
    · exact hsix
    · exact absurd hsix (by decide)
  · exact (searches_match_blocks nestedElses h₈).2.1.mp (by decide)

end Listing

end LineScript
