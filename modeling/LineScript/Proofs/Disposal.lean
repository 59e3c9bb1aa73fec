import LineScript.Proofs.Scoping
import Mathlib.Data.List.Nodup
import Mathlib.Data.List.Pairwise

/-!
# LineScript.Proofs.Disposal — what disposal keeps

Blocks declare their variables at their own depth, but the table itself takes variables of any depth in any order.
Disposal looks for the newest variable that is declared below a depth, keeps it with all older ones, and drops the rest.

* `Variables.LongestBelow`: the longest beginning of a table that ends below a depth.  There is one only
  (`LongestBelow.unique`), and it is what disposal keeps (`longestBelow_dispose`).
* `Variables.dispose_dispose`: two disposals are one, at the lower of the two depths.
* `Variables.toList_dispose_of_ordered`: where depths never decrease, what is kept is told by the depths alone.
* `Variables.performed`: the tables that can be made; their names are distinct.
* `Variables.disposal_laws`: all of it.
* `Variables.Distinct.find?_toList`, `Variables.Distinct.toList_update`: it does not matter from which end such a table is
  searched.
-/

namespace LineScript

namespace Variables

variable {vars vars' : Variables} {d e : Nat}

/-! ### The longest beginning below a depth -/

/-- The variables are none, or the newest of them is declared below `depth`. -/
def EndsBelow (depth : Nat) (l : List Variable) : Prop :=
  ∀ v ∈ l.getLast?, v.scope < depth

/-- `kept` is the longest beginning of `l` that is empty or ends in a variable declared below `depth`. -/
structure LongestBelow (depth : Nat) (l kept : List Variable) : Prop where
  initial : kept <+: l
  endsBelow : EndsBelow depth kept
  longest : ∀ k, k <+: l → EndsBelow depth k → k <+: kept

namespace LongestBelow

variable {l kept kept' : List Variable}

theorem unique (h : LongestBelow d l kept) (h' : LongestBelow d l kept') : kept = kept' := by
  have hle : kept <+: kept' := h'.longest kept h.initial h.endsBelow
  have hge : kept' <+: kept := h.longest kept' h'.initial h'.endsBelow
  exact hle.eq_of_length_le hge.length_le

/-- A table that ends below a depth is kept as a whole. -/
theorem of_endsBelow (h : EndsBelow d l) : LongestBelow d l l :=
  ⟨List.prefix_rfl, h, fun _ hk _ => hk⟩

/-- Keeping what is below one depth and then what is below another is keeping what is below both. -/
theorem trans (h : LongestBelow d l kept) (h' : LongestBelow e kept kept') : LongestBelow (min d e) l kept' := by
  have hboth : ∀ k, EndsBelow (min d e) k ↔ EndsBelow d k ∧ EndsBelow e k := by
    intro k
    simp only [EndsBelow, Nat.lt_min]
    exact ⟨fun hk => ⟨fun v hv => (hk v hv).1, fun v hv => (hk v hv).2⟩, fun hk v hv => ⟨hk.1 v hv, hk.2 v hv⟩⟩
  refine ⟨h'.initial.trans h.initial, (hboth kept').mpr ⟨?_, h'.endsBelow⟩, ?_⟩
  · rcases Nat.le_total e d with hed | hde
    · intro v hv
      have := h'.endsBelow v hv
      omega
    · -- what ends below the lower depth ends below the higher one, so nothing more is dropped
      have hends : EndsBelow e kept := fun v hv => Nat.lt_of_lt_of_le (h.endsBelow v hv) hde
      rw [h'.unique (of_endsBelow hends)]
      exact h.endsBelow
  · intro k hk hends
    obtain ⟨hd, he⟩ := (hboth k).mp hends
    exact h'.longest k (h.longest k hk hd) he

/-- Every variable behind what is kept is at the depth or deeper. -/
theorem le_scope_of_dropped {dropped : List Variable} (h : LongestBelow d l kept) (hl : l = kept ++ dropped)
    {v : Variable} (hv : v ∈ dropped) : d ≤ v.scope := by
  by_contra hlt
  obtain ⟨older, newer, rfl⟩ := List.append_of_mem hv
  have hk : kept ++ older ++ [v] <+: l := ⟨newer, by simp [hl]⟩
  have hends : EndsBelow d (kept ++ older ++ [v]) := by
    intro w hw
    rw [List.getLast?_concat, Option.mem_some] at hw
    subst hw
    exact Nat.not_le.mp hlt
  have hlength := (h.longest _ hk hends).length_le
  simp only [List.length_append, List.length_singleton] at hlength
  omega

/-- Where depths never decrease, what is kept are the variables below the depth. -/
theorem eq_filter (h : LongestBelow d l kept) (hordered : l.Pairwise fun v w => v.scope ≤ w.scope) :
    kept = l.filter fun v => v.scope < d := by
  have : Std.Refl fun v w : Variable => v.scope ≤ w.scope := ⟨fun v => Nat.le_refl v.scope⟩
  obtain ⟨dropped, hl⟩ := h.initial
  have hkept : ∀ v ∈ kept, decide (v.scope < d) = true := by
    intro v hv
    have hne : kept ≠ [] := List.ne_nil_of_mem hv
    have hlast := h.endsBelow _ (List.getLast?_eq_some_getLast hne)
    have hle : v.scope ≤ (kept.getLast hne).scope :=
      (hordered.sublist h.initial.sublist).rel_getLast hv
    exact decide_eq_true (Nat.lt_of_le_of_lt hle hlast)
  have hdropped : ∀ v ∈ dropped, ¬ decide (v.scope < d) = true := by
    intro v hv
    have := h.le_scope_of_dropped hl.symm hv
    simp only [decide_eq_true_eq]
    omega
  rw [← hl, List.filter_append, List.filter_eq_self.mpr hkept, List.filter_eq_nil_iff.mpr hdropped, List.append_nil]

end LongestBelow

/-! ### Disposal -/

theorem toList_dispose_append (vars : Variables) (d : Nat) :
    (vars.dispose d).toList ++ (vars.newestFirst.takeWhile fun v => d ≤ v.scope).reverse = vars.toList := by
  rw [toList, dispose, ← List.reverse_append, List.takeWhile_append_dropWhile, ← toList]

/-- **Disposal keeps the longest beginning that ends below the depth.** -/
theorem longestBelow_dispose (vars : Variables) (d : Nat) :
    LongestBelow d vars.toList (vars.dispose d).toList := by
  have hsplit := toList_dispose_append vars d
  refine ⟨⟨_, hsplit⟩, ?_, ?_⟩
  · intro v hv
    have hhead : (vars.newestFirst.dropWhile fun v => d ≤ v.scope).head? = some v := by
      rwa [toList, dispose, List.getLast?_reverse] at hv
    have hnot := List.head?_dropWhile_not (fun v : Variable => decide (d ≤ v.scope)) vars.newestFirst
    rw [hhead] at hnot
    simpa using hnot
  · intro k hk hends
    rcases List.prefix_or_prefix_of_prefix hk ⟨_, hsplit⟩ with hshort | ⟨newer, rfl⟩
    · exact hshort
    · -- what is behind the kept part was dropped, so it cannot end below the depth
      rw [← hsplit, List.prefix_append_right_inj] at hk
      cases hlast : newer.getLast? with
      | none =>
        have hempty : newer = [] := List.getLast?_eq_none_iff.mp hlast
        simp [hempty]
      | some v =>
        have hlow := hends v (by rw [List.getLast?_append, hlast]; rfl)
        have hmem := List.mem_reverse.mp (hk.subset (List.mem_of_getLast? hlast))
        have hdeep := List.mem_takeWhile_imp hmem
        simp only [decide_eq_true_eq] at hdeep
        omega

theorem ext_toList (h : vars.toList = vars'.toList) : vars = vars' := by
  cases vars
  cases vars'
  exact congrArg Variables.mk (List.reverse_injective h)

/-- Two disposals are one, at the lower of the two depths. -/
theorem dispose_dispose (vars : Variables) (d e : Nat) : (vars.dispose d).dispose e = vars.dispose (min d e) := by
  have htwice := (longestBelow_dispose vars d).trans (longestBelow_dispose (vars.dispose d) e)
  exact ext_toList (htwice.unique (longestBelow_dispose vars (min d e)))

theorem toList_dispose_of_ordered (h : vars.toList.Pairwise fun v w => v.scope ≤ w.scope) (d : Nat) :
    (vars.dispose d).toList = vars.toList.filter fun v => v.scope < d :=
  (longestBelow_dispose vars d).eq_filter h

/-! ### Tables that can be made -/

/-- Something that is asked of a table. -/
inductive Operation
  | declare (name : String) (ty : Ty) (scope : Nat)
  | store (name : String) (value : Value)
  | dispose (depth : Nat)
  | clear

/-- The table after something was tried; a failure leaves it as it was. -/
def settle (vars : Variables) : Except Cause Variables → Variables
  | .ok vars' => vars'
  | .error _ => vars

/-- The table after an operation. -/
def perform (vars : Variables) : Operation → Variables
  | .declare name ty scope => vars.settle (vars.declare name ty scope)
  | .store name value => vars.settle (vars.store name value)
  | .dispose depth => vars.dispose depth
  | .clear => {}

/-- The table after operations on an empty one. -/
def performed (ops : List Operation) : Variables :=
  ops.foldl perform {}

/-- No two variables share a name. -/
def Distinct (vars : Variables) : Prop :=
  (vars.toList.map Variable.name).Nodup

theorem distinct_iff : vars.Distinct ↔ (vars.declarations.map Declaration.name).Nodup := by
  rw [Distinct, declarations, List.map_map]
  rfl

theorem Distinct.settle (h : vars.Distinct) {result : Except Cause Variables}
    (hok : ∀ vars', result = .ok vars' → vars'.Distinct) : (vars.settle result).Distinct := by
  cases result with
  | ok vars' => exact hok vars' rfl
  | error cause => exact h

theorem Distinct.perform (h : vars.Distinct) (op : Operation) : (vars.perform op).Distinct := by
  cases op with
  | declare name ty scope =>
    refine h.settle fun vars' hd => ?_
    have hnew := (valid_of_declare hd).1
    rw [distinct_iff] at h ⊢
    rw [declarations_declare hd, List.map_append, List.map_singleton, List.nodup_append]
    refine ⟨h, List.pairwise_singleton _ _, ?_⟩
    rintro a ha b hb rfl
    rw [List.mem_singleton.mp hb] at ha
    exact hnew ha
  | store name value =>
    refine h.settle fun vars' hs => ?_
    rw [distinct_iff] at h ⊢
    rwa [declarations_store hs]
  | dispose depth => exact h.sublist ((longestBelow_dispose vars depth).initial.sublist.map _)
  | clear => exact List.nodup_nil

theorem distinct_performed (ops : List Operation) : (performed ops).Distinct := by
  have hrun : ∀ vars : Variables, vars.Distinct → (ops.foldl Variables.perform vars).Distinct := by
    induction ops with
    | nil => exact fun vars h => h
    | cons op ops ih => exact fun vars h => ih (vars.perform op) (h.perform op)
  exact hrun {} List.nodup_nil

/-! ### The order of searches -/

/-- Where names are distinct, a search finds what has the name. -/
theorem find?_eq_some_iff_of_nodup {l : List Variable} (h : (l.map Variable.name).Nodup) {name : String} {v : Variable} :
    l.find? (fun w => w.name == name) = some v ↔ v ∈ l ∧ v.name = name := by
  constructor
  · intro hf
    exact ⟨List.mem_of_find?_eq_some hf, by simpa using List.find?_some hf⟩
  · rintro ⟨hv, rfl⟩
    induction l with
    | nil => cases hv
    | cons w l ih =>
      rw [List.map_cons, List.nodup_cons] at h
      rcases List.mem_cons.mp hv with rfl | hv
      · simp
      · have hne : w.name ≠ v.name := fun heq => h.1 (heq ▸ List.mem_map_of_mem hv)
        rw [List.find?_cons_of_neg (by simpa using hne)]
        exact ih h.2 hv

/-- Where names are distinct, replacing a value changes whatever has the name. -/
theorem replaceValue_eq_map {l : List Variable} (h : (l.map Variable.name).Nodup) (name : String) (value : Value) :
    replaceValue name value l = l.map fun v => if v.name == name then ⟨v.name, v.scope, value⟩ else v := by
  induction l with
  | nil => rfl
  | cons v l ih =>
    rw [List.map_cons, List.nodup_cons] at h
    rw [replaceValue, List.map_cons]
    split
    · rename_i hv
      have hname : v.name = name := by simpa using hv
      have hrest : ∀ w ∈ l, (if w.name == name then ⟨w.name, w.scope, value⟩ else w) = w := by
        intro w hw
        have hne : w.name ≠ name := fun heq => h.1 (hname.trans heq.symm ▸ List.mem_map_of_mem hw)
        exact if_neg (by simpa using hne)
      rw [List.map_congr_left hrest, List.map_id']
    · rw [ih h.2]

theorem Distinct.nodup_newestFirst (h : vars.Distinct) : (vars.newestFirst.map Variable.name).Nodup := by
  rwa [Distinct, toList, List.map_reverse, List.nodup_reverse] at h

/-- The search may as well start at the oldest variable. -/
theorem Distinct.find?_toList (h : vars.Distinct) (name : String) :
    vars.toList.find? (fun v => v.name == name) = vars.find? name := by
  refine Option.ext fun v => ?_
  rw [find?_eq_some_iff_of_nodup h, find?, find?_eq_some_iff_of_nodup h.nodup_newestFirst, toList, List.mem_reverse]

/-- So may the replacement of a value. -/
theorem Distinct.toList_update (h : vars.Distinct) (name : String) (value : Value) :
    (vars.update name value).toList = replaceValue name value vars.toList := by
  rw [replaceValue_eq_map h, update, toList, replaceValue_eq_map h.nodup_newestFirst, toList, List.map_reverse]

/-- In every table that can be made, variables can be looked for from either end. -/
theorem performed_searches (ops : List Operation) (name : String) :
    (performed ops).toList.find? (fun v => v.name == name) = (performed ops).find? name ∧
    ∀ value, ((performed ops).update name value).toList = replaceValue name value (performed ops).toList :=
  ⟨(distinct_performed ops).find?_toList name, (distinct_performed ops).toList_update name⟩

/-! ### All of it -/

/-- **What disposal keeps.**  In every table that can be made, whatever the depths in it, names are distinct, and disposal
keeps the longest beginning that is empty or ends below the depth; the number that it gives is that of the variables
dropped.  Two disposals are one at the lower of the two depths.  Where depths never decrease along the table, just the
variables below the depth are kept, in their order. -/
theorem disposal_laws (ops : List Operation) (d : Nat) :
    (performed ops).Distinct ∧
    LongestBelow d (performed ops).toList ((performed ops).dispose d).toList ∧
    ((performed ops).dispose d).size + (performed ops).disposed d = (performed ops).size ∧
    (∀ e, ((performed ops).dispose d).dispose e = (performed ops).dispose (min d e)) ∧
    ((performed ops).toList.Pairwise (fun v w => v.scope ≤ w.scope) →
      ((performed ops).dispose d).toList = (performed ops).toList.filter fun v => v.scope < d) :=
  ⟨distinct_performed ops, longestBelow_dispose _ d, size_dispose_add_disposed _ d, dispose_dispose _ d,
    fun h => toList_dispose_of_ordered h d⟩

/-- Variables of rising depth, one of them dropped and one refused. -/
def risingDepths : List Operation :=
  [.declare "a" .integer 0, .declare "b" .logical 3, .dispose 2, .declare "c" .integer 1, .declare "a" .real 7,
    .store "c" (.integer 5), .declare "d" .real 4]

theorem disposal_laws_risingDepths :
    (performed risingDepths).toList.map Variable.name = ["a", "c", "d"] ∧
    (performed risingDepths).toList.Pairwise (fun v w => v.scope ≤ w.scope) ∧
    ((performed risingDepths).dispose 2).toList = (performed risingDepths).toList.filter (fun v => v.scope < 2) ∧
    ((performed risingDepths).dispose 2).size = 2 := by
  have hordered : (performed risingDepths).toList.Pairwise fun v w => v.scope ≤ w.scope := by decide
  obtain ⟨-, -, -, -, hfilter⟩ := disposal_laws risingDepths 2
  exact ⟨by decide, hordered, hfilter hordered, by decide⟩

end Variables

end LineScript
