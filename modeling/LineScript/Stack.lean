import LineScript.Fault

/-!
# LineScript.Stack — a stack of bounded size

The items stand top first, beside their number.  A stack holds at most `Stack.limit` items.
-/

namespace LineScript

/-- A stack, its top at the head of `items`. -/
structure Stack (α : Type) where
  items : List α := []
  size : Nat := 0
  size_eq : size = items.length := by rfl

namespace Stack

variable {α : Type}

/-- The largest number of items. -/
def limit : Nat := 65535

/-- The stack without items. -/
def empty : Stack α := {}

instance : Inhabited (Stack α) := ⟨empty⟩

/-- The stack has no item. -/
def isEmpty (s : Stack α) : Bool :=
  s.size == 0

/-- Puts an item on top; a full stack fails with the given detail. -/
def push (overflow : String) (a : α) (s : Stack α) : Except Cause (Stack α) :=
  if limit ≤ s.size then .error (.outOfMemory overflow)
  else .ok ⟨a :: s.items, s.size + 1, by simp [s.size_eq]⟩

/-- Takes the top item. -/
def pop (s : Stack α) : Except Cause (α × Stack α) :=
  match s with
  | ⟨[], _, _⟩ => .error .unexpectedEndOfScope
  | ⟨a :: rest, n, h⟩ => .ok (a, ⟨rest, n - 1, by simp [h]⟩)

/-- The item `depth` steps below the top. -/
def peek? (s : Stack α) (depth : Nat) : Option α :=
  s.items[depth]?

/-- The items from bottom to top, in brackets. -/
def summary (item : α → String) (s : Stack α) : String :=
  "[" ++ ", ".intercalate (s.items.reverse.map item) ++ "]"

@[simp] theorem size_empty : (empty : Stack α).size = 0 := rfl

@[simp] theorem items_empty : (empty : Stack α).items = [] := rfl

theorem ext_items {s t : Stack α} (h : s.items = t.items) : s = t := by
  cases s with
  | mk items n hn =>
    cases t with
    | mk items' n' hn' =>
      cases h
      cases hn
      cases hn'
      rfl

theorem push_eq_ok_iff {overflow : String} {a : α} {s t : Stack α} :
    s.push overflow a = .ok t ↔ s.size < limit ∧ t.items = a :: s.items := by
  unfold push
  split
  · rename_i h
    constructor
    · intro h'
      cases h'
    · rintro ⟨hlt, _⟩
      exact absurd hlt (Nat.not_lt.mpr h)
  · rename_i h
    constructor
    · intro h'
      cases h'
      exact ⟨Nat.not_le.mp h, rfl⟩
    · rintro ⟨_, ht⟩
      exact congrArg Except.ok (ext_items ht.symm)

theorem pop_eq_ok_iff {a : α} {s t : Stack α} : s.pop = .ok (a, t) ↔ s.items = a :: t.items := by
  cases s with
  | mk items n hn =>
    cases items with
    | nil => simp [pop]
    | cons b rest =>
      simp only [pop, Except.ok.injEq, Prod.mk.injEq, List.cons.injEq]
      constructor
      · rintro ⟨rfl, rfl⟩
        exact ⟨rfl, rfl⟩
      · rintro ⟨rfl, h⟩
        exact ⟨rfl, ext_items h⟩

end Stack

end LineScript
