import LineScript.Proofs.Magnitude

/-!
# LineScript.Proofs.Shortest — the shortest decimal of a double

Decimals of `n` digits make up a grid around a number.  If one of them reads back as a double then so does one of the two
next to the double itself, because rounding is monotone.  So it is enough to try the two neighbours, first with one digit
and then with more, and with 17 digits one of them always reads back.

* `Decimal.pattern_exact`: the exact decimal of a double reads back.
* `Decimal.pattern_shortest`: so does the shortest one.
* `Decimal.not_between_of_digits`: no decimal of `n` digits lies between neighbours of the grid of `n` digits.
* `Decimal.readsBack_of_digits`, `Decimal.readsBack_of_seventeen`: one of the neighbours reads back.
* `Decimal.shortest_fewest`: no decimal of fewer digits reads back.
-/

namespace LineScript.Decimal

open Binary64

/-! ### The exact decimal -/

theorem exponent_exact_le (p : Nat) : (exact p).exponent ≤ 0 := by
  unfold exact
  dsimp only
  split
  · exact Int.le_refl 0
  · dsimp only
    omega

theorem numerator_exact (p : Nat) : (exact p).numerator * one = grains p * (exact p).denominator := by
  have hone : one = 2 ^ 1074 := one_eq
  unfold exact numerator denominator grains
  dsimp only
  split
  · rename_i h
    have hpow : 2 ^ shift p = 2 ^ (shift p - 1074) * one := by
      rw [hone, ← Nat.pow_add, Nat.sub_add_cancel h]
    simp only [Nat.pow_eq, Int.toNat_zero, Int.neg_zero, Nat.pow_zero, Nat.mul_one]
    rw [hpow, Nat.mul_assoc]
  · rename_i h
    have hplaces : (-((shift p : Int) - 1074)).toNat = 1074 - shift p := by omega
    have hwhole : ((shift p : Int) - 1074).toNat = 0 := by omega
    have hten : 10 ^ (1074 - shift p) = 2 ^ (1074 - shift p) * 5 ^ (1074 - shift p) := Nat.mul_pow 2 5 _
    have hpow : one = 2 ^ shift p * 2 ^ (1074 - shift p) := by
      rw [hone, ← Nat.pow_add, Nat.add_sub_cancel' (by omega)]
    simp only [Nat.pow_eq, hplaces, hwhole, Nat.pow_zero, Nat.mul_one]
    rw [hpow, hten]
    ring

/-- The exact decimal of a double reads back. -/
theorem pattern_exact (p : Nat) : (exact p).pattern = p := by
  have hexponent := exponent_exact_le p
  rw [pattern_eq_nearest (.inr (by omega))]
  exact nearest_of_grains (exact p).denominator_pos (numerator_exact p)

/-! ### Neighbours -/

theorem neighbour?_eq_some {p lost : Nat} {d e : Decimal} (h : neighbour? p d lost = some e) :
    e.pattern = p ∧ (e = d.cut lost ∨ e = (d.cut lost).next) := by
  unfold neighbour? at h
  dsimp only at h
  split at h
  · rename_i hbelow
    split at h
    · rename_i habove
      cases h
      rw [Bool.and_eq_true, decide_eq_true_eq] at habove
      exact ⟨habove.1, .inr rfl⟩
    · cases h
      exact ⟨hbelow, .inl rfl⟩
  · split at h
    · rename_i habove
      cases h
      exact ⟨habove, .inr rfl⟩
    · cases h

theorem isSome_neighbour? {p lost : Nat} {d : Decimal}
    (h : (d.cut lost).pattern = p ∨ (d.cut lost).next.pattern = p) : (neighbour? p d lost).isSome = true := by
  unfold neighbour?
  dsimp only
  split
  · split <;> rfl
  · rename_i hbelow
    rw [if_pos (h.resolve_left hbelow)]
    rfl

/-- **The shortest decimal of a double reads back.** -/
theorem pattern_shortest (p : Nat) : (shortest p).pattern = p := by
  unfold shortest
  dsimp only
  cases h : (List.range' 1 17).findSome? fun n => neighbour? p (exact p) ((exact p).digits.length - n) with
  | none => exact pattern_exact p
  | some e =>
    obtain ⟨n, -, hn⟩ := List.exists_of_findSome?_eq_some h
    exact (neighbour?_eq_some hn).1

/-! ### Grids

The decimals of `n` digits around a number are the whole multiples of one power of ten. -/

variable {d d' e g : Decimal} {p n : Nat}

/-- Zeros at the end of the coefficient can be counted in the exponent. -/
theorem magnitude_shift (c l : Nat) (x : Int) :
    (⟨c * 10 ^ l, x⟩ : Decimal).magnitude = (⟨c, x + l⟩ : Decimal).magnitude := by
  have hten : (10 : ℚ) ≠ 0 := by norm_num
  simp only [magnitude]
  push_cast
  rw [zpow_add₀ hten, zpow_natCast, mul_assoc, mul_comm (10 ^ x : ℚ)]

theorem magnitude_lt_iff_coefficient {a b : Nat} {x : Int} :
    (⟨a, x⟩ : Decimal).magnitude < (⟨b, x⟩ : Decimal).magnitude ↔ a < b := by
  have hpos : (0 : ℚ) < 10 ^ x := zpow_pos (by norm_num) x
  simp only [magnitude]
  rw [mul_lt_mul_iff_left₀ hpos, Nat.cast_lt]

/-- No decimal of `n` digits lies strictly between two neighbours that have `n` digits or more. -/
theorem not_between_of_digits (hd : d.coefficient < 10 ^ n) (hg : 10 ^ n ≤ 10 * g.coefficient) :
    ¬ (g.magnitude < d.magnitude ∧ d.magnitude < g.next.magnitude) := by
  obtain ⟨c, x⟩ := d
  obtain ⟨b, y⟩ := g
  rintro ⟨hlow, hhigh⟩
  rw [next] at hhigh
  dsimp only at hd hg hhigh
  by_cases hxy : y ≤ x
  · -- `d` is on the grid
    have hx : x = y + (x - y).toNat := by omega
    rw [hx, ← magnitude_shift, magnitude_lt_iff_coefficient] at hlow hhigh
    omega
  · -- `d` is on a finer grid, but has too few digits to reach this far
    have hy : y = x + ((y - x).toNat - 1 + 1 : Nat) := by omega
    rw [hy, ← magnitude_shift, magnitude_lt_iff_coefficient] at hlow
    have hpow : b * 10 ≤ b * 10 ^ ((y - x).toNat - 1 + 1) :=
      Nat.mul_le_mul_left b (Nat.le_self_pow (Nat.succ_ne_zero _) 10)
    omega

theorem cut_zero (d : Decimal) : d.cut 0 = d := by
  simp [cut]

/-- A number is at its lower neighbour or behind it. -/
theorem magnitude_cut_le (d : Decimal) (lost : Nat) : (d.cut lost).magnitude ≤ d.magnitude := by
  rw [cut, ← magnitude_shift, ← not_lt]
  rw [show d = ⟨d.coefficient, d.exponent⟩ from rfl, magnitude_lt_iff_coefficient, not_lt]
  exact Nat.div_mul_le_self d.coefficient (10 ^ lost)

/-- A number is before its upper neighbour. -/
theorem magnitude_lt_next_cut (d : Decimal) (lost : Nat) : d.magnitude < (d.cut lost).next.magnitude := by
  rw [cut, next, ← magnitude_shift]
  rw [show d = ⟨d.coefficient, d.exponent⟩ from rfl, magnitude_lt_iff_coefficient]
  exact Nat.lt_mul_of_div_lt (Nat.lt_succ_self _) (Nat.pow_pos (by decide))

/-- What lies between two decimals that read back reads back. -/
theorem pattern_of_between (hp : p < infinity) (hd : d.pattern = p) (hd' : d'.pattern = p)
    (hlow : d.magnitude ≤ e.magnitude) (hhigh : e.magnitude ≤ d'.magnitude) : e.pattern = p := by
  have hle : e.pattern ≤ p := by
    rw [← hd']
    exact pattern_mono hhigh (by rwa [hd'])
  have hge : p ≤ e.pattern := by
    rw [← hd]
    exact pattern_mono hlow (by omega)
  exact Nat.le_antisymm hle hge

/-! ### Numbers of digits -/

theorem coefficient_lt (d : Decimal) : d.coefficient < 10 ^ d.digits.length := by
  have hpos : 0 < d.digits.length := List.length_pos_of_ne_nil Nat.toDigits_ne_nil
  exact (Nat.length_toDigits_le_iff (by decide) hpos).mp (Nat.le_refl _)

theorem le_coefficient (h : n < d.digits.length) (hn : 0 < n) : 10 ^ n ≤ d.coefficient := by
  have hlong : ¬ d.digits.length ≤ n := Nat.not_le_of_lt h
  rwa [digits, Nat.length_toDigits_le_iff (by decide) hn, Nat.not_lt] at hlong

/-- After the cut there are `n` digits. -/
theorem le_coefficient_cut (h : n < d.digits.length) (hn : 0 < n) :
    10 ^ n ≤ 10 * (d.cut (d.digits.length - n)).coefficient := by
  have hten : 10 ^ n = 10 * 10 ^ (n - 1) := (mul_pow_sub_one (by omega) 10).symm
  rw [hten]
  refine Nat.mul_le_mul_left 10 ?_
  rw [cut, Nat.pow_eq, Nat.le_div_iff_mul_le (Nat.pow_pos (by decide)), ← Nat.pow_add]
  have hwidth : n - 1 + (d.digits.length - n) = d.digits.length - 1 := by omega
  rw [hwidth]
  exact le_coefficient (by omega) (by omega)

theorem coefficient_cut_lt (d : Decimal) (n : Nat) : (d.cut (d.digits.length - n)).coefficient < 10 ^ n := by
  rw [cut, Nat.pow_eq, Nat.div_lt_iff_lt_mul (Nat.pow_pos (by decide)), ← Nat.pow_add]
  exact Nat.lt_of_lt_of_le d.coefficient_lt (Nat.pow_le_pow_right (by decide) (by omega))

/-! ### Which neighbours read back -/

/-- One of the two decimals of `n` digits next to the double with pattern `p` reads back. -/
def ReadsBack (p n : Nat) : Prop :=
  ((exact p).cut ((exact p).digits.length - n)).pattern = p ∨
    ((exact p).cut ((exact p).digits.length - n)).next.pattern = p

theorem readsBack_of_length_le (h : (exact p).digits.length ≤ n) : ReadsBack p n := by
  left
  rw [Nat.sub_eq_zero_of_le h, cut_zero]
  exact pattern_exact p

/-- If a decimal of `n` digits reads back as a double, then so does a neighbour of the double with `n` digits. -/
theorem readsBack_of_digits (hp : p < infinity) (hd : d.pattern = p) (hc : d.coefficient < 10 ^ n) (hn : 0 < n) :
    ReadsBack p n := by
  by_cases hwidth : n < (exact p).digits.length
  · have hcut := magnitude_cut_le (exact p) ((exact p).digits.length - n)
    have hnext := magnitude_lt_next_cut (exact p) ((exact p).digits.length - n)
    have hbetween := not_between_of_digits hc (le_coefficient_cut hwidth hn)
    rw [not_and_or, not_lt, not_lt] at hbetween
    rcases hbetween with hlow | hhigh
    · exact .inl (pattern_of_between hp hd (pattern_exact p) hlow hcut)
    · exact .inr (pattern_of_between hp (pattern_exact p) hd hnext.le hhigh)
  · exact readsBack_of_length_le (Nat.not_lt.mp hwidth)

/-- A decimal that differs from a double by at most half of one part in `10 ^ 16` reads back as that double. -/
theorem pattern_of_close {c lost : Nat} (hp : p < infinity)
    (hup : 10 ^ 16 * (c * 10 ^ lost) ≤ 10 ^ 16 * (exact p).coefficient + (exact p).coefficient / 2)
    (hlow : 10 ^ 16 * (exact p).coefficient ≤ 10 ^ 16 * (c * 10 ^ lost) + (exact p).coefficient / 2) :
    (⟨c, (exact p).exponent + lost⟩ : Decimal).pattern = p := by
  have hexponent := exponent_exact_le p
  have hwhole : (exact p).exponent.toNat = 0 := by omega
  have hexact := numerator_exact p
  rw [numerator, hwhole, Nat.pow_zero, Nat.mul_one] at hexact
  have hnear : (⟨c * 10 ^ lost, (exact p).exponent⟩ : Decimal).pattern = p := by
    rw [pattern_eq_nearest (.inr (by dsimp only; omega))]
    have hnumerator : (⟨c * 10 ^ lost, (exact p).exponent⟩ : Decimal).numerator = c * 10 ^ lost := by
      rw [numerator, hwhole, Nat.pow_zero, Nat.mul_one]
    rw [hnumerator]
    exact nearest_of_close (k := 10 ^ 16) (exact p).denominator_pos hexact (by decide) (by omega) (by omega)
  rw [pattern_congr (magnitude_shift c lost _) (by rwa [hnear]), hnear]

/-- The nearer one of the two neighbours with 17 digits reads back. -/
theorem readsBack_of_seventeen (hp : p < infinity) : ReadsBack p 17 := by
  by_cases hwidth : 17 < (exact p).digits.length
  · have hdigits := le_coefficient_cut hwidth (by decide)
    unfold ReadsBack
    generalize (exact p).digits.length - 17 = lost at hdigits ⊢
    rw [cut, Nat.pow_eq] at hdigits ⊢
    rw [next]
    dsimp only at hdigits ⊢
    have hsplit := Nat.div_add_mod' (exact p).coefficient (10 ^ lost)
    have hrest : (exact p).coefficient % 10 ^ lost < 10 ^ lost := Nat.mod_lt _ (Nat.pow_pos (by decide))
    have hunit : 10 ^ 16 * 10 ^ lost ≤ (exact p).coefficient / 10 ^ lost * 10 ^ lost :=
      Nat.mul_le_mul_right _ (by omega)
    by_cases hhalf : 2 * ((exact p).coefficient % 10 ^ lost) ≤ 10 ^ lost
    · exact .inl (pattern_of_close hp (by omega) (by omega))
    · right
      refine pattern_of_close hp ?_ ?_
      · rw [Nat.add_mul, Nat.one_mul]
        omega
      · rw [Nat.add_mul, Nat.one_mul]
        omega
  · exact readsBack_of_length_le (Nat.not_lt.mp hwidth)

/-! ### The fewest digits -/

/-- The search ends with a neighbour of at most `n` digits if there is one that reads back. -/
theorem exists_neighbour_eq_shortest (hn : 0 < n) (h17 : n ≤ 17) (h : ReadsBack p n) :
    ∃ k, 0 < k ∧ k ≤ n ∧ neighbour? p (exact p) ((exact p).digits.length - k) = some (shortest p) := by
  have hrange : List.range' 1 17 = List.range' 1 n ++ List.range' (1 + n) (17 - n) := by
    rw [List.range'_append_1, Nat.add_sub_cancel' h17]
  have hfound : ((List.range' 1 n).findSome?
      fun k => neighbour? p (exact p) ((exact p).digits.length - k)).isSome = true := by
    rw [List.findSome?_isSome_iff]
    exact ⟨n, List.mem_range'_1.mpr (by omega), isSome_neighbour? h⟩
  obtain ⟨e, he⟩ := Option.isSome_iff_exists.mp hfound
  have hshortest : shortest p = e := by
    unfold shortest
    dsimp only
    rw [hrange, List.findSome?_append, he, Option.some_or, Option.getD_some]
  obtain ⟨k, hk, hneighbour⟩ := List.exists_of_findSome?_eq_some he
  rw [List.mem_range'_1] at hk
  exact ⟨k, by omega, by omega, by rw [hshortest, hneighbour]⟩

/-- A neighbour of `k` digits can be written with `k` digits; if it is a power of ten then with one. -/
theorem exists_of_neighbour {k : Nat} (hk : 0 < k) (h : neighbour? p d (d.digits.length - k) = some e) :
    ∃ f : Decimal, f.magnitude = e.magnitude ∧ f.coefficient < 10 ^ k := by
  have hcut := coefficient_cut_lt d k
  rcases (neighbour?_eq_some h).2 with rfl | rfl
  · exact ⟨_, rfl, hcut⟩
  · by_cases hfits : (d.cut (d.digits.length - k)).coefficient + 1 < 10 ^ k
    · exact ⟨_, rfl, hfits⟩
    · have hpower : (d.cut (d.digits.length - k)).coefficient + 1 = 1 * 10 ^ k := by omega
      refine ⟨⟨1, (d.cut (d.digits.length - k)).exponent + k⟩, ?_, Nat.one_lt_pow (by omega) (by decide)⟩
      rw [← magnitude_shift, ← hpower]
      rfl

theorem shortest_zero : (shortest 0).coefficient = 0 := by
  decide +kernel

/-- **No decimal of fewer digits reads back**: the shortest decimal of a finite double can be written with as few digits
as any decimal that reads back as this double. -/
theorem shortest_fewest (hp : p < infinity) (hd : d.pattern = p) (hc : d.coefficient < 10 ^ n) :
    ∃ e : Decimal, e.magnitude = (shortest p).magnitude ∧ e.coefficient < 10 ^ n := by
  by_cases hn : n = 0
  · -- only zero has no digits
    have hzero : d.coefficient = 0 := by
      rw [hn, Nat.pow_zero] at hc
      omega
    rw [pattern, if_pos hzero] at hd
    refine ⟨shortest p, rfl, ?_⟩
    rw [← hd, shortest_zero]
    exact Nat.pow_pos (by decide)
  · have hneighbour : ∃ k, 0 < k ∧ k ≤ n ∧
        neighbour? p (exact p) ((exact p).digits.length - k) = some (shortest p) := by
      by_cases h17 : n ≤ 17
      · exact exists_neighbour_eq_shortest (by omega) h17 (readsBack_of_digits hp hd hc (by omega))
      · obtain ⟨k, hk, hle, h⟩ := exists_neighbour_eq_shortest (by decide) (Nat.le_refl 17) (readsBack_of_seventeen hp)
        exact ⟨k, hk, by omega, h⟩
    obtain ⟨k, hk, hle, h⟩ := hneighbour
    obtain ⟨e, he, hdigits⟩ := exists_of_neighbour hk h
    exact ⟨e, he, Nat.lt_of_lt_of_le hdigits (Nat.pow_le_pow_right (by decide) hle)⟩

end LineScript.Decimal
