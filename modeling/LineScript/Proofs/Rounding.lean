import LineScript.Binary64
import Mathlib.Tactic.Ring

/-!
# LineScript.Proofs.Rounding — the magnitude nearest to a quotient

A quotient is nearest to a magnitude or a smaller one just when it lies before the middle between that magnitude and the
next, or in the middle if the half goes down there.  All else about rounding follows from this: it is monotone, and it
takes quotients close to a magnitude to that magnitude.

* `RoundsDown`: the condition on a quotient.  `roundHalfEven_le_iff`: rounding to whole numbers.
* `Binary64.nearest_le_iff`: rounding to magnitudes.
* `Binary64.nearest_mono`: rounding is monotone.
* `Binary64.nearest_of_close`, `Binary64.nearest_of_grains`: quotients close to a magnitude, and magnitudes themselves.
-/

namespace LineScript

/-! ### Whole numbers -/

theorem le_roundHalfEven (n d : Nat) : n / d ≤ roundHalfEven n d := by
  unfold roundHalfEven
  dsimp only
  split
  · exact Nat.le_refl _
  · split <;> omega

theorem roundHalfEven_le (n d : Nat) : roundHalfEven n d ≤ n / d + 1 := by
  unfold roundHalfEven
  dsimp only
  split
  · exact Nat.le_succ _
  · split <;> omega

/-- The quotient `n / d` lies before the middle between `m` and the next whole number, or in the middle if `m` is
even. -/
def RoundsDown (n d m : Nat) : Prop :=
  2 * n < (2 * m + 1) * d ∨ 2 * n = (2 * m + 1) * d ∧ m % 2 = 0

/-- A number is passed from the middle between it and the next one on. -/
theorem roundHalfEven_le_iff {n d m : Nat} (hd : 0 < d) : roundHalfEven n d ≤ m ↔ RoundsDown n d m := by
  have hsplit : d * (n / d) + n % d = n := Nat.div_add_mod n d
  have hrest : n % d < d := Nat.mod_lt n hd
  have hdouble : (2 * m + 1) * d = 2 * (d * m) + d := by ring
  unfold RoundsDown
  rw [hdouble]
  rcases Nat.lt_trichotomy (n / d) m with hlt | heq | hgt
  · have hle : d * (n / d + 1) ≤ d * m := Nat.mul_le_mul_left d hlt
    rw [Nat.mul_add, Nat.mul_one] at hle
    have := roundHalfEven_le n d
    exact iff_of_true (by omega) (by omega)
  · rw [heq] at hsplit
    unfold roundHalfEven
    dsimp only
    rw [heq]
    by_cases hbefore : 2 * (n % d) < d
    · rw [if_pos hbefore]
      exact iff_of_true (Nat.le_refl m) (by omega)
    · rw [if_neg hbefore]
      by_cases hbehind : d < 2 * (n % d)
      · rw [if_pos hbehind]
        exact iff_of_false (by omega) (by omega)
      · rw [if_neg hbehind]
        omega
  · have hle : d * (m + 1) ≤ d * (n / d) := Nat.mul_le_mul_left d hgt
    rw [Nat.mul_add, Nat.mul_one] at hle
    have := le_roundHalfEven n d
    exact iff_of_false (by omega) (by omega)

/-- A smaller quotient rounds down too. -/
theorem RoundsDown.mono {n d n' d' m : Nat} (h : RoundsDown n d m) (hd : 0 < d) (hd' : 0 < d')
    (hle : n' * d ≤ n * d') : RoundsDown n' d' m := by
  have hscaled : 2 * n' * d ≤ 2 * n * d' := by
    rw [Nat.mul_assoc, Nat.mul_assoc]
    exact Nat.mul_le_mul_left 2 hle
  have hswap : (2 * m + 1) * d * d' = (2 * m + 1) * d' * d := Nat.mul_right_comm _ _ _
  rcases h with hlt | ⟨heq, heven⟩
  · left
    have hstrict : 2 * n * d' < (2 * m + 1) * d * d' := Nat.mul_lt_mul_of_pos_right hlt hd'
    rw [hswap] at hstrict
    exact Nat.lt_of_mul_lt_mul_right (Nat.lt_of_le_of_lt hscaled hstrict)
  · rw [heq, hswap] at hscaled
    rcases Nat.lt_or_eq_of_le (Nat.le_of_mul_le_mul_right hscaled hd) with hlt | heq
    · exact .inl hlt
    · exact .inr ⟨heq, heven⟩

namespace Binary64

/-! ### Patterns -/

theorem binade_eq : binade = 2 ^ 52 := rfl

theorem shift_mul_add (p : Nat) : shift p * binade + significand p = p := by
  simp only [significand, shift, binade_eq]
  omega

theorem significand_lt (p : Nat) : significand p < 2 ^ 53 := by
  simp only [significand, shift, binade_eq]
  omega

theorem le_significand {p : Nat} (h : 0 < shift p) : 2 ^ 52 ≤ significand p := by
  simp only [significand, shift, binade_eq] at h ⊢
  omega

/-- Neighbouring magnitudes differ by one unit of the significand, also across binades. -/
theorem grains_succ (p : Nat) : grains (p + 1) = (significand p + 1) * 2 ^ shift p := by
  rw [grains, Nat.pow_eq]
  by_cases hnext : shift (p + 1) = shift p
  · have hsig : significand (p + 1) = significand p + 1 := by
      simp only [significand, shift, binade_eq] at hnext ⊢
      omega
    rw [hnext, hsig]
  · have hshift : shift (p + 1) = shift p + 1 := by
      simp only [shift, binade_eq] at hnext ⊢
      omega
    have hsig : significand (p + 1) = 2 ^ 52 ∧ significand p + 1 = 2 ^ 53 := by
      simp only [significand, shift, binade_eq] at hnext ⊢
      omega
    rw [hshift, hsig.1, hsig.2]
    ring

/-! ### Quotients -/

section Shift

variable {n den s t : Nat}

/-- A shift that leaves the quotient below `2 ^ 53` leaves the rounded quotient at most there. -/
theorem roundHalfEven_shift_le (h : n / den < 2 ^ (s + 53)) : roundHalfEven n (den * 2 ^ s) ≤ 2 ^ 53 := by
  have hquot : n / (den * 2 ^ s) < 2 ^ 53 := by
    rw [← Nat.div_div_eq_div_mul, Nat.div_lt_iff_lt_mul (Nat.two_pow_pos s), ← Nat.pow_add, Nat.add_comm]
    exact h
  exact Nat.le_trans (roundHalfEven_le n _) hquot

theorem le_roundHalfEven_shift (h : 2 ^ (s + 52) ≤ n / den) : 2 ^ 52 ≤ roundHalfEven n (den * 2 ^ s) := by
  have hquot : 2 ^ 52 ≤ n / (den * 2 ^ s) := by
    rw [← Nat.div_div_eq_div_mul, Nat.le_div_iff_mul_le (Nat.two_pow_pos s), ← Nat.pow_add, Nat.add_comm]
    exact h
  exact Nat.le_trans hquot (le_roundHalfEven n _)

theorem lt_of_quotient_lt (hden : 0 < den) (hst : s < t) (h : n / den < 2 ^ (s + 53)) : n < 2 ^ 52 * (den * 2 ^ t) := by
  have hpow : 2 ^ (s + 53) ≤ 2 ^ t * 2 ^ 52 := by
    rw [← Nat.pow_add]
    exact Nat.pow_le_pow_right (by decide) (by omega)
  calc n < 2 ^ (s + 53) * den := (Nat.div_lt_iff_lt_mul hden).mp h
    _ ≤ 2 ^ t * 2 ^ 52 * den := Nat.mul_le_mul_right den hpow
    _ = 2 ^ 52 * (den * 2 ^ t) := by ring

theorem le_of_le_quotient (hden : 0 < den) (hst : t < s) (h : 2 ^ (s + 52) ≤ n / den) :
    2 ^ 53 * (den * 2 ^ t) ≤ n := by
  have hpow : 2 ^ t * 2 ^ 53 ≤ 2 ^ (s + 52) := by
    rw [← Nat.pow_add]
    exact Nat.pow_le_pow_right (by decide) (by omega)
  calc 2 ^ 53 * (den * 2 ^ t) = 2 ^ t * 2 ^ 53 * den := by ring
    _ ≤ 2 ^ (s + 52) * den := Nat.mul_le_mul_right den hpow
    _ ≤ n := (Nat.le_div_iff_mul_le hden).mp h

end Shift

variable {num den num' den' p : Nat}

/-- **A quotient is nearest to a magnitude or a smaller one just when it rounds down there.** -/
theorem nearest_le_iff (hden : 0 < den) :
    nearest num den ≤ p ↔ RoundsDown (num * one) (den * 2 ^ shift p) (significand p) := by
  have hp := shift_mul_add p
  have hsig := significand_lt p
  have hnearest : nearest num den = ((num * one / den).log2 - 52) * binade +
      roundHalfEven (num * one) (den * 2 ^ ((num * one / den).log2 - 52)) := rfl
  generalize hs : (num * one / den).log2 - 52 = s at hnearest
  generalize num * one = n at hs hnearest ⊢
  rw [hnearest, binade_eq]
  rw [binade_eq] at hp
  rcases Nat.lt_trichotomy s (shift p) with hlow | heq | hhigh
  · -- the quotient is in a lower binade
    have hquot : n / den < 2 ^ (s + 53) :=
      Nat.lt_of_lt_of_le Nat.lt_log2_self (Nat.pow_le_pow_right (by decide) (by omega))
    have hround := roundHalfEven_shift_le hquot
    have hn := lt_of_quotient_lt hden hlow hquot
    have hsig' := le_significand (show 0 < shift p by omega)
    have hle : 2 ^ 52 * (den * 2 ^ shift p) ≤ significand p * (den * 2 ^ shift p) := Nat.mul_le_mul_right _ hsig'
    refine iff_of_true (by omega) (.inl ?_)
    rw [Nat.add_mul, Nat.mul_assoc]
    omega
  · rw [← heq] at hp ⊢
    rw [← roundHalfEven_le_iff (Nat.mul_pos hden (Nat.two_pow_pos s))]
    omega
  · -- the quotient is in a higher binade; a shift is only made for a quotient of more than 52 digits
    have hne : n / den ≠ 0 := by
      intro hzero
      rw [hzero, Nat.log2_zero] at hs
      omega
    have hquot : 2 ^ (s + 52) ≤ n / den := by
      have hlog : s + 52 = (n / den).log2 := by omega
      rw [hlog]
      exact Nat.log2_self_le hne
    have hround := le_roundHalfEven_shift hquot
    have hn := le_of_le_quotient hden hhigh hquot
    have hunit : 0 < den * 2 ^ shift p := Nat.mul_pos hden (Nat.two_pow_pos _)
    have hle : (2 * significand p + 1) * (den * 2 ^ shift p) ≤ (2 * 2 ^ 53 - 1) * (den * 2 ^ shift p) :=
      Nat.mul_le_mul_right _ (by omega)
    refine iff_of_false (by omega) ?_
    rintro (hlt | ⟨heq, -⟩)
    · omega
    · omega

/-- Rounding is monotone. -/
theorem nearest_mono (hden : 0 < den) (hden' : 0 < den') (h : num * den' ≤ num' * den) :
    nearest num den ≤ nearest num' den' := by
  have hself := (nearest_le_iff hden').mp (Nat.le_refl (nearest num' den'))
  rw [nearest_le_iff hden]
  refine hself.mono (Nat.mul_pos hden' (Nat.two_pow_pos _)) (Nat.mul_pos hden (Nat.two_pow_pos _)) ?_
  calc num * one * (den' * 2 ^ shift (nearest num' den'))
      = num * den' * (one * 2 ^ shift (nearest num' den')) := by ring
    _ ≤ num' * den * (one * 2 ^ shift (nearest num' den')) := Nat.mul_le_mul_right _ h
    _ = num' * one * (den * 2 ^ shift (nearest num' den')) := by ring

/-- A quotient that differs from a magnitude by less than one part in `2 ^ 54` is nearest to it: the middles to both
neighbours are further away, also where the lower neighbour is in another binade. -/
theorem nearest_of_close {v k : Nat} (hden : 0 < den) (hv : v * one = grains p * den) (hk : 2 ^ 53 < k)
    (hup : 2 * k * num ≤ 2 * k * v + v) (hlow : 2 * k * v ≤ 2 * k * num + v) : nearest num den = p := by
  have hup' := Nat.mul_le_mul_right one hup
  have hlow' := Nat.mul_le_mul_right one hlow
  rw [Nat.add_mul, Nat.mul_assoc _ num, Nat.mul_assoc _ v, hv] at hup' hlow'
  refine Nat.le_antisymm ?_ ?_
  · rw [nearest_le_iff hden]
    left
    have hunit : 0 < den * 2 ^ shift p := Nat.mul_pos hden (Nat.two_pow_pos _)
    have hgrains : grains p * den = significand p * (den * 2 ^ shift p) := by
      rw [grains, Nat.pow_eq]
      ring
    have hsig : significand p * (den * 2 ^ shift p) < k * (den * 2 ^ shift p) :=
      Nat.mul_lt_mul_of_pos_right (Nat.lt_trans (significand_lt p) hk) hunit
    rw [hgrains] at hup'
    refine Nat.lt_of_mul_lt_mul_left (a := k) ?_
    calc k * (2 * (num * one)) = 2 * k * (num * one) := by ring
      _ ≤ 2 * k * (significand p * (den * 2 ^ shift p)) + significand p * (den * 2 ^ shift p) := hup'
      _ < 2 * k * (significand p * (den * 2 ^ shift p)) + k * (den * 2 ^ shift p) := Nat.add_lt_add_left hsig _
      _ = k * ((2 * significand p + 1) * (den * 2 ^ shift p)) := by ring
  · cases p with
    | zero => exact Nat.zero_le _
    | succ p =>
      -- otherwise it would round down to the magnitude before
      by_contra hlt
      have hdown := (nearest_le_iff hden).mp (show nearest num den ≤ p by omega)
      have hunit : 0 < den * 2 ^ shift p := Nat.mul_pos hden (Nat.two_pow_pos _)
      have hgrains : grains (p + 1) * den = (significand p + 1) * (den * 2 ^ shift p) := by
        rw [grains_succ]
        ring
      have hhalf : 2 * (num * one) ≤ (2 * significand p + 1) * (den * 2 ^ shift p) := by
        rcases hdown with hdown | ⟨hdown, -⟩
        · exact hdown.le
        · exact hdown.le
      have hsig : (significand p + 1) * (den * 2 ^ shift p) < k * (den * 2 ^ shift p) :=
        Nat.mul_lt_mul_of_pos_right (Nat.lt_of_le_of_lt (significand_lt p) hk) hunit
      rw [hgrains] at hlow'
      have hsum : 2 * k * ((significand p + 1) * (den * 2 ^ shift p)) =
          k * ((2 * significand p + 1) * (den * 2 ^ shift p)) + k * (den * 2 ^ shift p) := by ring
      have hscaled : 2 * k * (num * one) ≤ k * ((2 * significand p + 1) * (den * 2 ^ shift p)) :=
        calc 2 * k * (num * one) = k * (2 * (num * one)) := by ring
          _ ≤ k * ((2 * significand p + 1) * (den * 2 ^ shift p)) := Nat.mul_le_mul_left k hhalf
      omega

/-- A magnitude is nearest to itself. -/
theorem nearest_of_grains (hden : 0 < den) (h : num * one = grains p * den) : nearest num den = p :=
  nearest_of_close hden h (Nat.lt_succ_self _) (Nat.le_add_right _ _) (Nat.le_add_right _ _)

end Binary64

end LineScript
