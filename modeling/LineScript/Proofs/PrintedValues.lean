import LineScript.Proofs.Numerals
import LineScript.Proofs.Shortest
import Mathlib

/-!
# LineScript.Proofs.PrintedValues — printed values are literals

* `Decimal.exists_numeral_plain`: positional notation is a numeral without exponent, and it stands for the same number.
* `Binary64.ofPattern_pattern`: a double is its sign and its magnitude.
* `Literal.real?_realText`: a finite double is read back from its text, with its sign.
* `Literal.integer?_repr`: so is a whole number.
* `Literal.printed_values_read_back`: all values together, and what the infinities and what is no number are printed as.

That a double is made again from its bits, `Float.ofBits_toBits`, comes with the whole library and no part of it; hence
the import.
-/

namespace LineScript

/-! ### Digits -/

namespace Decimal

theorem positional_toDigits (n : Nat) : positional (Nat.toDigits 10 n) = n :=
  Nat.ofDigitChars_ten_toDigits

theorem isDigit_of_mem_toDigits {n : Nat} {c : Char} (h : c ∈ Nat.toDigits 10 n) : c.isDigit = true :=
  Nat.isDigit_of_mem_toDigits (by decide) (by decide) h

theorem areDigits_toDigits (n : Nat) : Literal.areDigits (Nat.toDigits 10 n) = true :=
  Literal.areDigits_iff.mpr ⟨Nat.toDigits_ne_nil, fun _ => isDigit_of_mem_toDigits⟩

theorem positional_zeros (k : Nat) : positional (List.replicate k '0') = 0 := by
  induction k with
  | zero => rfl
  | succ k ih =>
    rw [List.replicate_succ', Literal.positional_concat, ih]
    rfl

/-- The digits of a fraction with zeros in front, up to a given number of places. -/
theorem length_padded {n places : Nat} (hn : n < 10 ^ places) (hplaces : 0 < places) :
    (List.replicate (places - (Nat.toDigits 10 n).length) '0' ++ Nat.toDigits 10 n).length = places := by
  have hwidth := (Nat.length_toDigits_le_iff (by decide) hplaces).mpr hn
  rw [List.length_append, List.length_replicate]
  omega

/-- Only zeros are dropped from the digits after the point. -/
theorem exists_fractionDigits (n places : Nat) : ∃ k,
    List.replicate (places - (Nat.toDigits 10 n).length) '0' ++ Nat.toDigits 10 n =
      fractionDigits n places ++ List.replicate k '0' := by
  unfold fractionDigits
  dsimp only
  generalize List.replicate (places - (Nat.toDigits 10 n).length) '0' ++ Nat.toDigits 10 n = ds
  have hzeros : ds.reverse.takeWhile (· == '0') = List.replicate (ds.reverse.takeWhile (· == '0')).length '0' := by
    refine List.eq_replicate_of_mem fun c hc => ?_
    have hzero := List.mem_takeWhile_imp hc
    exact eq_of_beq hzero
  refine ⟨(ds.reverse.takeWhile (· == '0')).length, ?_⟩
  rw [← List.reverse_inj, List.reverse_append, List.reverse_replicate, List.reverse_reverse, ← hzeros,
    List.takeWhile_append_dropWhile]

theorem isDigit_of_mem_fractionDigits {n places : Nat} {c : Char} (h : c ∈ fractionDigits n places) :
    c.isDigit = true := by
  obtain ⟨k, hk⟩ := exists_fractionDigits n places
  have hmem : c ∈ List.replicate (places - (Nat.toDigits 10 n).length) '0' ++ Nat.toDigits 10 n := by
    rw [hk]
    exact List.mem_append_left _ h
  rcases List.mem_append.mp hmem with hzero | hdigit
  · rw [List.eq_of_mem_replicate hzero]
    rfl
  · exact isDigit_of_mem_toDigits hdigit

/-- The digits after the point stand for the fraction, with the zeros that are dropped. -/
theorem positional_fractionDigits {n places : Nat} (hn : n < 10 ^ places) (hplaces : 0 < places) : ∃ k,
    (fractionDigits n places).length + k = places ∧ positional (fractionDigits n places) * 10 ^ k = n := by
  obtain ⟨k, hk⟩ := exists_fractionDigits n places
  refine ⟨k, ?_, ?_⟩
  · have hlength := length_padded hn hplaces
    rwa [hk, List.length_append, List.length_replicate] at hlength
  · have hvalue := congrArg positional hk
    rw [positional_append, positional_append, positional_zeros, positional_zeros, positional_toDigits,
      List.length_replicate, Nat.zero_mul, Nat.zero_add, Nat.add_zero] at hvalue
    exact hvalue.symm

/-! ### Positional notation -/

theorem plain_of_whole {d : Decimal} (h : 0 ≤ d.exponent) :
    d.plain = Nat.toDigits 10 (d.coefficient * 10 ^ d.exponent.toNat) :=
  if_pos h

/-- A point is written if digits follow it. -/
theorem plain_of_fraction {d : Decimal} {places : Nat} (h : ¬ 0 ≤ d.exponent) (hplaces : (-d.exponent).toNat = places) :
    ∃ fraction, d.plain = Nat.toDigits 10 (d.coefficient / 10 ^ places) ++ Numeral.fractionText fraction ∧
      fraction.getD [] = fractionDigits (d.coefficient % 10 ^ places) places := by
  rw [plain, if_neg h, hplaces]
  dsimp only [Nat.pow_eq]
  split
  · rename_i hempty
    exact ⟨none, (List.append_nil _).symm, hempty.symm⟩
  · exact ⟨some _, rfl, rfl⟩

/-- Whole part and fraction make up the number, at the last place of the fraction. -/
theorem magnitude_digits {c places k : Nat} {fraction : List Char} (hlength : fraction.length + k = places)
    (hfraction : positional fraction * 10 ^ k = c % 10 ^ places) :
    (⟨positional (Nat.toDigits 10 (c / 10 ^ places) ++ fraction), -fraction.length⟩ : Decimal).magnitude =
      (⟨c, -places⟩ : Decimal).magnitude := by
  have hvalue : positional (Nat.toDigits 10 (c / 10 ^ places) ++ fraction) * 10 ^ k = c := by
    rw [positional_append, positional_toDigits, Nat.pow_eq, Nat.add_mul, hfraction, Nat.mul_assoc, ← Nat.pow_add,
      hlength, Nat.div_add_mod']
  have hexponent : (-fraction.length : Int) = -places + k := by omega
  rw [hexponent, ← magnitude_shift, hvalue]

/-- **Positional notation is a numeral without exponent**, and it stands for the same number. -/
theorem exists_numeral_plain (d : Decimal) :
    ∃ n : Numeral, n.text = d.plain ∧ n.exponent = none ∧ n.decimal.magnitude = d.magnitude := by
  by_cases hsign : 0 ≤ d.exponent
  · let n : Numeral :=
      ⟨d.plain, none, none, by rw [plain_of_whole hsign]; exact fun _ => isDigit_of_mem_toDigits, by simp,
        by simp [plain_of_whole hsign, Nat.toDigits_ne_nil]⟩
    refine ⟨n, List.append_nil _, rfl, ?_⟩
    show (⟨positional (d.plain ++ []), 0⟩ : Decimal).magnitude = d.magnitude
    have hexponent : d.exponent = 0 + d.exponent.toNat := by omega
    rw [List.append_nil, plain_of_whole hsign, positional_toDigits, magnitude_shift, ← hexponent]
  · obtain ⟨fraction, htext, hdigits⟩ := plain_of_fraction hsign rfl
    generalize hplaces : (-d.exponent).toNat = places at htext hdigits
    have hrest : d.coefficient % 10 ^ places < 10 ^ places := Nat.mod_lt _ (Nat.pow_pos (by decide))
    obtain ⟨k, hlength, hfraction⟩ := positional_fractionDigits hrest (by omega)
    let n : Numeral :=
      ⟨Nat.toDigits 10 (d.coefficient / 10 ^ places), fraction, none, fun _ => isDigit_of_mem_toDigits,
        by rw [hdigits]; exact fun _ => isDigit_of_mem_fractionDigits, by simp [Nat.toDigits_ne_nil]⟩
    refine ⟨n, ?_, rfl, ?_⟩
    · rw [htext, Numeral.text, Numeral.exponentText, List.append_nil]
    · show (⟨positional (n.whole ++ fraction.getD []), 0 - (fraction.getD []).length⟩ : Decimal).magnitude = _
      have hexponent : d.exponent = -places := by omega
      rw [hdigits, Int.zero_sub, magnitude_digits hlength hfraction, ← hexponent]

end Decimal

/-! ### Doubles -/

/-- Sign and magnitude make up a double. -/
theorem Binary64.ofPattern_pattern (x : Float) : ofPattern (isNegative x) (pattern x) = x := by
  have hweight : signWeight = 2 ^ 63 := rfl
  have hlt : x.toBits.toNat < 2 ^ 64 := x.toBits.toNat_lt
  have hbits : (if isNegative x then signWeight + pattern x else pattern x) = x.toBits.toNat := by
    simp only [isNegative, pattern, decide_eq_true_eq, hweight]
    split <;> omega
  rw [ofPattern, hbits, UInt64.ofNat_toNat, Float.ofBits_toBits]

/-- The sign that a double is printed with. -/
def Sign.ofDouble (x : Float) : Sign :=
  if Binary64.isNegative x then .minus else .absent

theorem Sign.ofDouble_eq_minus (x : Float) : decide (Sign.ofDouble x = .minus) = Binary64.isNegative x := by
  unfold ofDouble
  cases Binary64.isNegative x <;> rfl

theorem toList_realText {x : Float} (h : Binary64.isFinite x = true) :
    (realText x).toList = (Sign.ofDouble x).text ++ (Decimal.shortest (Binary64.pattern x)).plain := by
  have hp : Binary64.pattern x < Binary64.infinity := of_decide_eq_true h
  unfold realText Sign.ofDouble
  dsimp only
  rw [if_pos hp, String.toList_append, String.toList_ofList]
  cases Binary64.isNegative x <;> rfl

/-- The text of a finite double is a sign and a numeral without exponent, with the shortest digits that read back. -/
theorem exists_numeral_realText {x : Float} (h : Binary64.isFinite x = true) :
    ∃ n : Numeral, (realText x).toList = (Sign.ofDouble x).text ++ n.text ∧ n.exponent = none ∧
      n.decimal.magnitude = (Decimal.shortest (Binary64.pattern x)).magnitude ∧
      n.decimal.pattern = Binary64.pattern x := by
  have hp : Binary64.pattern x < Binary64.infinity := of_decide_eq_true h
  have hshortest := Decimal.pattern_shortest (Binary64.pattern x)
  obtain ⟨n, htext, hexponent, hmagnitude⟩ := Decimal.exists_numeral_plain (Decimal.shortest (Binary64.pattern x))
  refine ⟨n, by rw [toList_realText h, htext], hexponent, hmagnitude, ?_⟩
  rw [Decimal.pattern_congr hmagnitude.symm (by rwa [hshortest]), hshortest]

namespace Literal

/-- **A finite double is read back from its text**, with its sign. -/
theorem real?_realText {x : Float} (h : Binary64.isFinite x = true) : real? (realText x).toList = some x := by
  have hp : Binary64.pattern x < Binary64.infinity := of_decide_eq_true h
  obtain ⟨n, htext, hexponent, -, hpattern⟩ := exists_numeral_realText h
  have hread : n.decimalAsRead.pattern = Binary64.pattern x := by
    rw [Numeral.decimalAsRead_of_exponent_none hexponent, hpattern]
  rw [htext, real?_text _ n (by rwa [hread]), hread, Sign.ofDouble_eq_minus, Binary64.ofPattern_pattern]

/-- The infinities and what is no number are printed as one of three words. -/
theorem realText_of_not_finite {x : Float} (h : Binary64.isFinite x = false) :
    realText x = "inf" ∨ realText x = "-inf" ∨ realText x = "NaN" := by
  have hp : ¬ Binary64.pattern x < Binary64.infinity := of_decide_eq_false h
  unfold realText
  dsimp only
  rw [if_neg hp]
  split
  · cases Binary64.isNegative x
    · exact .inl rfl
    · exact .inr (.inl rfl)
  · exact .inr (.inr rfl)

/-! ### All values -/

/-- A whole number is read back from its text. -/
theorem integer?_repr (m : Int32) : integer? (Int.repr m.toInt).toList = some m := by
  rw [integer?_eq_some_iff, Int.repr_eq_if]
  split
  · refine ⟨.absent, _, by decide, Decimal.areDigits_toDigits m.toInt.toNat, Nat.toList_repr, ?_⟩
    rw [Decimal.positional_toDigits, Sign.apply]
    · omega
    · simp
  · refine ⟨.minus, _, by decide, Decimal.areDigits_toDigits (-m.toInt).toNat, ?_, ?_⟩
    · rw [String.toList_append, Nat.toList_repr]
      rfl
    · rw [Decimal.positional_toDigits, Sign.apply]
      omega

theorem logical?_text (b : Bool) : logical? (Value.logical b).text = some b := by
  cases b <;> rfl

end Literal

/-- The value is a number or a truth value, and none of the infinities. -/
def Value.isFinite : Value → Bool
  | real x => Binary64.isFinite x
  | _ => true

namespace Literal

theorem parse?_text {v : Value} (h : v.isFinite = true) : parse? v.text v.ty = some v := by
  cases v with
  | integer m => exact congrArg (Option.map Value.integer) (integer?_repr m)
  | logical b => exact congrArg (Option.map Value.logical) (logical?_text b)
  | real x => exact congrArg (Option.map Value.real) (real?_realText h)

/-- The words for what is no finite number are no literals. -/
theorem parse?_text_of_not_finite {v : Value} (h : v.isFinite = false) (ty : Ty) : parse? v.text ty = none := by
  cases v with
  | integer m => cases h
  | logical b => cases h
  | real x =>
    rcases realText_of_not_finite h with htext | htext | htext
    all_goals
      rw [Value.text, htext]
      cases ty <;> rfl

/-- **Printed values read back.**  A whole number, a truth value or a finite double is read back from its text at its own
type, and the text of any other double is a literal of no type.  A finite double comes back with all its bits, the sign
of zero included.  Its text is a sign and a numeral without exponent, which is nearest to this double, and no decimal of
fewer digits is. -/
theorem printed_values_read_back (v : Value) :
    (v.isFinite = true → parse? v.text v.ty = some v) ∧
    (v.isFinite = false → type? v.text = none ∧ ∀ ty, parse? v.text ty = none) ∧
    ∀ x, v = .real x → Binary64.isFinite x = true →
      (∃ y, parse? v.text .real = some (.real y) ∧ y.toBits = x.toBits) ∧
      ∃ n : Numeral, v.text.toList = (Sign.ofDouble x).text ++ n.text ∧ n.exponent = none ∧
        n.decimal.pattern = Binary64.pattern x ∧
        ∀ (d : Decimal) (k : Nat), d.pattern = Binary64.pattern x → d.coefficient < 10 ^ k →
          ∃ e : Decimal, e.magnitude = n.decimal.magnitude ∧ e.coefficient < 10 ^ k := by
  refine ⟨parse?_text, fun h => ⟨?_, parse?_text_of_not_finite h⟩, ?_⟩
  · exact type?_eq_none_iff.mpr (parse?_text_of_not_finite h)
  · rintro x rfl hfinite
    obtain ⟨n, htext, hexponent, hmagnitude, hpattern⟩ := exists_numeral_realText hfinite
    refine ⟨⟨x, parse?_text hfinite, rfl⟩, n, htext, hexponent, hpattern, fun d k hd hc => ?_⟩
    rw [hmagnitude]
    exact Decimal.shortest_fewest (of_decide_eq_true hfinite) hd hc

/-- Negative zero keeps its sign and needs no digit but one, and the infinity below all numbers is no literal. -/
theorem printed_values_read_back_negative :
    realText (Binary64.ofPattern true 0) = "-0" ∧
    parse? "-0" .real = some (.real (Binary64.ofPattern true 0)) ∧
    (∃ y, parse? "-0" .real = some (.real y) ∧ y.toBits = 0x8000000000000000) ∧
    (∃ n : Numeral, ['-', '0'] = Sign.minus.text ++ n.text ∧ n.exponent = none ∧
      ∃ e : Decimal, e.magnitude = n.decimal.magnitude ∧ e.coefficient < 10 ^ 0) ∧
    type? "-inf" = none ∧ ∀ ty, parse? "-inf" ty = none := by
  have hzero : realText (Binary64.ofPattern true 0) = "-0" := by decide +kernel
  have hinfinity : realText (Binary64.ofPattern true Binary64.infinity) = "-inf" := by decide +kernel
  have hfinite : Binary64.isFinite (Binary64.ofPattern true 0) = true := by decide +kernel
  have hinfinite : Binary64.isFinite (Binary64.ofPattern true Binary64.infinity) = false := by decide +kernel
  have hbits : (Binary64.ofPattern true 0).toBits = 0x8000000000000000 := by decide +kernel
  obtain ⟨hread, -, hreal⟩ := printed_values_read_back (.real (Binary64.ofPattern true 0))
  obtain ⟨-, hnone, -⟩ := printed_values_read_back (.real (Binary64.ofPattern true Binary64.infinity))
  obtain ⟨hsame, n, hn, hexponent, -, hfewest⟩ := hreal _ rfl hfinite
  rw [Value.text, hzero] at hread hsame hn
  rw [Value.text, hinfinity] at hnone
  rw [hbits] at hsame
  exact ⟨hzero, hread hfinite, hsame, ⟨n, hn, hexponent, hfewest ⟨0, 0⟩ 0 (by decide +kernel) (by decide)⟩,
    hnone hinfinite⟩

end Literal

end LineScript
