import LineScript.Proofs.Evaluation
import LineScript.Proofs.Magnitude
import LineScript.Proofs.Renaming

/-!
# LineScript.Proofs.Numerals — the grammar of literals

* `Numeral`: a number without sign as it is written, digits with a point among or beside them and an exponent.
* `Numeral.decimal`: the number that is written; `Numeral.decimalAsRead`: the same with the exponent as it is read, which
  differs from the written one only from 655360 on (`Literal.exponentValue_cases`).
* `Literal.decimal?_eq_some_iff`: the reader of decimals accepts the numerals and nothing else.
* `Literal.finite?_eq_some_iff`: finite doubles are read from them; `Literal.real?_eq_finite?`: the tests that come before
  refuse nothing else.
* `Literal.RoundsCorrectly`: the reader takes the double nearest to what is written, as it does on all texts of at most
  65000 characters (`Literal.roundsCorrectly_of_length`).
* `Literal.integer?_eq_some_iff`, `isSome_real?_iff`, `logical?_eq_some_iff`: the literals of the three types.
* `Literal.type?_of_parse?`: the type that a literal has by itself.
* `Literal.literals_follow_grammar`: all of it, with what it means for symbols.
-/

namespace LineScript

/-! ### Written numbers -/

/-- A sign in front of digits, which may be left out. -/
inductive Sign
  | absent | plus | minus
deriving DecidableEq

namespace Sign

/-- The sign as it is written. -/
def text : Sign → List Char
  | absent => []
  | plus => ['+']
  | minus => ['-']

/-- A number behind the sign. -/
def apply : Sign → Nat → Int
  | minus, n => -n
  | _, n => n

end Sign

/-- The exponent of a numeral: its letter, a sign and digits. -/
structure Exponent where
  letter : Char
  sign : Sign
  digits : List Char
  letter_eq : letter = 'e' ∨ letter = 'E'
  areDigits : Literal.areDigits digits = true

/-- A number without sign as it is written: digits, a point with digits behind it, and an exponent.  The last two may be
left out, and so may be the digits on one side of the point. -/
structure Numeral where
  whole : List Char
  fraction : Option (List Char)
  exponent : Option Exponent
  whole_digits : ∀ c ∈ whole, c.isDigit = true
  fraction_digits : ∀ c ∈ fraction.getD [], c.isDigit = true
  nonempty : whole ++ fraction.getD [] ≠ []

namespace Numeral

/-- The point and the digits behind it. -/
def fractionText : Option (List Char) → List Char
  | none => []
  | some ds => '.' :: ds

/-- The exponent as it is written. -/
def exponentText : Option Exponent → List Char
  | none => []
  | some e => e.letter :: (e.sign.text ++ e.digits)

/-- The exponent as a number, from the number that its digits are taken for. -/
def exponentNumber (value : List Char → Nat) : Option Exponent → Int
  | none => 0
  | some e => e.sign.apply (value e.digits)

/-- The numeral as it is written. -/
def text (n : Numeral) : List Char :=
  n.whole ++ (fractionText n.fraction ++ exponentText n.exponent)

/-- The number that is written, if the digits of the exponent are taken for `value`. -/
def decimalWith (value : List Char → Nat) (n : Numeral) : Decimal :=
  ⟨Decimal.positional (n.whole ++ n.fraction.getD []), exponentNumber value n.exponent - (n.fraction.getD []).length⟩

/-- The number that is written. -/
def decimal (n : Numeral) : Decimal :=
  n.decimalWith Decimal.positional

/-- The number that is read: the digits of the exponent are dropped behind the one with which it reaches `2 ^ 16`. -/
def decimalAsRead (n : Numeral) : Decimal :=
  n.decimalWith Literal.exponentValue

end Numeral

namespace Literal

/-! ### Runs of digits -/

theorem areDigits_iff {ds : List Char} : areDigits ds = true ↔ ds ≠ [] ∧ ∀ c ∈ ds, c.isDigit = true := by
  simp [areDigits]

/-- The text does not go on with a digit. -/
def NoDigit (cs : List Char) : Prop :=
  ∀ c ∈ cs.head?, c.isDigit = false

/-- The text does not go on with a sign. -/
def NoSign (cs : List Char) : Prop :=
  ∀ c ∈ cs.head?, c ≠ '+' ∧ c ≠ '-'

theorem NoDigit.takeWhile {ds cs : List Char} (h : NoDigit cs) (hd : ∀ c ∈ ds, c.isDigit = true) :
    (ds ++ cs).takeWhile Char.isDigit = ds := by
  rw [List.takeWhile_append_of_pos hd]
  cases cs with
  | nil => simp
  | cons c cs => simp [h c rfl]

theorem NoDigit.dropWhile {ds cs : List Char} (h : NoDigit cs) (hd : ∀ c ∈ ds, c.isDigit = true) :
    (ds ++ cs).dropWhile Char.isDigit = cs := by
  rw [List.dropWhile_append_of_pos hd]
  cases cs with
  | nil => rfl
  | cons c cs => simp [h c rfl]

theorem noSign_of_isDigit {ds : List Char} (hd : ∀ c ∈ ds, c.isDigit = true) : NoSign ds := by
  intro c hc
  have hdigit := hd c (List.mem_of_mem_head? hc)
  constructor
  · rintro rfl
    exact absurd hdigit (by decide)
  · rintro rfl
    exact absurd hdigit (by decide)

/-! ### Signs -/

theorem exists_sign (cs : List Char) :
    ∃ sign : Sign, cs = sign.text ++ (splitSign cs).2 ∧ (splitSign cs).1 = decide (sign = .minus) := by
  unfold splitSign
  split
  · exact ⟨.minus, rfl, rfl⟩
  · exact ⟨.plus, rfl, rfl⟩
  · exact ⟨.absent, rfl, rfl⟩

theorem NoSign.splitSign {cs : List Char} (h : NoSign cs) (sign : Sign) :
    splitSign (sign.text ++ cs) = (decide (sign = .minus), cs) := by
  cases sign with
  | plus => rfl
  | minus => rfl
  | absent =>
    rw [Sign.text, List.nil_append]
    unfold Literal.splitSign
    split
    · exact absurd rfl (h '-' rfl).2
    · exact absurd rfl (h '+' rfl).1
    · rfl

theorem exists_minus (cs : List Char) :
    ∃ sign : Sign, sign ≠ .plus ∧ cs = sign.text ++ (splitMinus cs).2 ∧ (splitMinus cs).1 = decide (sign = .minus) := by
  unfold splitMinus
  split
  · exact ⟨.minus, by decide, rfl, rfl⟩
  · exact ⟨.absent, by decide, rfl, rfl⟩

theorem NoSign.splitMinus {cs : List Char} (h : NoSign cs) {sign : Sign} (hsign : sign ≠ .plus) :
    splitMinus (sign.text ++ cs) = (decide (sign = .minus), cs) := by
  cases sign with
  | plus => exact absurd rfl hsign
  | minus => rfl
  | absent =>
    rw [Sign.text, List.nil_append]
    unfold Literal.splitMinus
    split
    · exact absurd rfl (h '-' rfl).2
    · rfl

theorem sign_apply (sign : Sign) (n : Nat) : sign.apply n = if decide (sign = .minus) then -(n : Int) else n := by
  cases sign <;> rfl

/-! ### Exponents and fractions -/

theorem exponent?_eq_some_iff {cs : List Char} {n : Int} :
    exponent? cs = some n ↔
      ∃ e, Numeral.exponentText e = cs ∧ Numeral.exponentNumber exponentValue e = n := by
  constructor
  · intro h
    unfold exponent? at h
    split at h
    · cases h
      exact ⟨none, rfl, rfl⟩
    · rename_i c rest
      split at h
      · rename_i hc
        obtain ⟨sign, hrest, hminus⟩ := exists_sign rest
        dsimp only at h
        split at h
        · rename_i hd
          refine ⟨some ⟨c, sign, (splitSign rest).2, hc, hd⟩, ?_, ?_⟩
          · rw [Numeral.exponentText, ← hrest]
          · rw [Numeral.exponentNumber, sign_apply, ← hminus]
            exact Option.some.inj h
        · cases h
      · cases h
  · rintro ⟨e, rfl, rfl⟩
    cases e with
    | none => rfl
    | some e =>
      have hsplit := (noSign_of_isDigit (areDigits_iff.mp e.areDigits).2).splitSign e.sign
      rw [Numeral.exponentText, exponent?, if_pos e.letter_eq, hsplit]
      simp only [e.areDigits, if_true, Numeral.exponentNumber, sign_apply]

theorem noDigit_exponentText (e : Option Exponent) : NoDigit (Numeral.exponentText e) := by
  cases e with
  | none => simp [NoDigit, Numeral.exponentText]
  | some e =>
    intro c hc
    cases hc
    rcases e.letter_eq with h | h <;> rw [h] <;> decide

theorem splitFraction_text (fraction : Option (List Char)) (e : Option Exponent)
    (hd : ∀ c ∈ fraction.getD [], c.isDigit = true) :
    splitFraction (Numeral.fractionText fraction ++ Numeral.exponentText e) =
      (fraction.getD [], Numeral.exponentText e) := by
  have hrest := noDigit_exponentText e
  cases fraction with
  | some ds =>
    rw [Option.getD_some] at hd
    rw [Numeral.fractionText, List.cons_append, splitFraction, hrest.takeWhile hd, hrest.dropWhile hd, Option.getD_some]
  | none =>
    cases e with
    | none => rfl
    | some e => rcases e.letter_eq with h | h <;> simp [Numeral.fractionText, Numeral.exponentText, splitFraction, h]

theorem exists_fraction (cs : List Char) :
    ∃ fraction, cs = Numeral.fractionText fraction ++ (splitFraction cs).2 ∧
      (splitFraction cs).1 = fraction.getD [] ∧ ∀ c ∈ fraction.getD [], c.isDigit = true := by
  unfold splitFraction
  split
  · rename_i rest
    refine ⟨some (rest.takeWhile Char.isDigit), ?_, rfl, ?_⟩
    · rw [Numeral.fractionText, List.cons_append, List.takeWhile_append_dropWhile]
    · exact fun c hc => List.mem_takeWhile_imp hc
  · exact ⟨none, rfl, rfl, by simp⟩

/-! ### Numerals -/

theorem noDigit_behind_whole (n : Numeral) :
    NoDigit (Numeral.fractionText n.fraction ++ Numeral.exponentText n.exponent) := by
  cases n.fraction with
  | none => exact noDigit_exponentText n.exponent
  | some ds =>
    intro c hc
    cases hc
    decide

theorem noSign_text (n : Numeral) : NoSign n.text := by
  cases hw : n.whole with
  | cons d ds =>
    intro c hc
    rw [Numeral.text, hw] at hc
    cases hc
    exact noSign_of_isDigit n.whole_digits d (by rw [hw]; rfl)
  | nil =>
    have hne := n.nonempty
    rw [hw, List.nil_append] at hne
    cases hf : n.fraction with
    | none => exact absurd (by rw [hf]; rfl) hne
    | some ds =>
      intro c hc
      rw [Numeral.text, hw, hf] at hc
      cases hc
      decide

/-- **The reader of decimals accepts the numerals**, and reads their digits. -/
theorem decimal?_eq_some_iff {cs : List Char} {d : Decimal} :
    decimal? cs = some d ↔ ∃ n : Numeral, n.text = cs ∧ n.decimalAsRead = d := by
  constructor
  · intro h
    unfold decimal? at h
    obtain ⟨fraction, hcs, hfraction, hdigits⟩ := exists_fraction (cs.dropWhile Char.isDigit)
    dsimp only at h
    split at h
    · cases h
    · rename_i hempty
      obtain ⟨e, he, rfl⟩ := Option.map_eq_some_iff.mp h
      obtain ⟨exponent, htext, rfl⟩ := exponent?_eq_some_iff.mp he
      rw [hfraction] at hempty
      refine ⟨⟨cs.takeWhile Char.isDigit, fraction, exponent, fun c hc => List.mem_takeWhile_imp hc, hdigits, ?_⟩, ?_, ?_⟩
      · simpa using hempty
      · rw [Numeral.text, htext, ← hcs, List.takeWhile_append_dropWhile]
      · rw [Numeral.decimalAsRead, Numeral.decimalWith, hfraction, Decimal.digitsValue_eq]
  · rintro ⟨n, rfl, rfl⟩
    have hbehind := noDigit_behind_whole n
    rw [decimal?, Numeral.text, hbehind.takeWhile n.whole_digits, hbehind.dropWhile n.whole_digits,
      splitFraction_text n.fraction n.exponent n.fraction_digits]
    have hsome : exponent? (Numeral.exponentText n.exponent) = some (Numeral.exponentNumber exponentValue n.exponent) :=
      exponent?_eq_some_iff.mpr ⟨n.exponent, rfl, rfl⟩
    have hempty : ¬ (n.whole.isEmpty && (n.fraction.getD []).isEmpty) = true := by simpa using n.nonempty
    simp only [if_neg hempty, hsome, Option.map_some, Decimal.digitsValue_eq]
    rfl

/-! ### Exponents that are read in full -/

theorem exponentValue_concat (ds : List Char) (c : Char) :
    exponentValue (ds ++ [c]) =
      if exponentValue ds < 65536 then 10 * exponentValue ds + (c.toNat - '0'.toNat) else exponentValue ds := by
  rw [exponentValue, List.foldl_append]
  rfl

theorem positional_concat (ds : List Char) (c : Char) :
    Decimal.positional (ds ++ [c]) = 10 * Decimal.positional ds + (c.toNat - '0'.toNat) := by
  rw [Decimal.positional, List.foldl_append]
  rfl

theorem positional_lt {ds : List Char} (hd : ∀ c ∈ ds, c.isDigit = true) :
    Decimal.positional ds < 10 ^ ds.length := by
  induction ds using List.reverseRecOn with
  | nil => decide
  | append_singleton ds c ih =>
    have hprev := ih fun d hmem => hd d (List.mem_append_left _ hmem)
    have hc : c.toNat - '0'.toNat ≤ 9 := by
      have hdigit := hd c (by simp)
      simp only [Char.isDigit, Bool.and_eq_true, decide_eq_true_eq, UInt32.le_iff_toNat_le] at hdigit
      have hnine : c.toNat ≤ 57 := hdigit.2
      have hzero : '0'.toNat = 48 := rfl
      omega
    rw [positional_concat, List.length_append, List.length_singleton, Nat.pow_succ]
    omega

/-- Reading stops only beyond `2 ^ 16`, so the digit that is dropped first would have brought the number to ten times
that. -/
theorem exponentValue_cases (ds : List Char) :
    exponentValue ds = Decimal.positional ds ∨ 65536 ≤ exponentValue ds ∧ 655360 ≤ Decimal.positional ds := by
  induction ds using List.reverseRecOn with
  | nil => exact .inl rfl
  | append_singleton ds c ih =>
    rw [exponentValue_concat, positional_concat]
    by_cases hlt : exponentValue ds < 65536
    · rw [if_pos hlt]
      left
      omega
    · rw [if_neg hlt]
      right
      omega

/-- With an exponent of `2 ^ 16` or more, a numeral that is not as long is zero, too large, or nearest to zero, whatever
the exponent is. -/
theorem pattern_of_far (sign : Sign) {coefficient places k x : Nat} (hc : coefficient < 10 ^ k) (hk : k ≤ 65000)
    (hplaces : places ≤ 65000) (hx : 65536 ≤ x) :
    (⟨coefficient, sign.apply x - places⟩ : Decimal).pattern =
      if sign = .minus ∨ coefficient = 0 then 0 else Binary64.infinity := by
  have hsign := sign_apply sign x
  by_cases hzero : coefficient = 0
  · rw [if_pos (.inr hzero), Decimal.pattern, if_pos hzero]
  · by_cases hminus : sign = .minus
    · rw [if_pos (.inl hminus)]
      simp only [hminus, decide_true, if_true] at hsign
      exact Decimal.pattern_of_tiny hc (by rw [hminus, hsign]; push_cast; omega)
    · rw [if_neg (by simp [hminus, hzero])]
      simp only [hminus, decide_false] at hsign
      exact Decimal.pattern_of_large hzero (by rw [hsign]; simp; omega)

end Literal

namespace Numeral

theorem length_digits_le (n : Numeral) : (n.whole ++ n.fraction.getD []).length ≤ n.text.length := by
  have hfraction : (n.fraction.getD []).length ≤ (fractionText n.fraction).length := by
    cases n.fraction <;> simp [fractionText]
  simp only [text, List.length_append]
  omega

theorem decimalAsRead_of_exponent_none {n : Numeral} (h : n.exponent = none) : n.decimalAsRead = n.decimal := by
  simp only [decimalAsRead, decimal, decimalWith, h, exponentNumber]

/-- What is read and what is written have the same nearest double, unless the numeral is very long. -/
theorem pattern_decimalAsRead (n : Numeral) (h : n.text.length ≤ 65000) :
    n.decimalAsRead.pattern = n.decimal.pattern := by
  cases he : n.exponent with
  | none => rw [decimalAsRead_of_exponent_none he]
  | some e =>
    simp only [decimalAsRead, decimal, decimalWith, he, exponentNumber]
    rcases Literal.exponentValue_cases e.digits with heq | ⟨hread, hwritten⟩
    · rw [heq]
    · have hlength := n.length_digits_le
      have hdigits : ∀ c ∈ n.whole ++ n.fraction.getD [], c.isDigit = true := by
        intro c hc
        rcases List.mem_append.mp hc with hc | hc
        · exact n.whole_digits c hc
        · exact n.fraction_digits c hc
      have hplaces : (n.fraction.getD []).length ≤ 65000 := by
        rw [List.length_append] at hlength
        omega
      have hfar := fun x => Literal.pattern_of_far e.sign (x := x) (Literal.positional_lt hdigits) (hlength.trans h)
        hplaces
      rw [hfar _ hread, hfar _ (by omega)]

end Numeral

namespace Literal

/-! ### Literals -/

/-- The reader rounds correctly on a text: from a numeral behind an optional sign it takes the double that is nearest to
the number that is written. -/
def RoundsCorrectly (cs : List Char) : Prop :=
  ∀ (sign : Sign) (n : Numeral) (d : Decimal), cs = sign.text ++ n.text → decimal? n.text = some d →
    d.pattern = n.decimal.pattern

/-- The reader rounds correctly on every text of at most 65000 characters. -/
theorem roundsCorrectly_of_length {cs : List Char} (h : cs.length ≤ 65000) : RoundsCorrectly cs := by
  intro sign n d htext hd
  have hread : n.decimalAsRead = d := by
    have hn : decimal? n.text = some n.decimalAsRead := decimal?_eq_some_iff.mpr ⟨n, rfl, rfl⟩
    rw [hn] at hd
    exact Option.some.inj hd
  rw [← hread]
  refine n.pattern_decimalAsRead ?_
  rw [htext, List.length_append] at h
  omega

theorem isNumeralChar_of_isDigit {c : Char} (h : c.isDigit = true) : isNumeralChar c = true := by
  simp [isNumeralChar, h]

/-- A numeral behind an optional sign holds a digit. -/
theorem any_isDigit_text (sign : Sign) (n : Numeral) : (sign.text ++ n.text).any Char.isDigit = true := by
  obtain ⟨d, hd⟩ := List.exists_mem_of_ne_nil _ n.nonempty
  rw [List.any_eq_true]
  rcases List.mem_append.mp hd with hw | hf
  · exact ⟨d, by simp [Numeral.text, hw], n.whole_digits d hw⟩
  · refine ⟨d, ?_, n.fraction_digits d hf⟩
    cases hfraction : n.fraction with
    | none => simp [hfraction] at hf
    | some ds =>
      rw [hfraction, Option.getD_some] at hf
      simp [Numeral.text, hfraction, Numeral.fractionText, hf]

theorem isNumeralChar_of_mem_sign {sign : Sign} {c : Char} (h : c ∈ sign.text) : isNumeralChar c = true := by
  cases sign with
  | absent => cases h
  | plus | minus =>
    obtain rfl := List.mem_singleton.mp h
    rfl

/-- A numeral behind an optional sign holds no other characters than those of numerals. -/
theorem all_isNumeralChar_text (sign : Sign) (n : Numeral) : (sign.text ++ n.text).all isNumeralChar = true := by
  rw [List.all_eq_true]
  intro c hc
  rw [Numeral.text] at hc
  rcases List.mem_append.mp hc with hc | hc
  · exact isNumeralChar_of_mem_sign hc
  rcases List.mem_append.mp hc with hc | hc
  · exact isNumeralChar_of_isDigit (n.whole_digits c hc)
  rcases List.mem_append.mp hc with hc | hc
  · cases hfraction : n.fraction with
    | none => simp [hfraction, Numeral.fractionText] at hc
    | some ds =>
      have hdigits := n.fraction_digits
      rw [hfraction] at hc hdigits
      rcases List.mem_cons.mp hc with rfl | hc
      · rfl
      · exact isNumeralChar_of_isDigit (hdigits c hc)
  · cases hexponent : n.exponent with
    | none => simp [hexponent, Numeral.exponentText] at hc
    | some e =>
      rw [hexponent] at hc
      rcases List.mem_cons.mp hc with rfl | hc
      · rcases e.letter_eq with h | h <;> rw [h] <;> rfl
      rcases List.mem_append.mp hc with hc | hc
      · exact isNumeralChar_of_mem_sign hc
      · exact isNumeralChar_of_isDigit ((areDigits_iff.mp e.areDigits).2 c hc)

/-- What has a name is not finite. -/
theorem infinity_le_of_named? {cs : List Char} {p : Nat} (h : named? cs = some p) : Binary64.infinity ≤ p := by
  unfold named? at h
  split at h
  · exact (Option.some.inj h).le
  · exact (Option.some.inj h).le
  · rw [← Option.some.inj h]
    exact Nat.le_add_right _ _
  · cases h

/-- The finite doubles are read from numerals behind an optional sign. -/
theorem finite?_eq_some_iff {cs : List Char} {x : Float} :
    finite? cs = some x ↔
      ∃ (sign : Sign) (n : Numeral), cs = sign.text ++ n.text ∧ n.decimalAsRead.pattern < Binary64.infinity ∧
        x = Binary64.ofPattern (decide (sign = .minus)) n.decimalAsRead.pattern := by
  constructor
  · intro h
    obtain ⟨sign, hcs, hminus⟩ := exists_sign cs
    unfold finite? double? at h
    dsimp only at h
    rw [hminus] at h
    cases hd : decimal? (splitSign cs).2 with
    | some d =>
      obtain ⟨n, htext, rfl⟩ := decimal?_eq_some_iff.mp hd
      rw [hd] at h
      dsimp only at h
      split at h
      · rename_i hlt
        have hpattern : n.decimalAsRead.pattern < Binary64.infinity := by omega
        rw [Nat.min_eq_left hpattern.le] at h
        exact ⟨sign, n, by rw [htext, ← hcs], hpattern, (Option.some.inj h).symm⟩
      · cases h
    | none =>
      rw [hd] at h
      cases hnamed : named? (splitSign cs).2 with
      | none =>
        rw [hnamed] at h
        cases h
      | some p =>
        rw [hnamed] at h
        simp only [Option.map_some, if_neg (Nat.not_lt.mpr (infinity_le_of_named? hnamed))] at h
        cases h
  · rintro ⟨sign, n, rfl, hlt, rfl⟩
    have hd : decimal? n.text = some n.decimalAsRead := decimal?_eq_some_iff.mpr ⟨n, rfl, rfl⟩
    rw [finite?, double?, (noSign_text n).splitSign sign]
    simp only [hd, Nat.min_eq_left hlt.le, if_pos hlt]

/-- **The tests of the characters change nothing**: without them the same texts are literals, of the same doubles. -/
theorem real?_eq_finite? (cs : List Char) : real? cs = finite? cs := by
  cases h : finite? cs with
  | none =>
    rw [real?, h]
    split
    · rfl
    · split <;> rfl
  | some x =>
    obtain ⟨sign, n, rfl, -, -⟩ := finite?_eq_some_iff.mp h
    rw [real?, any_isDigit_text, all_isNumeralChar_text, h]
    rfl

/-- A numeral behind an optional sign is read as the nearest double. -/
theorem real?_text (sign : Sign) (n : Numeral) (h : n.decimalAsRead.pattern < Binary64.infinity) :
    real? (sign.text ++ n.text) = some (Binary64.ofPattern (decide (sign = .minus)) n.decimalAsRead.pattern) := by
  rw [real?_eq_finite?]
  exact finite?_eq_some_iff.mpr ⟨sign, n, rfl, h, rfl⟩

/-- A text is a double if it is a numeral behind an optional sign, and what is read from it is not too large. -/
theorem isSome_real?_iff {cs : List Char} :
    (real? cs).isSome = true ↔
      ∃ (sign : Sign) (n : Numeral), cs = sign.text ++ n.text ∧ n.decimalAsRead.magnitude < 2 ^ 1024 - 2 ^ 970 := by
  rw [real?_eq_finite?, Option.isSome_iff_exists]
  constructor
  · rintro ⟨x, hx⟩
    obtain ⟨sign, n, hcs, hlt, -⟩ := finite?_eq_some_iff.mp hx
    exact ⟨sign, n, hcs, (Decimal.pattern_lt_infinity_iff _).mp hlt⟩
  · rintro ⟨sign, n, hcs, hlt⟩
    exact ⟨_, finite?_eq_some_iff.mpr ⟨sign, n, hcs, (Decimal.pattern_lt_infinity_iff _).mpr hlt, rfl⟩⟩

theorem isSome_real?_iff_of_roundsCorrectly {cs : List Char} (h : RoundsCorrectly cs) :
    (real? cs).isSome = true ↔
      ∃ (sign : Sign) (n : Numeral), cs = sign.text ++ n.text ∧ n.decimal.magnitude < 2 ^ 1024 - 2 ^ 970 := by
  rw [isSome_real?_iff]
  refine exists_congr fun sign => exists_congr fun n => and_congr_right fun htext => ?_
  rw [← Decimal.pattern_lt_infinity_iff, ← Decimal.pattern_lt_infinity_iff,
    h sign n n.decimalAsRead htext (decimal?_eq_some_iff.mpr ⟨n, rfl, rfl⟩)]

/-- A whole number is written with an optional minus and digits, and has 32 bits. -/
theorem integer?_eq_some_iff {cs : List Char} {m : Int32} :
    integer? cs = some m ↔
      ∃ (sign : Sign) (ds : List Char), sign ≠ .plus ∧ areDigits ds = true ∧ cs = sign.text ++ ds ∧
        m.toInt = sign.apply (Decimal.positional ds) := by
  constructor
  · intro h
    obtain ⟨sign, hplus, hcs, hminus⟩ := exists_minus cs
    have hvalue : (if (splitMinus cs).1 then -(Decimal.digitsValue (splitMinus cs).2 : Int)
        else Decimal.digitsValue (splitMinus cs).2) = sign.apply (Decimal.positional (splitMinus cs).2) := by
      rw [hminus, sign_apply, Decimal.digitsValue_eq]
    simp only [integer?, hvalue] at h
    split at h
    · rename_i hd
      split at h
      · rename_i hrange
        cases h
        exact ⟨sign, (splitMinus cs).2, hplus, hd, hcs, Int32.toInt_ofInt_of_le (by omega) (by omega)⟩
      · cases h
    · cases h
  · rintro ⟨sign, ds, hplus, hd, rfl, hm⟩
    have hsplit := (noSign_of_isDigit (areDigits_iff.mp hd).2).splitMinus hplus
    have hlow := m.le_toInt
    have hhigh := m.toInt_lt
    rw [sign_apply, ← Decimal.digitsValue_eq] at hm
    rw [integer?, hsplit]
    simp only [hd, if_true, ← hm, Int32.ofInt_toInt]
    exact if_pos (by omega)

theorem logical?_eq_some_iff {s : String} {b : Bool} :
    logical? s = some b ↔ (s = "true" ∧ b = true) ∨ (s = "false" ∧ b = false) := by
  unfold logical?
  split
  · simp [eq_comm]
  · simp [eq_comm]
  · rename_i htrue hfalse
    constructor
    · intro h
      cases h
    · rintro (⟨h, -⟩ | ⟨h, -⟩)
      · exact (htrue h).elim
      · exact (hfalse h).elim

/-- No word for a truth value is a number. -/
theorem eq_none_of_logical? {s : String} (h : (logical? s).isSome = true) :
    integer? s.toList = none ∧ real? s.toList = none := by
  obtain ⟨b, hb⟩ := Option.isSome_iff_exists.mp h
  rcases logical?_eq_some_iff.mp hb with ⟨rfl, -⟩ | ⟨rfl, -⟩
  · decide
  · decide

/-- Every whole number can be read as a double. -/
theorem isSome_real?_of_integer? {cs : List Char} (h : (integer? cs).isSome = true) : (real? cs).isSome = true := by
  obtain ⟨m, hm⟩ := Option.isSome_iff_exists.mp h
  obtain ⟨sign, ds, -, hd, hcs, hval⟩ := integer?_eq_some_iff.mp hm
  obtain ⟨hne, hdigits⟩ := areDigits_iff.mp hd
  have hsmall : Decimal.positional ds ≤ 2 ^ 31 := by
    have hlow := m.le_toInt
    have hhigh := m.toInt_lt
    rw [sign_apply] at hval
    split at hval <;> omega
  let n : Numeral := ⟨ds, none, none, hdigits, by simp, by simpa using hne⟩
  have htext : n.text = ds := List.append_nil ds
  have hmagnitude : n.decimalAsRead.magnitude = Decimal.positional ds := by
    show ((Decimal.positional (ds ++ []) : ℕ) : ℚ) * 10 ^ (0 : ℤ) = _
    rw [List.append_nil, zpow_zero, mul_one]
  refine isSome_real?_iff.mpr ⟨sign, n, by rw [htext, hcs], ?_⟩
  rw [hmagnitude]
  exact Decimal.natCast_lt_limit hsmall

/-- The type of a bare literal: a text that can be read at a type has that type, unless it is a whole number. -/
theorem type?_of_parse? {s : String} {ty : Ty} (h : (parse? s ty).isSome = true) :
    type? s = some ty ∨ (ty = .real ∧ type? s = some .integer) := by
  cases ty with
  | logical =>
    have hl : (logical? s).isSome = true := by simpa [parse?] using h
    exact .inl (if_pos hl)
  | integer =>
    have hi : (integer? s.toList).isSome = true := by simpa [parse?] using h
    have hl : ¬ (logical? s).isSome = true := fun hl => by simp [(eq_none_of_logical? hl).1] at hi
    left
    rw [type?, if_neg hl, if_pos hi]
  | real =>
    have hr : (real? s.toList).isSome = true := by simpa [parse?] using h
    have hl : ¬ (logical? s).isSome = true := fun hl => by simp [(eq_none_of_logical? hl).2] at hr
    rw [type?, if_neg hl]
    by_cases hi : (integer? s.toList).isSome = true
    · exact .inr ⟨rfl, if_pos hi⟩
    · left
      rw [if_neg hi, if_pos hr]

theorem isSome_parse?_of_type? {s : String} {ty : Ty} (h : type? s = some ty) : (parse? s ty).isSome = true := by
  unfold type? at h
  split_ifs at h with hl hi hr
  · cases h
    simpa [parse?] using hl
  · cases h
    simpa [parse?] using hi
  · cases h
    simpa [parse?] using hr

end Literal

namespace Variables

variable {vars : Variables} {symbol : String}

theorem exists_resolve_of_infer? {ty : Ty} (h : vars.infer? symbol = some ty) :
    ∃ value, vars.resolve symbol ty = .ok value := by
  unfold infer? at h
  split at h
  · rename_i v hf
    exact ⟨v.value, resolve_eq_ok_iff.mpr (.inl ⟨v, hf, Option.some.inj h, rfl⟩)⟩
  · rename_i hf
    obtain ⟨value, hp⟩ := Option.isSome_iff_exists.mp (Literal.isSome_parse?_of_type? h)
    exact ⟨value, resolve_eq_ok_iff.mpr (.inr ⟨hf, hp⟩)⟩

theorem resolveAny_fails_iff : (∃ cause, vars.resolveAny symbol = .error cause) ↔ vars.infer? symbol = none := by
  unfold resolveAny
  cases h : vars.infer? symbol with
  | none => exact iff_of_true ⟨_, rfl⟩ rfl
  | some ty =>
    obtain ⟨value, hvalue⟩ := exists_resolve_of_infer? h
    simp [hvalue]

end Variables

namespace Literal

/-- **The grammar of literals.**  Whole numbers are an optional minus and digits, within 32 bits.  Doubles are an optional
sign and a numeral below `2 ^ 1024 - 2 ^ 970`, wherever the reader rounds correctly, which it does on all texts of at
most 65000 characters.  Truth values are two words.  The type of a bare literal is one at which it can be read, whole
numbers can be read as doubles and truth values as no number.  So a symbol has a value at the type that it has by itself,
and it has no value of any type where it has no type. -/
theorem literals_follow_grammar (s : String) (vars : Variables) :
    (∀ n : Int, (∃ m : Int32, parse? s .integer = some (.integer m) ∧ m.toInt = n) ↔
      (∃ (sign : Sign) (ds : List Char), sign ≠ .plus ∧ areDigits ds = true ∧ s.toList = sign.text ++ ds ∧
        n = sign.apply (Decimal.positional ds)) ∧ -2 ^ 31 ≤ n ∧ n ≤ 2 ^ 31 - 1) ∧
    (RoundsCorrectly s.toList →
      ((parse? s .real).isSome = true ↔
        ∃ (sign : Sign) (n : Numeral), s.toList = sign.text ++ n.text ∧
          n.decimal.magnitude < 2 ^ 1024 - 2 ^ 970)) ∧
    (s.toList.length ≤ 65000 → RoundsCorrectly s.toList) ∧
    (∀ value, parse? s .logical = some value ↔
      (s = "true" ∧ value = .logical true) ∨ (s = "false" ∧ value = .logical false)) ∧
    (type? s = none ↔ ∀ ty, parse? s ty = none) ∧
    (∀ ty, type? s = some ty → (parse? s ty).isSome = true) ∧
    ((parse? s .integer).isSome = true → (parse? s .real).isSome = true) ∧
    ((parse? s .logical).isSome = true → parse? s .integer = none ∧ parse? s .real = none) ∧
    (∀ ty, vars.infer? s = some ty → ∃ value, vars.resolve s ty = .ok value) ∧
    ((∃ cause, vars.resolveAny s = .error cause) ↔ vars.infer? s = none) := by
  have hreal : (parse? s .real).isSome = (real? s.toList).isSome := Option.isSome_map
  have hinteger : (parse? s .integer).isSome = (integer? s.toList).isSome := Option.isSome_map
  have hlogical : (parse? s .logical).isSome = (logical? s).isSome := Option.isSome_map
  refine ⟨?_, ?_, roundsCorrectly_of_length, ?_, type?_eq_none_iff, fun ty => isSome_parse?_of_type?, ?_, ?_,
    fun ty => Variables.exists_resolve_of_infer?, Variables.resolveAny_fails_iff⟩
  · intro n
    constructor
    · rintro ⟨m, hm, rfl⟩
      obtain ⟨m', hm', heq⟩ := Option.map_eq_some_iff.mp hm
      cases heq
      have hhigh := m.toInt_lt
      exact ⟨integer?_eq_some_iff.mp hm', m.le_toInt, by omega⟩
    · rintro ⟨⟨sign, ds, hplus, hd, hs, rfl⟩, hlow, hhigh⟩
      have hn := Int32.toInt_ofInt_of_le hlow (by omega)
      have hread := integer?_eq_some_iff.mpr ⟨sign, ds, hplus, hd, hs, hn⟩
      exact ⟨_, by rw [parse?, hread, Option.map_some], hn⟩
  · intro hround
    rw [hreal]
    exact isSome_real?_iff_of_roundsCorrectly hround
  · intro value
    rw [parse?, Option.map_eq_some_iff]
    constructor
    · rintro ⟨b, hb, rfl⟩
      rcases logical?_eq_some_iff.mp hb with ⟨hs, rfl⟩ | ⟨hs, rfl⟩
      · exact .inl ⟨hs, rfl⟩
      · exact .inr ⟨hs, rfl⟩
    · rintro (⟨hs, rfl⟩ | ⟨hs, rfl⟩)
      · exact ⟨true, logical?_eq_some_iff.mpr (.inl ⟨hs, rfl⟩), rfl⟩
      · exact ⟨false, logical?_eq_some_iff.mpr (.inr ⟨hs, rfl⟩), rfl⟩
  · rw [hinteger, hreal]
    exact isSome_real?_of_integer?
  · rw [hlogical]
    intro h
    obtain ⟨hi, hr⟩ := eq_none_of_logical? h
    simp [parse?, hi, hr]

/-- A numeral between the largest double and the limit. -/
def aboveLargest : Numeral where
  whole := ['1']
  fraction := some ['7', '9', '7', '6', '9', '3', '1', '3', '4', '8', '6', '2', '3', '1', '5', '8']
  exponent := some ⟨'e', .plus, ['3', '0', '8'], .inl rfl, rfl⟩
  whole_digits := List.all_eq_true.mp rfl
  fraction_digits := List.all_eq_true.mp rfl
  nonempty := by decide

theorem literals_follow_grammar_aboveLargest :
    RoundsCorrectly "-1.7976931348623158e+308".toList ∧
    (parse? "-1.7976931348623158e+308" .real).isSome = true ∧
    (∃ m : Int32, parse? "-0002147483648" .integer = some (.integer m) ∧ m.toInt = -2147483648) ∧
    ¬ ∃ m : Int32, parse? "2147483648" .integer = some (.integer m) ∧ m.toInt = 2147483648 := by
  obtain ⟨-, hreal, hrounds, -⟩ := literals_follow_grammar "-1.7976931348623158e+308" {}
  obtain ⟨hleast, -⟩ := literals_follow_grammar "-0002147483648" {}
  obtain ⟨hlarge, -⟩ := literals_follow_grammar "2147483648" {}
  have hround := hrounds (by decide)
  have hfits : aboveLargest.decimal.magnitude < 2 ^ 1024 - 2 ^ 970 :=
    (Decimal.pattern_lt_infinity_iff _).mp (by decide +kernel)
  refine ⟨hround, (hreal hround).mpr ⟨.minus, aboveLargest, by decide, hfits⟩, (hleast _).mpr ?_, fun h => ?_⟩
  · exact ⟨⟨.minus, ['0', '0', '0', '2', '1', '4', '7', '4', '8', '3', '6', '4', '8'], by decide, by decide, by decide,
      by decide⟩, by decide, by decide⟩
  · exact absurd ((hlarge _).mp h).2.2 (by decide)

end Literal

end LineScript
