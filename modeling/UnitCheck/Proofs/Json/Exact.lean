import UnitCheck.Proofs.Json.Record
import UnitCheck.Proofs.Number.Decimal
import UnitCheck.Proofs.Number.Machine

/-!
  Numbers with few digits are reread exactly.

  Digits below `2 ^ 53` are a machine number, and so are the powers of ten up to the twenty-second
  (`units_powerOfTen`). Where the text of a number has no more, its digits and its power of ten are
  both exact and only their product or quotient is rounded, to the nearest magnitude, which is the
  number that was written (`rereadNumber_of_isShort`).
-/

namespace UnitCheck.Json

open Number (IsDigits IsFraction IsExponent Format splitSign signed splitSign_append
  splitSign_of_digits splitDigits_of_noDigit splitFraction_append le_ofDigitChars ofCode)

/-! ## Digits and powers of a text -/

theorem appendDigit?_of_lt {n : Nat} {d : Char}
    (h : 10 * n + (d.toNat - '0'.toNat) < UInt64.size) :
    appendDigit? n d = some (10 * n + (d.toNat - '0'.toNat)) := by
  unfold appendDigit?
  rw [Nat.mul_comm n]
  exact if_pos h

theorem appendWhole_cons {n next : Nat} {d : Char} (ds : List Char)
    (h : appendDigit? n d = some next) : appendWhole n (d :: ds) = appendWhole next ds := by
  conv_lhs => whnf
  rw [h]

theorem appendWhole_of_fits {ds : List Char} {n : Nat}
    (h : Nat.ofDigitChars 10 ds n < UInt64.size) :
    appendWhole n ds = (Nat.ofDigitChars 10 ds n, 0) := by
  induction ds generalizing n with
  | nil => rfl
  | cons d ds ih =>
    rw [Nat.ofDigitChars_cons] at h ⊢
    have hlt := (le_ofDigitChars ds (10 * n + (d.toNat - '0'.toNat))).trans_lt h
    rw [appendWhole_cons ds (appendDigit?_of_lt hlt)]
    exact ih h

theorem appendFraction_cons {n next : Nat} {d : Char} (ds : List Char)
    (h : appendDigit? n d = some next) : appendFraction n (d :: ds) =
      ((appendFraction next ds).1, (appendFraction next ds).2 + 1) := by
  conv_lhs => whnf
  rw [h]

theorem appendFraction_of_fits {ds : List Char} {n : Nat}
    (h : Nat.ofDigitChars 10 ds n < UInt64.size) :
    appendFraction n ds = (Nat.ofDigitChars 10 ds n, ds.length) := by
  induction ds generalizing n with
  | nil => rfl
  | cons d ds ih =>
    rw [Nat.ofDigitChars_cons] at h ⊢
    have hlt := (le_ofDigitChars ds (10 * n + (d.toNat - '0'.toNat))).trans_lt h
    rw [appendFraction_cons ds (appendDigit?_of_lt hlt), ih h, List.length_cons]

/-- Digits with an exponent are scaled by the power of ten that both make up. -/
theorem shifted_of_isExponent {exponent : List Char} {power : Int}
    (hexponent : IsExponent exponent power) (hpower : power.natAbs ≤ maxExponent)
    (significand : Nat) (before : Int) :
    shifted significand before exponent =
      scaleByTen (UInt64.ofNat significand).toFloat (power + before) := by
  obtain ⟨rfl, rfl⟩ | ⟨mark, sign, digits, negative, rfl, -, hsign, hdigits, rfl⟩ := hexponent
  · rw [Int.zero_add]
    rfl
  -- The digits of the exponent are no more than its amount, whatever its sign.
  · have hfits : Nat.ofDigitChars 10 digits 0 ≤ maxExponent := by
      cases negative with
      | true => simpa [signed] using hpower
      | false => simpa [signed] using hpower
    rw [shifted, splitSign_append hsign hdigits]
    dsimp only
    rw [if_pos hfits]
    cases negative with
    | true =>
      congr 1
      show before - _ = -_ + before
      omega
    | false =>
      congr 1
      exact Int.add_comm ..

/-- The digits of an unsigned number of JSON, without its point. -/
def digitsOf (whole fraction : List Char) : Nat := Nat.ofDigitChars 10 (whole ++ fraction.tail) 0

/-- The parts of a number of JSON, read. The whole part fits into a word; digits of the fraction
    that do not are left out. -/
theorem toFloat?_parts {minus whole fraction exponent : List Char} {power : Int} {n places : Nat}
    (hminus : minus = [] ∨ minus = ['-']) (hwhole : IsDigits whole)
    (hfraction : IsFraction fraction) (hexponent : IsExponent exponent power)
    (hfits : Nat.ofDigitChars 10 whole 0 < UInt64.size)
    (hplaces : appendFraction (Nat.ofDigitChars 10 whole 0) fraction.tail = (n, places))
    (hpower : power.natAbs ≤ maxExponent) :
    toFloat? (minus ++ (whole ++ (fraction ++ exponent))) =
      (scaleByTen (UInt64.ofNat n).toFloat (power - places)).map
        fun x => if minus = ['-'] then -x else x := by
  have hsign : splitSign (minus ++ (whole ++ (fraction ++ exponent))) =
      (decide (minus = ['-']), whole ++ (fraction ++ exponent)) := by
    obtain rfl | rfl := hminus
    · exact splitSign_of_digits hwhole _
    · rfl
  -- The reader takes the parts off one after the other.
  unfold toFloat?
  rw [hsign]
  dsimp only
  rw [splitDigits_of_noDigit hwhole.2 (hfraction.noDigit_append hexponent.noDigit)]
  dsimp only
  rw [splitFraction_append hfraction hexponent]
  dsimp only
  rw [appendWhole_of_fits hfits]
  dsimp only
  rw [hplaces]
  dsimp only
  rw [shifted_of_isExponent hexponent hpower]
  congr 2
  · funext x
    simp
  · omega

/-! ## Exact digits and exact powers -/

/-- The powers of ten up to the twenty-second are machine numbers. -/
theorem units_powerOfTen {k : Nat} (hk : k ≤ 22) :
    Format.binary64.nearestDecimal 1 k < Format.binary64.infinity ∧
      Format.binary64.units (Format.binary64.nearestDecimal 1 k) =
        10 ^ k * 2 ^ Format.binary64.grain := by
  have hall : ∀ k < 23, Format.binary64.nearestDecimal 1 (k : Nat) < Format.binary64.infinity ∧
      Format.binary64.units (Format.binary64.nearestDecimal 1 (k : Nat)) =
        10 ^ k * 2 ^ Format.binary64.grain := by decide +kernel
  exact hall k (by omega)

/-- Few digits and a small power stay within the range of decimals. -/
theorem nearestDecimal_of_lt {n : Nat} {p : Int} (hn : n < 2 ^ 53) (hp : p.natAbs ≤ 22) :
    Format.binary64.nearestDecimal n p =
      Format.binary64.nearest (n * 10 ^ p.toNat) (10 ^ (-p).toNat) := by
  by_cases hzero : n = 0
  · rw [hzero, Nat.zero_mul, Format.nearest_zero]
    rfl
  · have hcount : Number.Format.digitCount n ≤ 16 :=
      (Nat.length_toDigits_le_iff (by decide) (by decide)).2 (by omega)
    have hrange : Format.decimalRange = 400 := rfl
    rw [Format.nearestDecimal, if_neg hzero, if_neg (by omega), if_neg (by omega)]
    rfl

/-- The product with a power of ten that is a machine number is rounded once. -/
theorem mul_powerOfTen {n digits k : Nat} (hdigits : digits < Format.binary64.infinity)
    (hunits : Format.binary64.units digits = n * 2 ^ Format.binary64.grain) (hk : k ≤ 22) :
    ofCode digits * Number.powerOfTen k = ofCode (Format.binary64.nearest (n * 10 ^ k) 1) := by
  obtain ⟨hpower, hpowerUnits⟩ := units_powerOfTen hk
  have hexact : Format.binary64.nearest
      (n * 2 ^ Format.binary64.grain * (10 ^ k * 2 ^ Format.binary64.grain))
        (2 ^ Format.binary64.grain * 2 ^ Format.binary64.grain) =
          Format.binary64.nearest (n * 10 ^ k) 1 := by
    rw [← Nat.mul_assoc, Number.nearest_grain, Nat.mul_right_comm, ← Number.nearest_grain _ 1,
      Nat.one_mul]
  show ofCode digits * ofCode (Format.binary64.nearestDecimal 1 (k : Nat)) = _
  rw [Number.ofCode_mul hdigits hpower, hunits, hpowerUnits, hexact]

/-- The quotient by a power of ten that is a machine number is rounded once. -/
theorem div_powerOfTen {n digits k : Nat} (hdigits : digits < Format.binary64.infinity)
    (hunits : Format.binary64.units digits = n * 2 ^ Format.binary64.grain) (hk : k ≤ 22) :
    ofCode digits / Number.powerOfTen k = ofCode (Format.binary64.nearest n (10 ^ k)) := by
  obtain ⟨hpower, hpowerUnits⟩ := units_powerOfTen hk
  -- A power of ten is not zero.
  have hpos : 0 < Format.binary64.nearestDecimal 1 (k : Nat) := by
    by_contra hzero
    rw [Nat.eq_zero_of_not_pos hzero] at hpowerUnits
    exact (Nat.mul_pos (Nat.pow_pos (by decide)) (Nat.two_pow_pos _)).ne hpowerUnits
  show ofCode digits / ofCode (Format.binary64.nearestDecimal 1 (k : Nat)) = _
  rw [Number.ofCode_div hdigits hpos hpower, hunits, hpowerUnits, Number.nearest_grain]

/-- Few digits scaled by a small power of ten are rounded once, to the nearest magnitude. -/
theorem scaleByTen_of_lt {n code : Nat} {p : Int} (hn : n < 2 ^ 53) (hp : p.natAbs ≤ 22)
    (hcode : Format.binary64.nearestDecimal n p = code)
    (hfinite : code < Format.binary64.infinity) :
    scaleByTen (UInt64.ofNat n).toFloat p = some (ofCode code) := by
  -- The digits are a machine number too, so the one operation on exact operands is all there is.
  obtain ⟨digits, hdigits, hunits⟩ := Number.exists_units_eq hn
  have hfloat : (UInt64.ofNat n).toFloat = ofCode digits := by
    rw [Number.toFloat_ofNat (hn.trans (by decide)), Number.nearest_of_units hdigits hunits]
  rw [nearestDecimal_of_lt hn hp] at hcode
  have hmax : maxPower = 308 := rfl
  rw [scaleByTen, if_pos (by omega), hfloat]
  by_cases hsign : 0 ≤ p
  · have hp' : p.toNat = p.natAbs ∧ (-p).toNat = 0 := by omega
    rw [hp'.1, hp'.2, Nat.pow_zero] at hcode
    rw [if_pos hsign]
    dsimp only
    rw [mul_powerOfTen hdigits hunits hp, hcode, Number.isInf_ofCode hfinite,
      if_neg (by decide)]
  · have hp' : p.toNat = 0 ∧ (-p).toNat = p.natAbs := by omega
    rw [hp'.1, hp'.2, Nat.pow_zero, Nat.mul_one] at hcode
    rw [if_neg hsign, div_powerOfTen hdigits hunits hp, hcode]

/-! ## Numbers that are kept -/

/-- The text of a number with digits below `2 ^ 53`, of which at most twenty-two stand after the
    point, and a power of ten from `-22` to `22`. -/
inductive IsShort : List Char → Prop where
  | intro {minus whole fraction exponent : List Char} {power : Int}
      (hminus : minus = [] ∨ minus = ['-']) (hwhole : IsDigits whole)
      (hfraction : IsFraction fraction) (hexponent : IsExponent exponent power)
      (hdigits : digitsOf whole fraction < 2 ^ 53) (hplaces : fraction.tail.length ≤ 22)
      (hpower : (power - fraction.tail.length).natAbs ≤ 22) :
      IsShort (minus ++ (whole ++ (fraction ++ exponent)))

/-- A minus sign is told from what starts with a digit. -/
theorem minus_append_inj {minus sign cs ds : List Char} (hminus : minus = [] ∨ minus = ['-'])
    (hsign : sign = [] ∨ sign = ['-']) (hcs : ∀ c ∈ cs.head?, c ≠ '-')
    (hds : ∀ c ∈ ds.head?, c ≠ '-') (h : minus ++ cs = sign ++ ds) : minus = sign ∧ cs = ds := by
  obtain rfl | rfl := hminus <;> obtain rfl | rfl := hsign
  · exact ⟨rfl, h⟩
  · obtain rfl : cs = '-' :: ds := h
    exact absurd rfl (hcs '-' rfl)
  · obtain rfl : '-' :: cs = ds := h
    exact absurd rfl (hds '-' rfl)
  · exact ⟨rfl, (List.cons.inj h).2⟩

theorem not_minus_of_isDigits {cs : List Char} (h : IsDigits cs) (rest : List Char) :
    ∀ c ∈ (cs ++ rest).head?, c ≠ '-' := by
  obtain ⟨d, ds, rfl⟩ := List.exists_cons_of_ne_nil h.1
  intro c hc
  obtain rfl : d = c := by simpa using hc
  exact Number.forall_digit (P := fun c => c ≠ '-') (by decide) (h.2 d List.mem_cons_self)

/-- A number whose text is short is reread as it is. -/
theorem rereadNumber_of_isShort {x : Float} {chars : List Char} (htext : numberText? x = some chars)
    (hshort : IsShort chars) : rereadNumber x = some x := by
  obtain ⟨negative, code, hcode, hsigned, hwritten⟩ :=
    exists_magnitude_of_isFinite (isFinite_of_numberText? htext)
  obtain ⟨whole', fraction', exponent', hmagnitude, hparts, -⟩ :=
    Format.exists_written Format.binary64_withinDecimalRange .json hcode
  obtain @⟨minus, whole, fraction, exponent, power, hminus, hwhole, hfraction, hexponent, hdigits,
    hplaces, hpower⟩ := hshort
  -- The sign and the decimal are those that were written.
  have hequal := Option.some.inj (hwritten.symm.trans htext)
  have hdecimal : ∀ c ∈ (Number.Style.json.magnitude .binary64 code).head?, c ≠ '-' := by
    rw [hmagnitude]
    exact not_minus_of_isDigits hparts.isDigits _
  obtain ⟨hsign, hunsigned⟩ := minus_append_inj (signText_cases negative) hminus hdecimal
    (not_minus_of_isDigits hwhole _) hequal
  have hread := hparts.readDecimal
  rw [← hmagnitude, hunsigned, Format.readDecimal_parts _ hwhole hfraction hexponent,
    Option.some.injEq] at hread
  have hscale := scaleByTen_of_lt hdigits hpower hread hcode
  have hmax : maxExponent = 2147483647 := rfl
  have hwide := hdigits.trans (show 2 ^ 53 < UInt64.size by decide)
  rw [digitsOf, Nat.ofDigitChars_append] at hwide
  rw [rereadNumber, htext, Option.bind_some, toFloat?_parts hminus hwhole hfraction hexponent
    ((le_ofDigitChars ..).trans_lt hwide) (appendFraction_of_fits hwide) (by omega),
    ← Nat.ofDigitChars_append, ← digitsOf, hscale, Option.map_some, Option.some.injEq, hsigned,
    ← hsign]
  cases negative with
  | true => rfl
  | false => rfl

end UnitCheck.Json
