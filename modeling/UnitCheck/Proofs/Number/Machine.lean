import UnitCheck.Proofs.Number.Float

/-!
  Machine arithmetic gives the nearest number.

  The machine multiplies and divides in exact arithmetic and then shifts the result to the place of
  its last bit. Two bits stand for all that is shifted out, and they are enough to round a fraction
  to the nearest even (`Holds.roundedMantissa_eq`). What is packed in the end is the code of the
  magnitude nearest to the exact result (`pack_roundWithAccuracy`), so products, quotients and
  integers are those of `Format.nearest` (`ofCode_mul`, `ofCode_div`, `toFloat_ofNat`).
-/

namespace UnitCheck.Number

open Float.Model (totalExponent)
open Float.Model.UnpackedFloat

/-! ## Rounding by two bits -/

/-- A mantissa with its round bit and its sticky bit holds a fraction: its whole part, whether the
    rest is at least a half, and whether it is neither nothing nor a half. -/
structure Holds (em : ExtendedMantissa) (num den : Nat) : Prop where
  mantissa : em.mantissa = num / den
  roundBit : em.roundBit = true ↔ den ≤ 2 * (num % den)
  stickyBit : em.stickyBit = true ↔ num % den ≠ 0 ∧ 2 * (num % den) ≠ den

namespace Holds

variable {em : ExtendedMantissa} {num den : Nat}

theorem shiftRightOne (h : Holds em num den) (hden : 0 < den) :
    Holds em.shiftRightOne num (den * 2) := by
  obtain ⟨hmantissa, hround, hsticky⟩ := h
  have hrest := Nat.mod_lt num hden
  -- The bit that is shifted out is the last of the quotient, and it joins the remainder.
  have hmod : num % (den * 2) = num % den + den * (num / den % 2) := Nat.mod_mul
  have hbit : num / den % 2 = 0 ∨ num / den % 2 = 1 := Nat.mod_two_eq_zero_or_one _
  constructor
  · rw [ExtendedMantissa.shiftRightOne, hmantissa, Nat.div_div_eq_div_mul]
  · rw [ExtendedMantissa.shiftRightOne, hmod, hmantissa, bne_iff_ne]
    rcases hbit with hbit | hbit
    · rw [hbit]
      omega
    · rw [hbit]
      omega
  · rw [ExtendedMantissa.shiftRightOne, hmod, Bool.or_eq_true, hround, hsticky]
    rcases hbit with hbit | hbit
    · rw [hbit]
      omega
    · rw [hbit]
      omega

theorem shiftRight (h : Holds em num den) (hden : 0 < den) (n : Nat) :
    Holds (em >>> n) num (den * 2 ^ n) := by
  show Holds (n.repeat ExtendedMantissa.shiftRightOne em) num (den * 2 ^ n)
  induction n with
  | zero => simpa [Nat.repeat] using h
  | succ n ih =>
    rw [Nat.repeat, Nat.pow_succ, ← Nat.mul_assoc]
    exact ih.shiftRightOne (Nat.mul_pos hden (Nat.two_pow_pos n))

/-- The bits round the fraction to the nearest integer, a half to the even one. -/
theorem roundedMantissa_eq (h : Holds em num den) (hden : 0 < den) :
    em.roundedMantissa = roundHalfEven num den := by
  obtain ⟨mantissa, roundBit, stickyBit⟩ := em
  obtain ⟨hmantissa, hround, hsticky⟩ := h
  dsimp only at hmantissa hround hsticky
  subst hmantissa
  unfold ExtendedMantissa.roundedMantissa roundHalfEven
  dsimp only
  -- The round bit tells whether a half is left, and the sticky bit whether it is not exactly one.
  cases roundBit with
  | false =>
    have hless : 2 * (num % den) < den := by simpa using hround
    rw [if_pos (.inl hless)]
    cases stickyBit <;> rfl
  | true =>
    have hhalf : den ≤ 2 * (num % den) := hround.1 rfl
    cases stickyBit with
    | false =>
      have heq : 2 * (num % den) = den := by
        by_contra hne
        exact absurd (hsticky.2 ⟨by omega, hne⟩) (by decide)
      show num / den + num / den % 2 = _
      split
      · omega
      · omega
    | true =>
      have hne := (hsticky.1 rfl).2
      rw [if_neg (by omega)]
      rfl

/-- An exact mantissa holds itself. -/
theorem exact (m : Nat) : Holds (.ofMantissaAndAccuracy m .exact) m 1 := by
  constructor
  · exact (Nat.div_one m).symm
  · simp [ExtendedMantissa.ofMantissaAndAccuracy, Nat.mod_one]
  · simp [ExtendedMantissa.ofMantissaAndAccuracy, Nat.mod_one]

/-- A quotient with the accuracy of its remainder holds the fraction. -/
theorem fraction (num : Nat) (hden : 0 < den) :
    Holds (.ofMantissaAndAccuracy (num / den) (accuracyOfFraction (num % den) den)) num den := by
  unfold accuracyOfFraction
  -- The accuracy tells a remainder of nothing from one below, at and above a half.
  split
  · refine ⟨rfl, ?_, ?_⟩
    · simp only [ExtendedMantissa.ofMantissaAndAccuracy, Bool.false_eq_true, false_iff]
      omega
    · simp only [ExtendedMantissa.ofMantissaAndAccuracy, Bool.false_eq_true, false_iff]
      omega
  · cases hcompare : compare (2 * (num % den)) den with
    | lt =>
      rw [Nat.compare_eq_lt] at hcompare
      refine ⟨rfl, ?_, ?_⟩
      · simp only [ExtendedMantissa.ofMantissaAndAccuracy, Bool.false_eq_true, false_iff]
        omega
      · simp only [ExtendedMantissa.ofMantissaAndAccuracy, true_iff]
        omega
    | eq =>
      rw [Nat.compare_eq_eq] at hcompare
      refine ⟨rfl, ?_, ?_⟩
      · simp only [ExtendedMantissa.ofMantissaAndAccuracy, true_iff]
        omega
      · simp only [ExtendedMantissa.ofMantissaAndAccuracy, Bool.false_eq_true, false_iff]
        omega
    | gt =>
      rw [Nat.compare_eq_gt] at hcompare
      refine ⟨rfl, ?_, ?_⟩
      · simp only [ExtendedMantissa.ofMantissaAndAccuracy, true_iff]
        omega
      · simp only [ExtendedMantissa.ofMantissaAndAccuracy, true_iff]
        omega

end Holds

/-! ## Fractions of the grain -/

namespace Format

/-- The code of the magnitude nearest to a fraction of the smallest positive one. -/
def nearestUnits (f : Format) (num den : Nat) : Nat :=
  let shift := (num / den).log2 - f.fractionBits
  min f.infinity (roundHalfEven num (den * 2 ^ shift) + shift * f.exponentUnit)

theorem nearest_eq_nearestUnits (f : Format) (num den : Nat) :
    f.nearest num den = f.nearestUnits (num * 2 ^ f.grain) den := rfl

/-- The nearest magnitude depends on the fraction only. -/
theorem nearestUnits_congr (f : Format) {num den num' den' : Nat} (hden : 0 < den)
    (hden' : 0 < den') (h : num * den' = num' * den) :
    f.nearestUnits num den = f.nearestUnits num' den' := by
  have hscale : ∀ {k : Nat}, 0 < k → ∀ num den,
      f.nearestUnits (k * num) (k * den) = f.nearestUnits num den := by
    intro k hk num den
    unfold nearestUnits
    dsimp only
    rw [Nat.mul_div_mul_left _ _ hk, Nat.mul_assoc k den, roundHalfEven_mul hk]
  calc f.nearestUnits num den = f.nearestUnits (den' * num) (den' * den) := (hscale hden' ..).symm
    _ = f.nearestUnits (den * num') (den * den') := by
      rw [Nat.mul_comm den' num, h, Nat.mul_comm num' den, Nat.mul_comm den' den]
    _ = f.nearestUnits num' den' := hscale hden ..

end Format

/-! ## Shifting to the last place -/

/-- The place of the last bit of a result: the 53rd of the mantissa, or that of the grain. -/
def lastPlace (m : Nat) (e : Int) : Int := max (m.log2 + e - 52) (-1074)

theorem targetExponent_eq (m : Nat) (e : Int) :
    Float.Model.Format.binary64.targetExponent (totalExponent m e) = lastPlace m e := by
  show max ((m.log2 : Int) + 1 + e - 53) (-1074) = max ((m.log2 : Int) + e - 52) (-1074)
  omega

theorem shiftToTargetExponent_eq {m : Nat} {e : Int} {accuracy : Accuracy} {num den : Nat}
    (h : Holds (.ofMantissaAndAccuracy m accuracy) num den) (hden : 0 < den)
    (hplace : e ≤ lastPlace m e) :
    Holds (shiftToTargetExponent .binary64 m e accuracy).1 num
        (den * 2 ^ (lastPlace m e - e).toNat) ∧
      (shiftToTargetExponent .binary64 m e accuracy).2 = lastPlace m e := by
  unfold shiftToTargetExponent shiftToExponent
  dsimp only
  rw [targetExponent_eq]
  exact ⟨h.shiftRight hden _, by omega⟩

/-! ## Codes of results -/

theorem toNat_packComponents {spec : Float.Model.Format} (exponent : BitVec spec.exponentBits)
    (mantissa : BitVec spec.mantissaBitsWithoutImplicit) :
    (packComponents spec .positive exponent mantissa).toNat =
      exponent.toNat * 2 ^ spec.mantissaBitsWithoutImplicit + mantissa.toNat := by
  have hsign : (Sign.positive.toBitVec ++ exponent).toNat = exponent.toNat := by
    rw [BitVec.toNat_append]
    simp [Sign.toBitVec]
  rw [packComponents, BitVec.toNat_append, ← Nat.shiftLeft_add_eq_or_of_lt mantissa.isLt, hsign,
    Nat.shiftLeft_eq]

/-- A magnitude in its place is packed as its code, and one that is too large as infinity. -/
theorem pack_finite {m : Nat} {e : Int} (hm : 0 < m) (hlt : m < 2 ^ 53) (hmin : -1074 ≤ e)
    (hnormal : 2 ^ 52 ≤ m ∨ e = -1074) :
    (pack .binary64 (.finite .positive m e hm)).toNat =
      min Format.binary64.infinity (m + (e + 1074).toNat * 2 ^ 52) := by
  have hinfinity : Format.binary64.infinity = 2047 * 2 ^ 52 := by decide
  have hexponent : Float.Model.Format.binary64.exponentBits = 11 := rfl
  have hfraction : Float.Model.Format.binary64.mantissaBitsWithoutImplicit = 52 := rfl
  have hbias : Float.Model.Format.binary64.exponentBias = 1023 := rfl
  rw [hinfinity]
  have hbiased : (e + (1023 : Nat) + (52 : Nat)).toNat = (e + 1074).toNat + 1 := by omega
  show (if 2 ^ 11 ≤ (e + (1023 : Nat) + (52 : Nat)).toNat + 1 then _
    else if m.log2 + 1 = 53 then _ else _ : BitVec 64).toNat = _
  rw [hbiased]
  split
  · have hcode : (packedInfinity .binary64 .positive).toNat = 2047 * 2 ^ 52 := by decide
    rw [hcode, Nat.min_eq_left (by omega)]
  · split
    · next hfits hlog =>
      have hge : 2 ^ 52 ≤ m := by
        have := Nat.log2_self_le hm.ne'
        rwa [show m.log2 = 52 by omega] at this
      rw [toNat_packComponents, BitVec.toNat_ofNat, BitVec.toNat_ofNat, hexponent, hbias,
        hfraction, hbiased, Nat.min_eq_right (by omega)]
      omega
    -- without its leading bit the number is below the normal ones
    · next hfits hlog =>
      have hless : m < 2 ^ 52 := by
        by_contra hge
        have := (Nat.le_log2 hm.ne').2 (Nat.not_lt.1 hge)
        have := (Nat.log2_lt hm.ne').2 hlt
        omega
      rw [toNat_packComponents, BitVec.toNat_zero, BitVec.toNat_ofNat, hfraction,
        Nat.min_eq_right (by omega)]
      omega

/-- A rounded mantissa that has come to one bit more is shifted once more. -/
theorem pack_settled {m : Nat} {e : Int} (hm : m ≤ 2 ^ 53) (hmin : -1074 ≤ e)
    (hnormal : 2 ^ 52 ≤ m ∨ e = -1074) {em : ExtendedMantissa} {place : Int}
    (hshift : shiftToTargetExponent .binary64 m e .exact = (em, place)) :
    (pack .binary64 (if h : em.mantissa = 0 then .zero .positive
      else .finite .positive em.mantissa place (Nat.pos_of_ne_zero h))).toNat =
        min Format.binary64.infinity (m + (e + 1074).toNat * 2 ^ 52) := by
  have hlog : 2 ^ 52 ≤ m → 52 ≤ m.log2 := fun hle => (Nat.le_log2 (by omega)).2 hle
  have hplace : e ≤ lastPlace m e := by
    unfold lastPlace
    omega
  obtain ⟨hholds, hlast⟩ := shiftToTargetExponent_eq (Holds.exact m) Nat.one_pos hplace
  rw [hshift, Nat.one_mul] at hholds
  rw [hshift] at hlast
  dsimp only at hholds hlast
  have hmantissa := hholds.mantissa
  rcases hm.lt_or_eq with hlt | rfl
  -- nothing is shifted out
  · have hless : m ≠ 0 → m.log2 < 53 := fun hne => (Nat.log2_lt hne).2 hlt
    have hsame : lastPlace m e = e := by
      by_cases hzero : m = 0
      · rw [hzero, lastPlace, Nat.log2_zero]
        omega
      · have := hless hzero
        unfold lastPlace
        omega
    rw [hsame, Int.sub_self, Int.toNat_zero, Nat.pow_zero, Nat.div_one] at hmantissa
    rw [hsame] at hlast
    subst hlast
    rw [hmantissa]
    split
    · next hzero =>
      have hcode : (pack .binary64 (.zero .positive)).toNat = 0 := by decide
      rw [hcode, hzero, Nat.min_eq_right (by omega)]
      omega
    · next hpos => exact pack_finite (Nat.pos_of_ne_zero hpos) hlt hmin hnormal
  · have hnext : lastPlace (2 ^ 53) e = e + 1 := by
      rw [lastPlace, Nat.log2_two_pow]
      omega
    rw [hnext, show (e + 1 - e).toNat = 1 by omega] at hmantissa
    rw [hnext] at hlast
    subst hlast
    have hhalf : em.mantissa = 2 ^ 52 := by
      rw [hmantissa]
      decide
    rw [dif_neg (by omega), pack_finite (Nat.pos_of_ne_zero (by omega)) (by omega) (by omega)
      (.inl (by omega)), hhalf]
    congr 1
    omega

/-! ## Results of operations -/

theorem div_le_roundHalfEven (num den : Nat) :
    num / den ≤ roundHalfEven num den ∧ roundHalfEven num den ≤ num / den + 1 := by
  unfold roundHalfEven
  dsimp only
  split
  · omega
  · omega

/-- A quotient that is scaled up or down by powers of two has its magnitude shifted. -/
theorem log2_scaled_div {num den place a b : Nat} (hden : 0 < den) (hlow : 2 ^ place * den ≤ num)
    (hhigh : num * 2 ^ a < den * 2 ^ (place + 1 + a)) (hle : b ≤ place + a) :
    (num * 2 ^ a / (den * 2 ^ b)).log2 = place + a - b := by
  have hpos : 0 < den * 2 ^ b := Nat.mul_pos hden (Nat.two_pow_pos b)
  have hlower : 2 ^ (place + a - b) ≤ num * 2 ^ a / (den * 2 ^ b) := by
    rw [Nat.le_div_iff_mul_le hpos, Nat.mul_left_comm, ← Nat.pow_add,
      Nat.sub_add_cancel hle, Nat.pow_add, ← Nat.mul_assoc, Nat.mul_comm den]
    exact Nat.mul_le_mul_right _ hlow
  have hupper : num * 2 ^ a / (den * 2 ^ b) < 2 ^ (place + a - b + 1) := by
    rw [Nat.div_lt_iff_lt_mul hpos, Nat.mul_left_comm, ← Nat.pow_add]
    rwa [show place + a - b + 1 + b = place + 1 + a by omega]
  exact (Nat.log2_eq_iff ((Nat.two_pow_pos _).trans_le hlower).ne').2 ⟨hlower, hupper⟩

/-- The spacing that `Format.nearestUnits` finds at a fraction is that of the last place. -/
theorem log2_fraction {m num den : Nat} {e : Int} (hm : m = num / den) (hden : 0 < den)
    (hplace : e ≤ lastPlace m e) {a b : Nat} (hab : (a : Int) - b = e + 1074) :
    (num * 2 ^ a / (den * 2 ^ b)).log2 - 52 = (lastPlace m e + 1074).toNat := by
  have hsmall : num * 2 ^ a < den * 2 ^ b → lastPlace m e = -1074 →
      (num * 2 ^ a / (den * 2 ^ b)).log2 - 52 = (lastPlace m e + 1074).toNat := by
    intro hlt hlast
    rw [Nat.div_eq_of_lt hlt, hlast, Nat.log2_zero]
    omega
  -- Without a bit before the point the last place is the least there is.
  by_cases hzero : m = 0
  · have hnum : num < den := by
      rw [hm] at hzero
      exact (Nat.div_eq_zero_iff_lt hden).1 hzero
    have hlast : lastPlace m e = -1074 := by
      rw [hzero, lastPlace, Nat.log2_zero] at hplace ⊢
      omega
    refine hsmall ?_ hlast
    calc num * 2 ^ a < den * 2 ^ a := Nat.mul_lt_mul_of_pos_right hnum (Nat.two_pow_pos a)
      _ ≤ den * 2 ^ b := Nat.mul_le_mul_left den (Nat.pow_le_pow_right (by decide) (by omega))
  · have hlow : 2 ^ m.log2 * den ≤ num :=
      (Nat.le_div_iff_mul_le hden).1 (hm ▸ Nat.log2_self_le hzero)
    have hhigh : num < 2 ^ (m.log2 + 1) * den :=
      (Nat.div_lt_iff_lt_mul hden).1 (hm ▸ Nat.lt_log2_self)
    have hscaled : num * 2 ^ a < den * 2 ^ (m.log2 + 1 + a) := by
      rw [Nat.pow_add, ← Nat.mul_assoc, Nat.mul_comm den]
      exact Nat.mul_lt_mul_of_pos_right hhigh (Nat.two_pow_pos a)
    by_cases hle : b ≤ m.log2 + a
    · rw [log2_scaled_div hden hlow hscaled hle, lastPlace]
      omega
    · refine hsmall ?_ (by unfold lastPlace; omega)
      exact hscaled.trans_le
        (Nat.mul_le_mul_left den (Nat.pow_le_pow_right (by decide) (by omega)))

/-- What is rounded to its last place is packed as the code of the nearest magnitude. The fraction
    is given in units of the place of the mantissa, which is no later than the last one. -/
theorem pack_roundWithAccuracy {m num den : Nat} {e : Int} {accuracy : Accuracy}
    (h : Holds (.ofMantissaAndAccuracy m accuracy) num den) (hden : 0 < den)
    (hplace : e ≤ lastPlace m e) {a b : Nat} (hab : (a : Int) - b = e + 1074) :
    (pack .binary64 (roundWithAccuracy .binary64 .positive m e accuracy)).toNat =
      Format.binary64.nearestUnits (num * 2 ^ a) (den * 2 ^ b) := by
  have hm : m = num / den := by
    have := h.mantissa
    cases accuracy with
    | exact => exact this
    | inexact order => cases order <;> exact this
  obtain ⟨hholds, hlast⟩ := shiftToTargetExponent_eq h hden hplace
  have hrounded := hholds.roundedMantissa_eq (Nat.mul_pos hden (Nat.two_pow_pos _))
  have hmin : -1074 ≤ lastPlace m e := le_max_right _ _
  generalize hplaces : (lastPlace m e - e).toNat = places at hholds hrounded
  -- the spacing, and the fraction in units of it, are the same on both sides
  have hspacing : (num * 2 ^ a / (den * 2 ^ b)).log2 - Format.binary64.fractionBits =
      (lastPlace m e + 1074).toNat := log2_fraction hm hden hplace hab
  have hfraction : roundHalfEven (num * 2 ^ a)
      (den * 2 ^ b * 2 ^ (lastPlace m e + 1074).toNat) =
        roundHalfEven num (den * 2 ^ places) := by
    have hpower : den * 2 ^ b * 2 ^ (lastPlace m e + 1074).toNat =
        2 ^ a * (den * 2 ^ places) := by
      rw [Nat.mul_assoc, ← Nat.pow_add, Nat.mul_left_comm, ← Nat.pow_add]
      congr 2
      omega
    rw [hpower, Nat.mul_comm num, roundHalfEven_mul (Nat.two_pow_pos a)]
  have hunit : Format.binary64.exponentUnit = 2 ^ 52 := rfl
  rw [Format.nearestUnits]
  rw [hspacing, hfraction, hunit]
  -- the rounded mantissa has at most one bit too many, and is normal past the last place
  have hquotient : num / (den * 2 ^ places) = m / 2 ^ places := by
    rw [hm, Nat.div_div_eq_div_mul]
  obtain ⟨hge, hle⟩ := div_le_roundHalfEven num (den * 2 ^ places)
  rw [hquotient] at hge hle
  have hupper : m / 2 ^ places < 2 ^ 53 := by
    rw [Nat.div_lt_iff_lt_mul (Nat.two_pow_pos places), ← Nat.pow_add]
    refine Nat.lt_log2_self.trans_le (Nat.pow_le_pow_right (by decide) ?_)
    have : (m.log2 : Int) + e - 52 ≤ lastPlace m e := le_max_left _ _
    omega
  have hlower : 2 ^ 52 ≤ m / 2 ^ places ∨ lastPlace m e = -1074 := by
    rcases le_total ((m.log2 : Int) + e - 52) (-1074) with hsmall | hlarge
    · exact .inr (max_eq_right hsmall)
    · have hlast : lastPlace m e = m.log2 + e - 52 := max_eq_left hlarge
      refine .inl ((Nat.le_div_iff_mul_le (Nat.two_pow_pos places)).2 ?_)
      have hbits : 52 + places = m.log2 := by omega
      rw [← Nat.pow_add, hbits]
      exact Nat.log2_self_le fun hzero => by
        rw [hzero, Nat.log2_zero] at hbits
        omega
  unfold roundWithAccuracy
  dsimp only
  rw [hrounded, hlast]
  refine pack_settled (by omega) hmin ?_ rfl
  rcases hlower with hlower | hlower
  · exact .inl (hlower.trans hge)
  · exact .inr hlower

/-! ## Numbers by their codes -/

/-- The magnitude with the given code. -/
def ofCode (code : Nat) : Float := Float.ofBits (UInt64.ofNat code)

theorem eq_ofCode {x : Float} {code : Nat} (h : x.toBits.toNat = code)
    (hle : code ≤ Format.binary64.infinity) : x = ofCode code := by
  subst h
  exact eq_ofBits_of_le hle

theorem toBits_ofCode {code : Nat} (h : code ≤ Format.binary64.infinity) :
    (ofCode code).toBits.toBitVec = BitVec.ofNat 64 code := by
  have hinfinity : Format.binary64.infinity = 2047 * 2 ^ 52 := by decide
  apply BitVec.eq_of_toNat_eq
  rw [BitVec.toNat_ofNat, Nat.mod_eq_of_lt (by omega)]
  exact toNat_toBits_ofBits h

theorem significand_pos {f : Format} {code : Nat} (h : 0 < code) : 0 < f.significand code :=
  Nat.pos_of_mul_pos_right (Format.units_pos h)

theorem toNat_unpackSign {spec : Float.Model.Format} (b : BitVec spec.numBits) :
    (unpackSign b).toNat =
      b.toNat / 2 ^ (spec.mantissaBitsWithoutImplicit + spec.exponentBits) % 2 := by
  rw [unpackSign, BitVec.toNat_cast, BitVec.extractLsb_toNat, Nat.shiftRight_eq_div_pow,
    Nat.sub_self]

theorem finite_congr {s s' : Sign} {m m' : Nat} {e e' : Int} {hm : 0 < m} {hm' : 0 < m'}
    (hs : s = s') (hmantissa : m = m') (he : e = e') :
    Float.Model.UnpackedFloat.finite s m e hm = .finite s' m' e' hm' := by
  subst hs hmantissa he
  rfl

/-! ### Fields of the bits of a code, with either sign -/

section

variable {b : BitVec 64} {code : Nat}

theorem toNat_exponent_of_code (h : b.toNat % 2 ^ 63 = code) :
    (@unpackExponent .binary64 b).toNat = code / 2 ^ 52 := by
  rw [toNat_unpackExponent]
  show b.toNat / 2 ^ 52 % 2 ^ 11 = _
  omega

theorem toNat_mantissa_of_code (h : b.toNat % 2 ^ 63 = code) :
    (@unpackMantissa .binary64 b).toNat = code % 2 ^ 52 := by
  rw [toNat_unpackMantissa]
  show b.toNat % 2 ^ 52 = _
  omega

/-- The exponent of ones belongs to infinity and to what is no number. -/
theorem exponent_ne_of_code (h : b.toNat % 2 ^ 63 = code)
    (hlt : code < Format.binary64.infinity) : @unpackExponent .binary64 b ≠ -1#_ := by
  have hinfinity : Format.binary64.infinity = 2047 * 2 ^ 52 := by decide
  have hbits : Float.Model.Format.binary64.exponentBits = 11 := rfl
  intro hones
  have hvalue := congrArg BitVec.toNat hones
  rw [toNat_exponent_of_code h, BitVec.neg_one_eq_allOnes, BitVec.toNat_allOnes, hbits] at hvalue
  omega

end

/-- The stored bits of a positive magnitude, with either sign, are its significand in its place. -/
theorem unpack_finite {b : BitVec 64} {code : Nat} (hcode : b.toNat % 2 ^ 63 = code)
    (hpos : 0 < code) (hlt : code < Format.binary64.infinity) :
    unpack .binary64 b = .finite (Sign.ofBitVec (@unpackSign .binary64 b))
      (Format.binary64.significand code) (Format.binary64.shift code - 1074)
        (significand_pos hpos) := by
  have hshift : Format.binary64.shift code = code / 2 ^ 52 - 1 := rfl
  have hsignificand : Format.binary64.significand code = code - (code / 2 ^ 52 - 1) * 2 ^ 52 := rfl
  have hexponent := toNat_exponent_of_code hcode
  have hmantissa := toNat_mantissa_of_code hcode
  have hbias : (Float.Model.Format.binary64.exponentBias : Int) +
      Float.Model.Format.binary64.mantissaBitsWithoutImplicit = 1075 := rfl
  unfold unpack
  dsimp only
  rw [if_neg (exponent_ne_of_code hcode hlt)]
  split
  -- A number below the normal ones has only its mantissa, which is not zero.
  · next hzero =>
    have hsmall : code / 2 ^ 52 = 0 := by
      rw [← hexponent, hzero]
      rfl
    have hne : @unpackMantissa .binary64 b ≠ 0#_ := by
      intro hnone
      have := congrArg BitVec.toNat hnone
      rw [hmantissa, BitVec.toNat_zero] at this
      omega
    rw [dif_neg hne]
    refine finite_congr rfl ?_ ?_
    · rw [hmantissa, hsignificand]
      omega
    · rw [hexponent, hbias, hshift]
      omega
  -- A normal number has the bit in front of its mantissa too.
  · next hnormal =>
    have hlarge : code / 2 ^ 52 ≠ 0 := by
      intro hzero
      refine hnormal (BitVec.eq_of_toNat_eq ?_)
      rw [hexponent, hzero]
      rfl
    refine finite_congr rfl ?_ ?_
    · rw [BitVec.toNat_append, ← Nat.shiftLeft_add_eq_or_of_lt (BitVec.isLt _), hmantissa,
        hsignificand]
      show 1 <<< 52 + code % 2 ^ 52 = _
      rw [Nat.shiftLeft_eq]
      omega
    · rw [hexponent, hbias, hshift]
      omega

/-- What is packed for a magnitude keeps its sign and its code. -/
theorem unpack_ofCode {code : Nat} (hpos : 0 < code) (hlt : code < Format.binary64.infinity) :
    unpack .binary64 (ofCode code).toBits.toBitVec = .finite .positive
      (Format.binary64.significand code) (Format.binary64.shift code - 1074)
        (significand_pos hpos) := by
  have hinfinity : Format.binary64.infinity = 2047 * 2 ^ 52 := by decide
  rw [toBits_ofCode hlt.le]
  have hcode : (BitVec.ofNat 64 code).toNat = code := by
    rw [BitVec.toNat_ofNat, Nat.mod_eq_of_lt (by omega)]
  have hsign : @unpackSign .binary64 (BitVec.ofNat 64 code) = 0#1 := by
    apply BitVec.eq_of_toNat_eq
    rw [toNat_unpackSign]
    show (BitVec.ofNat 64 code).toNat / 2 ^ 63 % 2 = 0
    rw [hcode]
    omega
  rw [unpack_finite (by rw [hcode]; omega) hpos hlt]
  exact finite_congr (by rw [hsign]; rfl) rfl rfl

/-! ## Operations -/

theorem Format.nearest_le_infinity (f : Format) (num den : Nat) : f.nearest num den ≤ f.infinity :=
  Nat.min_le_left _ _

theorem Format.nearest_zero (f : Format) (den : Nat) : f.nearest 0 den = 0 := by
  have hround : ∀ den, roundHalfEven 0 den = 0 := by simp +contextual [roundHalfEven]
  rw [nearest_eq_nearestUnits, nearestUnits, Nat.zero_mul, Nat.zero_div, Nat.log2_zero,
    Nat.zero_sub, hround, Nat.zero_mul, Nat.min_zero]

theorem unpack_ofCode_zero : unpack .binary64 (ofCode 0).toBits.toBitVec = .zero .positive := by
  rfl

/-- A significand is normal past the first place. -/
theorem log2_significand {code : Nat} (h : 0 < code) :
    52 ≤ (Format.binary64.significand code).log2 ∨ Format.binary64.shift code = 0 := by
  by_cases hshift : Format.binary64.shift code = 0
  · exact .inr hshift
  · exact .inl ((Nat.le_log2 (significand_pos h).ne').2
      ((Format.significand_bounds code).2 hshift))

theorem le_log2_mul {m n : Nat} (hm : 0 < m) (hn : 0 < n) : m.log2 ≤ (m * n).log2 :=
  (Nat.le_log2 (Nat.mul_pos hm hn).ne').2
    ((Nat.log2_self_le hm.ne').trans (Nat.le_mul_of_pos_right m hn))

theorem pack_mul {m n s t : Nat} (hm : 0 < m) (hn : 0 < n) (hmplace : 52 ≤ m.log2 ∨ s = 0)
    (hnplace : 52 ≤ n.log2 ∨ t = 0) :
    (pack .binary64 (mul .binary64 (.finite .positive m (s - 1074) hm)
      (.finite .positive n (t - 1074) hn))).toNat =
        Format.binary64.nearest (m * 2 ^ s * (n * 2 ^ t))
          (2 ^ Format.binary64.grain * 2 ^ Format.binary64.grain) := by
  have hgrain : Format.binary64.grain = 1074 := rfl
  have hmlog := le_log2_mul hm hn
  have hnlog := Nat.mul_comm n m ▸ le_log2_mul hn hm
  -- One factor has all its bits or both stand at the last place, so no bit of the product is below
  -- it.
  have hplace : (s : Int) - 1074 + (t - 1074) ≤ lastPlace (m * n) (s - 1074 + (t - 1074)) := by
    unfold lastPlace
    omega
  have hround := pack_roundWithAccuracy (Holds.exact (m * n)) Nat.one_pos hplace
    (a := s + t) (b := Format.binary64.grain) (by omega)
  rw [Format.nearest_eq_nearestUnits]
  refine hround.trans (Format.nearestUnits_congr _ ?_ ?_ ?_)
  · exact Nat.mul_pos Nat.one_pos (Nat.two_pow_pos _)
  · exact Nat.mul_pos (Nat.two_pow_pos _) (Nat.two_pow_pos _)
  · generalize 2 ^ Format.binary64.grain = unit
    rw [Nat.pow_add]
    ring

/-- The product of two finite magnitudes is the magnitude nearest to the exact product. -/
theorem ofCode_mul {a b : Nat} (ha : a < Format.binary64.infinity)
    (hb : b < Format.binary64.infinity) :
    ofCode a * ofCode b = ofCode (Format.binary64.nearest
      (Format.binary64.units a * Format.binary64.units b)
        (2 ^ Format.binary64.grain * 2 ^ Format.binary64.grain)) := by
  refine eq_ofCode ?_ (Format.nearest_le_infinity ..)
  show (pack .binary64 (mul .binary64 (unpack .binary64 (ofCode a).toBits.toBitVec)
    (unpack .binary64 (ofCode b).toBits.toBitVec))).toNat = _
  -- A zero among the factors stays aside, for it has no significand.
  have hzero : (pack .binary64 (.zero .positive)).toNat = 0 := by decide
  have hunits : Format.binary64.units 0 = 0 := rfl
  rcases Nat.eq_zero_or_pos a with rfl | hapos
  · rw [unpack_ofCode_zero, hunits, Nat.zero_mul, Format.nearest_zero]
    rcases Nat.eq_zero_or_pos b with rfl | hbpos
    · rw [unpack_ofCode_zero]
      exact hzero
    · rw [unpack_ofCode hbpos hb]
      exact hzero
  rcases Nat.eq_zero_or_pos b with rfl | hbpos
  · rw [unpack_ofCode_zero, hunits, Nat.mul_zero, Format.nearest_zero, unpack_ofCode hapos ha]
    exact hzero
  · rw [unpack_ofCode hapos ha, unpack_ofCode hbpos hb]
    exact pack_mul (significand_pos hapos) (significand_pos hbpos) (log2_significand hapos)
      (log2_significand hbpos)

/-- The quotient is taken far enough for its last place. -/
theorem le_lastPlace_div {m n k : Nat} {e : Int} (hm : 0 < m) (hn : 0 < n)
    (he : e ≤ -1074 ∨ n.log2 + 53 ≤ m.log2 + k) : e ≤ lastPlace ((m <<< k) / n) e := by
  rcases he with he | he
  · exact he.trans (le_max_right _ _)
  · have hquotient : 2 ^ 52 ≤ (m <<< k) / n := by
      rw [Nat.le_div_iff_mul_le hn, Nat.shiftLeft_eq]
      calc 2 ^ 52 * n ≤ 2 ^ 52 * 2 ^ (n.log2 + 1) := Nat.mul_le_mul_left _ Nat.lt_log2_self.le
        _ = 2 ^ (52 + (n.log2 + 1)) := (Nat.pow_add ..).symm
        _ ≤ 2 ^ (m.log2 + k) := Nat.pow_le_pow_right (by decide) (by omega)
        _ = 2 ^ m.log2 * 2 ^ k := Nat.pow_add ..
        _ ≤ m * 2 ^ k := Nat.mul_le_mul_right _ (Nat.log2_self_le hm.ne')
    have hlog := (Nat.le_log2 (by omega)).2 hquotient
    unfold lastPlace
    omega

theorem pack_div {m n s t : Nat} (hm : 0 < m) (hn : 0 < n) :
    (pack .binary64 (div .binary64 (.finite .positive m (s - 1074) hm)
      (.finite .positive n (t - 1074) hn))).toNat =
        Format.binary64.nearest (m * 2 ^ s) (n * 2 ^ t) := by
  have hgrain : Format.binary64.grain = 1074 := rfl
  -- the place that the quotient is taken to
  obtain ⟨e, he⟩ : ∃ e, e = min ((s : Int) - 1074 - (t - 1074))
      (Float.Model.Format.binary64.targetExponent
        (totalExponent m (s - 1074) - totalExponent n (t - 1074))) := ⟨_, rfl⟩
  have htarget : Float.Model.Format.binary64.targetExponent
      (totalExponent m (s - 1074) - totalExponent n (t - 1074)) =
        max ((m.log2 : Int) + s - (n.log2 + t) - 53) (-1074) := by
    show max ((m.log2 : Int) + 1 + (s - 1074) - (n.log2 + 1 + (t - 1074)) - 53) (-1074) = _
    omega
  have hcore : divCore .binary64 m (s - 1074) n (t - 1074) =
      ((m <<< ((s : Int) - 1074 - (t - 1074) - e).toNat) / n, e,
        accuracyOfFraction ((m <<< ((s : Int) - 1074 - (t - 1074) - e).toNat) % n) n) := by
    rw [he]
    rfl
  rw [htarget] at he
  generalize hk : ((s : Int) - 1074 - (t - 1074) - e).toNat = k at hcore
  have hplace : e ≤ lastPlace ((m <<< k) / n) e := by
    refine le_lastPlace_div hm hn ?_
    omega
  have hround := pack_roundWithAccuracy (Holds.fraction (m <<< k) hn) hn hplace
    (a := (e + 1074).toNat) (b := (-(e + 1074)).toNat) (by omega)
  rw [div, hcore, Format.nearest_eq_nearestUnits]
  refine hround.trans (Format.nearestUnits_congr _ ?_ ?_ ?_)
  · exact Nat.mul_pos hn (Nat.two_pow_pos _)
  · exact Nat.mul_pos hn (Nat.two_pow_pos _)
  · have hpower : k + (e + 1074).toNat + t = s + Format.binary64.grain + (-(e + 1074)).toNat := by
      omega
    calc m <<< k * 2 ^ (e + 1074).toNat * (n * 2 ^ t)
        = m * n * 2 ^ (k + (e + 1074).toNat + t) := by
          rw [Nat.shiftLeft_eq, Nat.pow_add, Nat.pow_add]
          ring
      _ = m * 2 ^ s * 2 ^ Format.binary64.grain * (n * 2 ^ (-(e + 1074)).toNat) := by
          rw [hpower, Nat.pow_add, Nat.pow_add]
          ring

/-- The quotient of two finite magnitudes is the magnitude nearest to the exact quotient. -/
theorem ofCode_div {a b : Nat} (ha : a < Format.binary64.infinity) (hbpos : 0 < b)
    (hb : b < Format.binary64.infinity) :
    ofCode a / ofCode b = ofCode (Format.binary64.nearest (Format.binary64.units a)
      (Format.binary64.units b)) := by
  refine eq_ofCode ?_ (Format.nearest_le_infinity ..)
  show (pack .binary64 (div .binary64 (unpack .binary64 (ofCode a).toBits.toBitVec)
    (unpack .binary64 (ofCode b).toBits.toBitVec))).toNat = _
  rcases Nat.eq_zero_or_pos a with rfl | hapos
  · have hzero : (pack .binary64 (.zero .positive)).toNat = 0 := by decide
    have hunits : Format.binary64.units 0 = 0 := rfl
    rw [unpack_ofCode_zero, unpack_ofCode hbpos hb, hunits, Format.nearest_zero]
    exact hzero
  · rw [unpack_ofCode hapos ha, unpack_ofCode hbpos hb]
    exact pack_div (significand_pos hapos) (significand_pos hbpos)

theorem log2_shiftLeft {n : Nat} (h : 0 < n) (k : Nat) : (n <<< k).log2 = n.log2 + k := by
  induction k with
  | zero => rfl
  | succ k ih =>
    have hpos : n <<< k ≠ 0 := (Nat.shiftLeft_pos_iff.2 h).ne'
    rw [Nat.shiftLeft_succ, Nat.log2_two_mul hpos, ih, Nat.add_assoc]

/-- An integer of the machine becomes the magnitude nearest to it. -/
theorem toFloat_ofNat {n : Nat} (hn : n < UInt64.size) :
    (UInt64.ofNat n).toFloat = ofCode (Format.binary64.nearest n 1) := by
  refine eq_ofCode ?_ (Format.nearest_le_infinity ..)
  have hvalue : (UInt64.ofNat n).toNat = n := by
    rw [UInt64.toNat_ofNat', Nat.mod_eq_of_lt hn]
  show (pack .binary64 (Float.Model.UnpackedFloat.normalize .binary64
    ((UInt64.ofNat n).toNat : Int) 0 .positive)).toNat = _
  rw [hvalue, Float.Model.UnpackedFloat.normalize]
  rcases Nat.eq_zero_or_pos n with rfl | hpos
  · rw [Format.nearest_zero]
    decide
  · have hcompare : compare (n : Int) 0 = .gt := Int.compare_eq_gt.2 (by omega)
    rw [hcompare]
    dsimp only
    rw [Int.toNat_natCast, Float.Model.UnpackedFloat.round, targetExponent_eq, decreaseExponent]
    dsimp only
    -- The integer is written with as many places as its rounding asks for.
    generalize hk : (0 - lastPlace n 0).toNat = k
    have hlog := log2_shiftLeft hpos k
    have hplace : (0 : Int) - k ≤ lastPlace (n <<< k) (0 - k) := by
      unfold lastPlace at hk ⊢
      rw [hlog]
      omega
    have hgrain : Format.binary64.grain = 1074 := rfl
    have hk' : k ≤ 1074 := by
      unfold lastPlace at hk
      omega
    have hround := pack_roundWithAccuracy (Holds.exact (n <<< k)) Nat.one_pos hplace
      (a := Format.binary64.grain - k) (b := 0) (by omega)
    rw [Format.nearest_eq_nearestUnits]
    have hscale : n <<< k * 2 ^ (Format.binary64.grain - k) = n * 2 ^ Format.binary64.grain := by
      rw [Nat.shiftLeft_eq, Nat.mul_assoc, ← Nat.pow_add]
      congr 2
      omega
    rw [hscale] at hround
    exact hround

/-- A magnitude that is an integer of few bits is exact. -/
theorem exists_units_eq {n : Nat} (hn : n < 2 ^ 53) : ∃ code < Format.binary64.infinity,
    Format.binary64.units code = n * 2 ^ Format.binary64.grain := by
  have hinfinity : Format.binary64.infinity = 2047 * 2 ^ 52 := by decide
  rcases Nat.eq_zero_or_pos n with rfl | hpos
  · exact ⟨0, by omega, by rw [Nat.zero_mul]; rfl⟩
  -- The integer is moved up to its leading bit, which stands in the exponent of the code.
  have hlog : n.log2 ≤ 52 := Nat.le_of_lt_succ ((Nat.log2_lt hpos.ne').2 hn)
  have hlow : 2 ^ 52 ≤ n * 2 ^ (52 - n.log2) := by
    calc 2 ^ 52 = 2 ^ n.log2 * 2 ^ (52 - n.log2) := by
          rw [← Nat.pow_add, Nat.add_sub_cancel' hlog]
      _ ≤ n * 2 ^ (52 - n.log2) := Nat.mul_le_mul_right _ (Nat.log2_self_le hpos.ne')
  have hhigh : n * 2 ^ (52 - n.log2) < 2 ^ 53 := by
    calc n * 2 ^ (52 - n.log2) < 2 ^ (n.log2 + 1) * 2 ^ (52 - n.log2) :=
          Nat.mul_lt_mul_of_pos_right Nat.lt_log2_self (Nat.two_pow_pos _)
      _ = 2 ^ 53 := by rw [← Nat.pow_add]; congr 1; omega
  generalize hm : n * 2 ^ (52 - n.log2) = m at hlow hhigh
  refine ⟨m + (n.log2 + 1022) * 2 ^ 52, by omega, ?_⟩
  have hshift : Format.binary64.shift (m + (n.log2 + 1022) * 2 ^ 52) = n.log2 + 1022 := by
    show (m + (n.log2 + 1022) * 2 ^ 52) / 2 ^ 52 - 1 = _
    omega
  have hsignificand : Format.binary64.significand (m + (n.log2 + 1022) * 2 ^ 52) = m := by
    rw [Format.significand, hshift]
    exact Nat.add_sub_cancel ..
  have hgrain : 52 - n.log2 + (n.log2 + 1022) = Format.binary64.grain := by
    have : Format.binary64.grain = 1074 := rfl
    omega
  rw [Format.units_eq, hshift, hsignificand, ← hm, Nat.mul_assoc, ← Nat.pow_add, hgrain]

/-- Factors of the grain cancel. -/
theorem nearest_grain (num den : Nat) : Format.binary64.nearest (num * 2 ^ Format.binary64.grain)
    (den * 2 ^ Format.binary64.grain) = Format.binary64.nearest num den := by
  rw [Nat.mul_comm num, Nat.mul_comm den, Format.nearest_mul _ (Nat.two_pow_pos _)]

theorem nearest_of_units {code n : Nat} (hcode : code < Format.binary64.infinity)
    (hunits : Format.binary64.units code = n * 2 ^ Format.binary64.grain) :
    Format.binary64.nearest n 1 = code := by
  calc Format.binary64.nearest n 1
      = Format.binary64.nearest (n * 2 ^ Format.binary64.grain)
          (1 * 2 ^ Format.binary64.grain) := (nearest_grain n 1).symm
    _ = Format.binary64.nearest (Format.binary64.units code) (2 ^ Format.binary64.grain) := by
      rw [hunits, Nat.one_mul]
    _ = code := Format.nearest_units hcode

theorem isFinite_ofCode {code : Nat} (h : code < Format.binary64.infinity) :
    (ofCode code).isFinite = true := by
  show (unpack .binary64 (ofCode code).toBits.toBitVec).isFinite = true
  rcases Nat.eq_zero_or_pos code with rfl | hpos
  · rw [unpack_ofCode_zero]
    rfl
  · rw [unpack_ofCode hpos h]
    rfl

theorem isInf_of_isFinite {x : Float} (h : x.isFinite = true) : x.isInf = false := by
  change (unpack .binary64 x.toBits.toBitVec).isFinite = true at h
  show (unpack .binary64 x.toBits.toBitVec).isInf = false
  cases hx : unpack .binary64 x.toBits.toBitVec with
  | infinity => rw [hx] at h; cases h
  | _ => rfl

theorem isInf_ofCode {code : Nat} (h : code < Format.binary64.infinity) :
    (ofCode code).isInf = false :=
  isInf_of_isFinite (isFinite_ofCode h)

/-! ## Signs -/

theorem toNat_signed {code : Nat} (h : code < Format.binary64.infinity) :
    (BitVec.ofNat 64 (2 ^ 63 + code)).toNat = 2 ^ 63 + code := by
  have hinfinity : Format.binary64.infinity = 2047 * 2 ^ 52 := by decide
  rw [BitVec.toNat_ofNat, Nat.mod_eq_of_lt (by omega)]

/-- The bits of a code with the sign bit store the opposite of the number. -/
theorem unpack_signed {code : Nat} (h : code < Format.binary64.infinity) :
    unpack .binary64 (BitVec.ofNat 64 (2 ^ 63 + code)) =
      (unpack .binary64 (ofCode code).toBits.toBitVec).neg := by
  have hinfinity : Format.binary64.infinity = 2047 * 2 ^ 52 := by decide
  have hbits := toNat_signed h
  rcases Nat.eq_zero_or_pos code with rfl | hpos
  · rw [unpack_ofCode_zero]
    rfl
  · have hsign : @unpackSign .binary64 (BitVec.ofNat 64 (2 ^ 63 + code)) = 1#1 := by
      apply BitVec.eq_of_toNat_eq
      rw [toNat_unpackSign, hbits]
      show (2 ^ 63 + code) / 2 ^ 63 % 2 = 1
      omega
    rw [unpack_finite (by omega) hpos h, unpack_ofCode hpos h]
    exact finite_congr (by rw [hsign]; rfl) rfl rfl

theorem toBits_neg_ofCode {code : Nat} (h : code < Format.binary64.infinity) :
    (-ofCode code).toBits.toBitVec = BitVec.ofNat 64 (2 ^ 63 + code) := by
  have hinfinity : Format.binary64.infinity = 2047 * 2 ^ 52 := by decide
  have hcode : (BitVec.ofNat 64 (2 ^ 63 + code)).toNat % 2 ^ 63 = code := by
    rw [toNat_signed h]
    omega
  show pack .binary64 (unpack .binary64 (ofCode code).toBits.toBitVec).neg = _
  rw [← unpack_signed h]
  exact pack_unpack (by decide) fun hones => absurd hones (exponent_ne_of_code hcode h)

/-- The opposite of a number is of the same kind. -/
theorem isFinite_neg (x : Float.Model.UnpackedFloat) : x.neg.isFinite = x.isFinite := by
  cases x <;> rfl

theorem isFinite_neg_ofCode {code : Nat} (h : code < Format.binary64.infinity) :
    (-ofCode code).isFinite = true := by
  show (unpack .binary64 (-ofCode code).toBits.toBitVec).isFinite = true
  rw [toBits_neg_ofCode h, unpack_signed h, isFinite_neg]
  exact isFinite_ofCode h

/-- The exponent of a finite number is not all ones. -/
theorem exponent_ne_of_isFinite {spec : Float.Model.Format} {b : BitVec spec.numBits}
    (h : (unpack spec b).isFinite = true) :
    (unpackExponent b).toNat ≠ 2 ^ spec.exponentBits - 1 := by
  intro hones
  have hexponent : unpackExponent b = -1#_ := by
    apply BitVec.eq_of_toNat_eq
    rw [hones, BitVec.neg_one_eq_allOnes, BitVec.toNat_allOnes]
  unfold unpack at h
  dsimp only at h
  rw [if_pos hexponent] at h
  split at h
  · cases h
  · cases h

/-- A number that is finite has a finite code. -/
theorem code_lt_of_isFinite {x : Float} (h : x.isFinite = true) :
    (Format.binary64.unpack x.toBits.toNat).2 < Format.binary64.infinity := by
  have hexponent := @exponent_ne_of_isFinite .binary64 _ h
  rw [toNat_unpackExponent] at hexponent
  have hbits : x.toBits.toNat / 2 ^ 52 % 2 ^ 11 ≠ 2 ^ 11 - 1 := hexponent
  show x.toBits.toNat % 2 ^ 63 < (2 ^ 11 - 1) * 2 ^ 52
  omega

/-- A finite number is the magnitude of its code, with its sign. -/
theorem eq_signed_ofCode {x : Float} (hfinite : x.isFinite = true) {negative : Bool} {code : Nat}
    (hunpack : Format.binary64.unpack x.toBits.toNat = (negative, code)) :
    x = if negative then -ofCode code else ofCode code := by
  have hlt := code_lt_of_isFinite hfinite
  rw [hunpack] at hlt
  dsimp only at hlt
  obtain ⟨hnegative, hcode⟩ := Prod.mk.inj hunpack
  have hinfinity : Format.binary64.infinity = 2047 * 2 ^ 52 := by decide
  have hsignWeight : Format.binary64.signWeight = 2 ^ 63 := rfl
  rw [hsignWeight] at hnegative hcode
  cases negative with
  | false =>
    have hless : x.toBits.toNat < 2 ^ 63 := by simpa using hnegative
    rw [Nat.mod_eq_of_lt hless] at hcode
    exact eq_ofCode hcode hlt.le
  | true =>
    -- With the sign bit the bits are those of the opposite of the magnitude.
    have hge : 2 ^ 63 ≤ x.toBits.toNat := by simpa using hnegative
    have hbits : x.toBits.toNat < 2 ^ 64 := x.toBits.toNat_lt
    apply toBits_injective
    apply UInt64.toBitVec_inj.1
    show x.toBits.toBitVec = (-ofCode code).toBits.toBitVec
    rw [toBits_neg_ofCode hlt]
    apply BitVec.eq_of_toNat_eq
    rw [toNat_signed hlt]
    show x.toBits.toNat = 2 ^ 63 + code
    omega

end UnitCheck.Number
