import Mathlib.Tactic.Ring
import UnitCheck.Number.Shortest

/-!
  Rounding to a format depends on the amount only.

  `Format.nearest` sees a fraction, and `Format.nearestDecimal` a coefficient with an exponent;
  neither result changes when the amount is written in another way (`nearest_mul`,
  `nearestDecimal_mul_pow`). A magnitude of the format is its own nearest one
  (`nearest_units`), also when it is written out as a decimal (`nearestDecimal_exactDecimal`).
-/

namespace UnitCheck.Number

/-! ## The same amount -/

theorem roundHalfEven_mul {k : Nat} (hk : 0 < k) (num den : Nat) :
    roundHalfEven (k * num) (k * den) = roundHalfEven num den := by
  have hlt : 2 * (k * (num % den)) < k * den ↔ 2 * (num % den) < den := by
    rw [Nat.mul_left_comm]
    exact Nat.mul_lt_mul_left hk
  have heq : 2 * (k * (num % den)) = k * den ↔ 2 * (num % den) = den := by
    rw [Nat.mul_left_comm]
    exact Nat.mul_right_inj hk.ne'
  unfold roundHalfEven
  dsimp only
  rw [Nat.mul_div_mul_left _ _ hk, Nat.mul_mod_mul_left]
  simp only [hlt, heq]

theorem roundHalfEven_mul_self (n : Nat) {den : Nat} (hden : 0 < den) :
    roundHalfEven (n * den) den = n := by
  unfold roundHalfEven
  dsimp only
  rw [Nat.mul_div_cancel _ hden, Nat.mul_mod_left]
  simp [hden]

namespace Format

variable (f : Format)

theorem nearest_mul {k : Nat} (hk : 0 < k) (num den : Nat) :
    f.nearest (k * num) (k * den) = f.nearest num den := by
  unfold nearest
  dsimp only
  rw [Nat.mul_assoc k num, Nat.mul_div_mul_left _ _ hk, Nat.mul_assoc k den,
    roundHalfEven_mul hk]

theorem nearestDecimal_le_infinity (c : Nat) (exponent : Int) :
    f.nearestDecimal c exponent ≤ f.infinity := by
  unfold nearestDecimal
  split
  · exact Nat.zero_le _
  · split
    · exact Nat.le_refl _
    · split
      · exact Nat.zero_le _
      · exact Nat.min_le_left _ _

theorem digitCount_mul_ten {c : Nat} (hc : c ≠ 0) : digitCount (c * 10) = digitCount c + 1 := by
  have happend := Nat.toDigits_append_toDigits (b := 10) (d := 0) (by decide)
    (Nat.pos_of_ne_zero hc) (by decide)
  rw [digitCount, Nat.mul_comm, ← Nat.add_zero (10 * c), ← happend]
  simp [digitCount]

theorem nearestDecimal_mul_ten (c : Nat) (exponent : Int) :
    f.nearestDecimal (c * 10) exponent = f.nearestDecimal c (exponent + 1) := by
  by_cases hc : c = 0
  · rw [hc]
    rfl
  have hc' : c * 10 ≠ 0 := by omega
  have hcount : (digitCount (c * 10) : Int) + exponent = digitCount c + (exponent + 1) := by
    rw [digitCount_mul_ten hc]
    omega
  unfold nearestDecimal
  rw [if_neg hc, if_neg hc', hcount]
  split
  · rfl
  split
  · rfl
  simp only [Nat.pow_eq]
  rcases lt_or_ge exponent 0 with hneg | hpos
  -- The factor ten goes into the denominator.
  · obtain ⟨n, rfl⟩ := Int.eq_negSucc_of_lt_zero hneg
    have hn : (-(Int.negSucc n)).toNat = n + 1 := rfl
    have hn' : (-(Int.negSucc n + 1)).toNat = n := by omega
    have hz : (Int.negSucc n).toNat = 0 := rfl
    have hz' : (Int.negSucc n + 1).toNat = 0 := by omega
    rw [hn, hn', hz, hz', Nat.pow_zero, Nat.mul_one, Nat.mul_one, Nat.pow_succ,
      Nat.mul_comm c, Nat.mul_comm _ 10]
    exact nearest_mul f (by decide) _ _
  -- The factor ten goes into the numerator.
  · have hz : (-exponent).toNat = 0 := by omega
    have hz' : (-(exponent + 1)).toNat = 0 := by omega
    have hs : (exponent + 1).toNat = exponent.toNat + 1 := by omega
    rw [hz, hz', hs, Nat.pow_succ, Nat.mul_assoc, Nat.mul_comm 10]

/-- Zeros at the end of a coefficient can be moved to the exponent. -/
theorem nearestDecimal_mul_pow (c n : Nat) (exponent : Int) :
    f.nearestDecimal (c * 10 ^ n) exponent = f.nearestDecimal c (exponent + n) := by
  induction n generalizing exponent with
  | zero => simp
  | succ n ih =>
    rw [Nat.pow_succ, ← Nat.mul_assoc, nearestDecimal_mul_ten, ih]
    congr 1
    omega

/-! ## Magnitudes of the format -/

variable {f}

theorem exponentUnit_eq : f.exponentUnit = 2 ^ f.fractionBits := rfl

theorem exponentUnit_pos : 0 < f.exponentUnit := Nat.pow_pos (by decide)

/-- A code is its significand and as many exponent units as it is shifted. -/
theorem significand_add_shift (code : Nat) :
    f.significand code + f.shift code * f.exponentUnit = code := by
  unfold significand shift
  have h := Nat.div_mul_le_self code f.exponentUnit
  have h' : (code / f.exponentUnit - 1) * f.exponentUnit ≤ code / f.exponentUnit * f.exponentUnit :=
    Nat.mul_le_mul_right _ (Nat.sub_le _ _)
  omega

/-- The significand is below twice the exponent unit, and at least that unit once it shifts. -/
theorem significand_bounds (code : Nat) :
    f.significand code < 2 * f.exponentUnit ∧
      (f.shift code ≠ 0 → f.exponentUnit ≤ f.significand code) := by
  have hsum := significand_add_shift (f := f) code
  have hlt := Nat.lt_mul_div_succ code (exponentUnit_pos (f := f))
  have hle := Nat.mul_div_le code f.exponentUnit
  generalize hq : code / f.exponentUnit = q at hlt hle
  have hshift : f.shift code = q - 1 := by rw [shift, hq]
  rw [hshift] at hsum ⊢
  -- Below the first exponent unit nothing shifts; past it the code keeps one unit in front.
  cases q with
  | zero =>
    rw [Nat.zero_sub, Nat.zero_mul] at hsum
    rw [Nat.mul_one] at hlt
    exact ⟨by omega, fun h => absurd rfl h⟩
  | succ q =>
    rw [Nat.add_sub_cancel] at hsum ⊢
    have h1 : f.exponentUnit * (q + 1) = q * f.exponentUnit + f.exponentUnit := by ring
    have h2 : f.exponentUnit * (q + 1 + 1) = q * f.exponentUnit + 2 * f.exponentUnit := by ring
    exact ⟨by omega, fun _ => by omega⟩

theorem units_eq (code : Nat) : f.units code = f.significand code * 2 ^ f.shift code := rfl

theorem units_pos {code : Nat} (h : 0 < code) : 0 < f.units code := by
  rw [units_eq]
  refine Nat.mul_pos ?_ (Nat.pow_pos (by decide))
  by_contra hzero
  have hbounds := significand_bounds (f := f) code
  have hsum := significand_add_shift (f := f) code
  have hunit := exponentUnit_pos (f := f)
  by_cases hshift : f.shift code = 0
  · rw [hshift, Nat.zero_mul] at hsum
    omega
  · have := hbounds.2 hshift
    omega

/-- The spacing at a magnitude, as `nearest` finds it. -/
theorem log2_units (code : Nat) : (f.units code).log2 - f.fractionBits = f.shift code := by
  obtain ⟨hlt, hge⟩ := significand_bounds (f := f) code
  rw [exponentUnit_eq] at hlt hge
  rw [units_eq]
  by_cases hshift : f.shift code = 0
  -- subnormal or of the first exponent: the spacing is the grain
  · rw [hshift, Nat.pow_zero, Nat.mul_one]
    by_cases hzero : f.significand code = 0
    · rw [hzero, Nat.log2_zero, Nat.zero_sub]
    · have := (Nat.log2_lt hzero).2 (show f.significand code < 2 ^ (f.fractionBits + 1) by
        rw [Nat.pow_succ]
        omega)
      omega
  · have hge := hge hshift
    have hpos : 0 < 2 ^ f.fractionBits := Nat.pow_pos (by decide)
    have hlog : (f.significand code * 2 ^ f.shift code).log2 =
        f.fractionBits + f.shift code := by
      refine (Nat.log2_eq_iff ?_).2 ⟨?_, ?_⟩
      · exact Nat.mul_ne_zero (by omega) (Nat.pow_pos (by decide)).ne'
      · rw [Nat.pow_add]
        exact Nat.mul_le_mul_right _ hge
      · rw [Nat.add_right_comm, Nat.pow_add, Nat.pow_succ, Nat.mul_comm (2 ^ f.fractionBits)]
        exact Nat.mul_lt_mul_of_pos_right hlt (Nat.pow_pos (by decide))
    rw [hlog]
    omega

/-- A finite magnitude is the nearest one to itself. -/
theorem nearest_units {code : Nat} (hcode : code < f.infinity) :
    f.nearest (f.units code) (2 ^ f.grain) = code := by
  have hgrain : 0 < 2 ^ f.grain := Nat.pow_pos (by decide)
  have hspace : 0 < 2 ^ f.shift code := Nat.pow_pos (by decide)
  unfold nearest
  dsimp only
  simp only [Nat.pow_eq]
  -- The amount is a whole number of spacings, so nothing is rounded.
  rw [Nat.mul_div_cancel _ hgrain, log2_units, Nat.mul_comm (f.units code),
    roundHalfEven_mul hgrain]
  conv_lhs => rw [units_eq, roundHalfEven_mul_self _ hspace, significand_add_shift]
  omega

/-! ## Magnitudes written out -/

/-- The magnitudes of the format stay within the range of decimals. -/
structure WithinDecimalRange (f : Format) : Prop where
  exponentBits : 2 ≤ f.exponentBits
  top : 2 ^ (f.fractionBits + 2 ^ f.exponentBits - 2) ≤ 10 ^ decimalRange * 2 ^ f.grain
  bottom : 10 ^ (f.grain - (decimalRange + 1)) ≤ 5 ^ f.grain

theorem binary64_withinDecimalRange : WithinDecimalRange binary64 where
  exponentBits := by decide
  top := by decide +kernel
  bottom := by decide +kernel

theorem binary32_withinDecimalRange : WithinDecimalRange binary32 where
  exponentBits := by decide
  top := by decide +kernel
  bottom := by decide +kernel

theorem units_lt (hf : 2 ≤ f.exponentBits) {code : Nat} (hcode : code < f.infinity) :
    f.units code < 2 ^ (f.fractionBits + 2 ^ f.exponentBits - 2) := by
  have hbits : 2 ^ 2 ≤ 2 ^ f.exponentBits := Nat.pow_le_pow_right (by decide) hf
  have hquotient : code / f.exponentUnit < 2 ^ f.exponentBits - 1 :=
    Nat.div_lt_of_lt_mul (by rwa [Nat.mul_comm])
  have hshift : f.fractionBits + 1 + f.shift code ≤ f.fractionBits + 2 ^ f.exponentBits - 2 := by
    rw [shift]
    omega
  have hlt := (significand_bounds (f := f) code).1
  rw [exponentUnit_eq, ← Nat.pow_succ'] at hlt
  calc f.units code = f.significand code * 2 ^ f.shift code := rfl
    _ < 2 ^ (f.fractionBits + 1) * 2 ^ f.shift code :=
        Nat.mul_lt_mul_of_pos_right hlt (Nat.pow_pos (by decide))
    _ = 2 ^ (f.fractionBits + 1 + f.shift code) := (Nat.pow_add ..).symm
    _ ≤ 2 ^ (f.fractionBits + 2 ^ f.exponentBits - 2) := Nat.pow_le_pow_right (by decide) hshift

/-- A magnitude that is written out with all its digits reads back. -/
theorem nearestDecimal_exactDecimal (hf : WithinDecimalRange f) {code : Nat} (hpos : 0 < code)
    (hcode : code < f.infinity) :
    f.nearestDecimal (f.exactDecimal code).coefficient (f.exactDecimal code).exponent = code := by
  have hunits := units_pos (f := f) hpos
  have hfive : 0 < 5 ^ f.grain := Nat.pow_pos (by decide)
  have hcoefficient : (f.exactDecimal code).coefficient = f.units code * 5 ^ f.grain := rfl
  have hexponent : (f.exactDecimal code).exponent = -(f.grain : Int) := rfl
  rw [hcoefficient, hexponent]
  have hne : f.units code * 5 ^ f.grain ≠ 0 := (Nat.mul_pos hunits hfive).ne'
  -- Neither end of the range of decimals is reached.
  have hten : 10 ^ f.grain = 2 ^ f.grain * 5 ^ f.grain := by rw [← Nat.mul_pow]
  have htop : digitCount (f.units code * 5 ^ f.grain) ≤ decimalRange + f.grain := by
    apply (Nat.length_toDigits_le_iff (by decide) (Nat.add_pos_left (by decide) _)).2
    rw [Nat.pow_add, hten, ← Nat.mul_assoc]
    exact Nat.mul_lt_mul_of_pos_right ((units_lt hf.exponentBits hcode).trans_le hf.top) hfive
  have hbottom : f.grain - (decimalRange + 1) <
      digitCount (f.units code * 5 ^ f.grain) := by
    have hle : 10 ^ (f.grain - (decimalRange + 1)) ≤ f.units code * 5 ^ f.grain :=
      hf.bottom.trans (Nat.le_mul_of_pos_left _ hunits)
    by_contra hcount
    rw [Nat.not_lt] at hcount
    have hk : 0 < f.grain - (decimalRange + 1) := by
      have : 0 < digitCount (f.units code * 5 ^ f.grain) := Nat.length_toDigits_pos
      omega
    have := (Nat.length_toDigits_le_iff (by decide) hk).1 hcount
    omega
  unfold nearestDecimal
  rw [if_neg hne, if_neg (by omega), if_neg (by omega)]
  have hz : (-(f.grain : Int)).toNat = 0 := by omega
  have hg : (- -(f.grain : Int)).toNat = f.grain := by omega
  simp only [Nat.pow_eq]
  rw [hz, hg, Nat.pow_zero, Nat.mul_one, hten, Nat.mul_comm (f.units code),
    Nat.mul_comm (2 ^ f.grain), nearest_mul f hfive, nearest_units hcode]

end Format

end UnitCheck.Number
