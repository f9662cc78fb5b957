import UnitCheck.Proofs.Number.Machine

/-!
  Numbers with signs and their texts.

  A machine number that is no NaN is a sign and the code of a magnitude, which may be infinite
  (`code_le_of_not_isNaN`), and its bits are those two again. What is written of it is the sign
  and the magnitude, and both are read back (`Format.read_number`). So every machine number that is
  no NaN is read back as the same bits, which tell zero from its opposite
  (`readFloat_floatText`).
-/

namespace UnitCheck.Number

open Float.Model.UnpackedFloat

/-! ## Bits -/

/-- An exponent of all ones leaves nothing for the fraction of a number that is no NaN. -/
theorem unpackMantissa_of_not_isNaN {spec : Float.Model.Format} {b : BitVec spec.numBits}
    (h : (unpack spec b).isNaN = false) (hones : unpackExponent b = -1#_) :
    unpackMantissa b = 0#_ := by
  by_contra hfraction
  unfold unpack at h
  dsimp only at h
  rw [if_pos hones, if_neg hfraction] at h
  cases h

/-- A number that is no NaN is kept with its bits. -/
theorem ofBits_toBits {x : Float} (h : x.isNaN = false) : Float.ofBits x.toBits = x := by
  refine toBits_injective (UInt64.toBitVec_inj.1 ?_)
  show pack .binary64 (unpack .binary64 x.toBits.toBitVec) = x.toBits.toBitVec
  exact pack_unpack (by decide) (unpackMantissa_of_not_isNaN h)

/-- A number that is no NaN has the code of a magnitude. -/
theorem code_le_of_not_isNaN {x : Float} (h : x.isNaN = false) :
    (Format.binary64.unpack x.toBits.toNat).2 ≤ Format.binary64.infinity := by
  have hexponent : (@unpackExponent .binary64 x.toBits.toBitVec).toNat =
      x.toBits.toNat / 2 ^ 52 % 2 ^ 11 := toNat_unpackExponent _
  have hmantissa : (@unpackMantissa .binary64 x.toBits.toBitVec).toNat =
      x.toBits.toNat % 2 ^ 52 := toNat_unpackMantissa _
  show x.toBits.toNat % 2 ^ 63 ≤ (2 ^ 11 - 1) * 2 ^ 52
  by_cases hones : @unpackExponent .binary64 x.toBits.toBitVec = -1#_
  -- Nothing is left for the fraction, so the code is that of infinity.
  · have hfraction : @unpackMantissa .binary64 x.toBits.toBitVec = 0#_ :=
      unpackMantissa_of_not_isNaN h hones
    rw [hfraction, BitVec.toNat_ofNat, Nat.zero_mod] at hmantissa
    omega
  · have hless : x.toBits.toNat / 2 ^ 52 % 2 ^ 11 ≠ 2 ^ 11 - 1 := by
      intro heq
      refine hones (BitVec.eq_of_toNat_eq ?_)
      rw [hexponent, heq, BitVec.neg_one_eq_allOnes, BitVec.toNat_allOnes]
    omega

/-- Bits are a sign and a code. -/
theorem Format.pack_unpack (f : Format) {bits : Nat} (h : bits < 2 * f.signWeight) :
    f.pack (f.unpack bits) = bits := by
  have hpos : 0 < f.signWeight := Nat.two_pow_pos _
  unfold Format.pack Format.unpack
  dsimp only
  by_cases hsign : f.signWeight ≤ bits
  · rw [decide_eq_true hsign, if_pos rfl, Nat.mod_eq_sub_mod hsign, Nat.mod_eq_of_lt (by omega)]
    omega
  · rw [decide_eq_false hsign, if_neg (by decide), Nat.mod_eq_of_lt (by omega), Nat.zero_add]

/-! ## Texts -/

namespace Format

variable {f : Format}

/-- The word for infinity is read as it. -/
theorem read_inf (f : Format) : f.read ['i', 'n', 'f'] = some (false, f.infinity) := rfl

theorem read_minus_inf (f : Format) : f.read ['-', 'i', 'n', 'f'] = some (true, f.infinity) := rfl

/-- A magnitude in the parts of a decimal is read behind a minus sign as well. -/
theorem Written.read_minus {code : Nat} {whole fraction exponent : List Char}
    (h : f.Written code whole fraction exponent) :
    f.read ('-' :: (whole ++ (fraction ++ exponent))) = some (true, code) := by
  rw [Format.read, splitSign]
  dsimp only
  rw [h.readDecimal]
  rfl

/-- **A number is read back as its sign and its magnitude**, the infinite one included. -/
theorem read_number (hf : WithinDecimalRange f) (style : Style) (negative : Bool) {code : Nat}
    (hcode : code ≤ f.infinity) :
    f.read (style.number f negative code) = some (negative, code) := by
  rw [Style.number, if_neg (by omega)]
  rcases Nat.lt_or_eq_of_le hcode with hfinite | rfl
  · obtain ⟨whole, fraction, exponent, htext, hwritten, -⟩ := exists_written hf style hfinite
    rw [htext]
    cases negative with
    | false => exact hwritten.read
    | true => exact hwritten.read_minus
  -- Infinity is no zero, and it is written as a word.
  · have hpos : 0 < f.infinity := by
      have hrange : 1 < Nat.pow 2 f.exponentBits :=
        Nat.one_lt_two_pow (by have := hf.exponentBits; omega)
      exact Nat.mul_pos (Nat.sub_pos_of_lt hrange) exponentUnit_pos
    rw [Style.magnitude, if_neg hpos.ne', if_pos rfl]
    cases negative with
    | false => exact f.read_inf
    | true => exact f.read_minus_inf

end Format

/-- **A number that is no NaN is read back from its text**, in whatever style it is written. -/
theorem readFloat_floatText (style : Style) {x : Float} (h : x.isNaN = false) :
    readFloat (floatText style x) = some x := by
  have hcode := code_le_of_not_isNaN h
  have hread := Format.read_number Format.binary64_withinDecimalRange style
    (Format.binary64.unpack x.toBits.toNat).1 hcode
  have hbits : x.toBits.toNat < 2 * Format.binary64.signWeight := x.toBits.toNat_lt
  rw [readFloat, floatText, hread, Option.map_some, Format.pack_unpack _ hbits, UInt64.ofNat_toNat,
    ofBits_toBits h]

end UnitCheck.Number
