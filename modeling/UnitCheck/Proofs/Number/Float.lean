import Mathlib
import UnitCheck.Number.Float
import UnitCheck.Proofs.Number.Notation

/-!
  Machine numbers and their texts.

  The machine formats keep the bits of every number that is no NaN (`pack_unpack`), so a number
  is its code, and what is written of a finite magnitude is read back as its code
  (`Format.exists_written`).
-/

namespace UnitCheck.Number

/-! ## Bits -/

section Bits

open Float.Model.UnpackedFloat

variable {spec : Float.Model.Format}

theorem toBitVec_signOfBitVec (v : BitVec 1) : (Sign.ofBitVec v).toBitVec = v := by
  revert v
  decide

/-- The stored bits are the sign, the exponent and the fraction. -/
theorem packComponents_unpack (b : BitVec spec.numBits) :
    packComponents spec (Sign.ofBitVec (unpackSign b)) (unpackExponent b) (unpackMantissa b) =
      b := by
  have hfraction := spec.hm
  have hexponent := spec.he
  rw [packComponents, toBitVec_signOfBitVec]
  ext i hi
  rw [BitVec.getElem_append]
  split
  -- a bit of the fraction
  · simpa [unpackMantissa] using BitVec.getLsbD_eq_getElem hi
  · rw [BitVec.getElem_append]
    split
    -- a bit of the exponent
    · have hplace : spec.mantissaBitsWithoutImplicit +
          (i - spec.mantissaBitsWithoutImplicit) = i := by omega
      simpa [unpackExponent, hplace] using BitVec.getLsbD_eq_getElem hi
    -- the sign
    · have hplace : spec.mantissaBitsWithoutImplicit + spec.exponentBits +
          (i - spec.mantissaBitsWithoutImplicit - spec.exponentBits) = i := by omega
      simpa [unpackSign, hplace] using BitVec.getLsbD_eq_getElem hi

theorem log2_two_pow_add {k n : Nat} (h : n < 2 ^ k) : (2 ^ k + n).log2 = k := by
  refine (Nat.log2_eq_iff ?_).2 ⟨by omega, ?_⟩
  · have := Nat.two_pow_pos k
    omega
  · rw [Nat.pow_succ]
    omega

/-- A normal number keeps its bits. -/
theorem pack_finite_normal {b : BitVec spec.numBits}
    (hexponent : (unpackExponent b).toNat + 1 < 2 ^ spec.exponentBits)
    {significand : Nat} (hsignificand : significand =
      2 ^ spec.mantissaBitsWithoutImplicit + (unpackMantissa b).toNat)
    (hpos : 0 < significand) :
    pack spec (.finite (Sign.ofBitVec (unpackSign b)) significand ((unpackExponent b).toNat -
      (spec.exponentBias + spec.mantissaBitsWithoutImplicit)) hpos) = b := by
  have hbiased : ((unpackExponent b).toNat -
      (spec.exponentBias + spec.mantissaBitsWithoutImplicit : Int) + spec.exponentBias +
        spec.mantissaBitsWithoutImplicit).toNat = (unpackExponent b).toNat := by omega
  have hfraction : BitVec.ofNat spec.mantissaBitsWithoutImplicit significand =
      unpackMantissa b := by
    apply BitVec.eq_of_toNat_eq
    rw [hsignificand, BitVec.toNat_ofNat, Nat.add_mod_left,
      Nat.mod_eq_of_lt (unpackMantissa b).isLt]
  -- With the bit in front the significand has all its bits, which is how a normal number is told.
  have hlog : significand.log2 + 1 = spec.mantissaBits := by
    rw [hsignificand, log2_two_pow_add (unpackMantissa b).isLt, Float.Model.Format.mantissaBits]
    omega
  rw [pack, hbiased, if_neg (by omega), if_pos hlog, hfraction, BitVec.ofNat_toNat,
    BitVec.setWidth_eq]
  exact packComponents_unpack b

/-- A subnormal number keeps its bits. -/
theorem pack_finite_subnormal (hbits : 2 ≤ spec.exponentBits) {b : BitVec spec.numBits}
    (hexponent : unpackExponent b = 0#_) (hpos : 0 < (unpackMantissa b).toNat) :
    pack spec (.finite (Sign.ofBitVec (unpackSign b)) (unpackMantissa b).toNat
      ((unpackExponent b).toNat - (spec.exponentBias + spec.mantissaBitsWithoutImplicit) + 1)
        hpos) = b := by
  have hrange : 2 ^ 2 ≤ 2 ^ spec.exponentBits := Nat.pow_le_pow_right (by decide) hbits
  have hlog : (unpackMantissa b).toNat.log2 < spec.mantissaBitsWithoutImplicit :=
    (Nat.log2_lt hpos.ne').2 (unpackMantissa b).isLt
  have hcomponents := packComponents_unpack b
  rw [hexponent] at hcomponents
  have hbiased : ((unpackExponent b).toNat -
      (spec.exponentBias + spec.mantissaBitsWithoutImplicit : Int) + 1 + spec.exponentBias +
        spec.mantissaBitsWithoutImplicit).toNat = 1 := by
    rw [hexponent, BitVec.toNat_ofNat, Nat.zero_mod]
    omega
  rw [pack, hbiased, if_neg (by omega), if_neg (by rw [Float.Model.Format.mantissaBits]; omega),
    BitVec.ofNat_toNat, BitVec.setWidth_eq]
  exact hcomponents

/-- Bits that store no NaN are kept. -/
theorem pack_unpack (hbits : 2 ≤ spec.exponentBits) {b : BitVec spec.numBits}
    (hnumber : unpackExponent b = -1#_ → unpackMantissa b = 0#_) :
    pack spec (unpack spec b) = b := by
  have hcomponents := packComponents_unpack b
  unfold unpack
  dsimp only
  split
  -- infinity, for the bits store no NaN
  · next hexponent =>
    rw [if_pos (hnumber hexponent), pack, packedInfinity]
    rw [hexponent, hnumber hexponent] at hcomponents
    exact hcomponents
  · next hexponent =>
    split
    · next hzero =>
      split
      · next hfraction =>
        rw [hzero, hfraction] at hcomponents
        exact hcomponents
      · exact pack_finite_subnormal hbits hzero _
    -- a normal number, which has its leading bit besides the fraction
    · refine pack_finite_normal ?_ ?_ _
      · have hlt := (unpackExponent b).isLt
        by_contra hge
        refine hexponent (BitVec.eq_of_toNat_eq ?_)
        rw [BitVec.neg_one_eq_allOnes, BitVec.toNat_allOnes]
        omega
      · rw [BitVec.toNat_append, ← Nat.shiftLeft_add_eq_or_of_lt (unpackMantissa b).isLt]
        simp [Nat.shiftLeft_eq]

theorem toNat_unpackExponent (b : BitVec spec.numBits) :
    (unpackExponent b).toNat =
      b.toNat / 2 ^ spec.mantissaBitsWithoutImplicit % 2 ^ spec.exponentBits := by
  have hexponent := spec.he
  have hwidth : spec.mantissaBitsWithoutImplicit + spec.exponentBits - 1 -
      spec.mantissaBitsWithoutImplicit + 1 = spec.exponentBits := by omega
  rw [unpackExponent, BitVec.toNat_cast, BitVec.extractLsb_toNat, hwidth,
    Nat.shiftRight_eq_div_pow]

theorem toNat_unpackMantissa (b : BitVec spec.numBits) :
    (unpackMantissa b).toNat = b.toNat % 2 ^ spec.mantissaBitsWithoutImplicit := by
  have hfraction := spec.hm
  have hwidth : spec.mantissaBitsWithoutImplicit - 1 - 0 + 1 =
      spec.mantissaBitsWithoutImplicit := by omega
  rw [unpackMantissa, BitVec.toNat_cast, BitVec.extractLsb_toNat, hwidth, Nat.shiftRight_zero]

/-- Bits up to those of infinity store no NaN. -/
theorem pack_unpack_of_le (hbits : 2 ≤ spec.exponentBits) {b : BitVec spec.numBits}
    (h : b.toNat ≤ (2 ^ spec.exponentBits - 1) * 2 ^ spec.mantissaBitsWithoutImplicit) :
    pack spec (unpack spec b) = b := by
  refine pack_unpack hbits fun hexponent => BitVec.eq_of_toNat_eq ?_
  -- With all ones for its exponent the number is no less than infinity, so the fraction is empty.
  have hones := congrArg BitVec.toNat hexponent
  rw [toNat_unpackExponent, BitVec.neg_one_eq_allOnes, BitVec.toNat_allOnes] at hones
  rw [toNat_unpackMantissa, BitVec.toNat_ofNat, Nat.zero_mod]
  have hunit := Nat.two_pow_pos spec.mantissaBitsWithoutImplicit
  have hrange := Nat.two_pow_pos spec.exponentBits
  have hle : b.toNat / 2 ^ spec.mantissaBitsWithoutImplicit ≤ 2 ^ spec.exponentBits - 1 :=
    Nat.div_le_of_le_mul (by rwa [Nat.mul_comm])
  rw [Nat.mod_eq_of_lt (by omega)] at hones
  have hsum := Nat.div_add_mod b.toNat (2 ^ spec.mantissaBitsWithoutImplicit)
  rw [hones, Nat.mul_comm] at hsum
  omega

end Bits

/-- The bits of a double-precision magnitude are its code. -/
theorem toNat_toBits_ofBits {code : Nat} (h : code ≤ Format.binary64.infinity) :
    (Float.ofBits (UInt64.ofNat code)).toBits.toNat = code := by
  have hinfinity : Format.binary64.infinity = (2 ^ 11 - 1) * 2 ^ 52 := by decide
  have hbits : (UInt64.ofNat code).toBitVec.toNat = code := by
    show code % 2 ^ 64 = code
    omega
  show (UInt64.ofBitVec (Float.Model.UnpackedFloat.pack .binary64
    (Float.Model.UnpackedFloat.unpack .binary64 (UInt64.ofNat code).toBitVec))).toNat = code
  rw [pack_unpack_of_le (by decide) (by rw [hbits, ← hinfinity]; exact h)]
  exact hbits

/-- The bits of a single-precision magnitude are its code. -/
theorem toNat_toBits_ofBits32 {code : Nat} (h : code ≤ Format.binary32.infinity) :
    (Float32.ofBits (UInt32.ofNat code)).toBits.toNat = code := by
  have hinfinity : Format.binary32.infinity = (2 ^ 8 - 1) * 2 ^ 23 := by decide
  have hbits : (UInt32.ofNat code).toBitVec.toNat = code := by
    show code % 2 ^ 32 = code
    omega
  show (UInt32.ofBitVec (Float.Model.UnpackedFloat.pack .binary32
    (Float.Model.UnpackedFloat.unpack .binary32 (UInt32.ofNat code).toBitVec))).toNat = code
  rw [pack_unpack_of_le (by decide) (by rw [hbits, ← hinfinity]; exact h)]
  exact hbits

theorem toBits_injective {x y : Float} (h : x.toBits = y.toBits) : x = y := by
  obtain ⟨⟨a, ha⟩⟩ := x
  obtain ⟨⟨b, hb⟩⟩ := y
  have hbits : a = b := h
  subst hbits
  rfl

theorem toBits_injective32 {x y : Float32} (h : x.toBits = y.toBits) : x = y := by
  obtain ⟨⟨a, ha⟩⟩ := x
  obtain ⟨⟨b, hb⟩⟩ := y
  have hbits : a = b := h
  subst hbits
  rfl

/-- A double-precision magnitude is the number of its code. -/
theorem eq_ofBits_of_le {x : Float} (h : x.toBits.toNat ≤ Format.binary64.infinity) :
    x = Float.ofBits (UInt64.ofNat x.toBits.toNat) :=
  toBits_injective (UInt64.toNat_inj.1 (toNat_toBits_ofBits h).symm)

/-- A single-precision magnitude is the number of its code. -/
theorem eq_ofBits_of_le32 {x : Float32} (h : x.toBits.toNat ≤ Format.binary32.infinity) :
    x = Float32.ofBits (UInt32.ofNat x.toBits.toNat) :=
  toBits_injective32 (UInt32.toNat_inj.1 (toNat_toBits_ofBits32 h).symm)

/-! ## Texts -/

namespace Format

variable {f : Format}

/-- The text of a finite magnitude, in the parts of a decimal, is read as the magnitude. -/
structure Written (f : Format) (code : Nat) (whole fraction exponent : List Char) : Prop where
  isDigits : IsDigits whole
  isFraction : IsFraction fraction
  isExponent : ∃ power, IsExponent exponent power
  readDecimal : f.readDecimal (whole ++ (fraction ++ exponent)) = some code

theorem Written.read {code : Nat} {whole fraction exponent : List Char}
    (h : f.Written code whole fraction exponent) :
    f.read (whole ++ (fraction ++ exponent)) = some (false, code) := by
  rw [Format.read, splitSign_of_digits h.isDigits]
  dsimp only
  rw [h.readDecimal]
  rfl

/-- A finite magnitude is written in the parts of a decimal. -/
theorem exists_written (hf : WithinDecimalRange f) (style : Style) {code : Nat}
    (hcode : code < f.infinity) :
    ∃ whole fraction exponent, style.magnitude f code = whole ++ (fraction ++ exponent) ∧
      f.Written code whole fraction exponent ∧
        (style.pointZero = true → fraction ≠ [] ∨ exponent ≠ []) := by
  by_cases hzero : code = 0
  · subst hzero
    unfold Style.magnitude
    rw [if_pos rfl]
    cases style.pointZero with
    | true => exact ⟨['0'], ['.', '0'], [], rfl, ⟨by simp [IsDigits],
        .inr ⟨['0'], rfl, by simp [IsDigits]⟩, ⟨0, .inl ⟨rfl, rfl⟩⟩, rfl⟩, by simp⟩
    | false => exact ⟨['0'], [], [], rfl, ⟨by simp [IsDigits], .inl rfl,
        ⟨0, .inl ⟨rfl, rfl⟩⟩, rfl⟩, by simp⟩
  -- The shortest decimal is written in the style, and it reads back.
  · have hreads := readsBack_shortest hf style.tie (Nat.pos_of_ne_zero hzero) hcode
    obtain ⟨whole, fraction, exponent, htext, hdenotes, hpoint, -⟩ :=
      style.decimal_parts (f.shortest style.tie code)
    obtain ⟨power, hpower, -⟩ := hdenotes.amount
    refine ⟨whole, fraction, exponent, ?_, ⟨hdenotes.isDigits, hdenotes.isFraction,
      ⟨power, hpower⟩, ?_⟩, hpoint⟩
    · rw [Style.magnitude, if_neg hzero, if_neg hcode.ne, htext]
    · rw [hdenotes.readDecimal, hreads]

/-- A magnitude has no sign bit. -/
theorem unpack_of_le (hf : f.infinity < f.signWeight) {code : Nat} (h : code ≤ f.infinity) :
    f.unpack code = (false, code) := by
  rw [unpack, Nat.mod_eq_of_lt (by omega), decide_eq_false (by omega)]

end Format

theorem floatText_ofBits (style : Style) {code : Nat} (h : code ≤ Format.binary64.infinity) :
    floatText style (Float.ofBits (UInt64.ofNat code)) = style.magnitude .binary64 code := by
  rw [floatText, toNat_toBits_ofBits h, Format.unpack_of_le (by decide) h]
  dsimp only
  rw [Style.number, if_neg (by omega)]
  rfl

theorem float32Text_ofBits (style : Style) {code : Nat} (h : code ≤ Format.binary32.infinity) :
    float32Text style (Float32.ofBits (UInt32.ofNat code)) = style.magnitude .binary32 code := by
  rw [float32Text, toNat_toBits_ofBits32 h, Format.unpack_of_le (by decide) h]
  dsimp only
  rw [Style.number, if_neg (by omega)]
  rfl

/-! ## Texts without a sign -/

/-- What starts with a digit is none of the words for a number. -/
theorem Format.readWord_of_digit {f : Format} {c : Char} (hc : c.isDigit = true) (cs : List Char) :
    f.readWord (c :: cs) = none := by
  have hlower : c.toLower = c :=
    forall_digit (P := fun c => c.toLower = c) (by decide +kernel) hc
  -- A digit is a digit in small letters too, and no word starts with one.
  have hne : ∀ word : List Char, word.head?.any Char.isDigit = false →
      String.ofList (c :: cs.map Char.toLower) ≠ String.ofList word := by
    intro word hword heq
    rw [← String.ofList_injective heq] at hword
    simp [hc] at hword
  unfold readWord
  dsimp only
  rw [List.map_cons, hlower, if_neg, if_neg]
  · exact hne ['n', 'a', 'n'] rfl
  · rintro (heq | heq)
    · exact hne ['i', 'n', 'f'] rfl heq
    · exact hne ['i', 'n', 'f', 'i', 'n', 'i', 't', 'y'] rfl heq

/-- What starts with a digit has no sign and is a number. -/
theorem Format.read_of_digit {f : Format} {c : Char} {cs : List Char} (hc : c.isDigit = true)
    {number : Bool × Nat} (h : f.read (c :: cs) = some number) :
    number.1 = false ∧ number.2 ≤ f.infinity := by
  have hdigits : IsDigits [c] := ⟨by simp, by simpa using hc⟩
  have hsign : splitSign (c :: cs) = (false, c :: cs) := splitSign_of_digits hdigits cs
  rw [Format.read, hsign] at h
  dsimp only at h
  rw [readWord_of_digit hc, Option.or_none] at h
  obtain ⟨code, hcode, rfl⟩ := Option.map_eq_some_iff.1 h
  refine ⟨rfl, ?_⟩
  unfold readDecimal at hcode
  dsimp only at hcode
  split at hcode
  · cases hcode
  · obtain ⟨power, -, rfl⟩ := Option.map_eq_some_iff.1 hcode
    exact f.nearestDecimal_le_infinity _ _

theorem Format.pack_of_positive (f : Format) {number : Bool × Nat} (h : number.1 = false) :
    f.pack number = number.2 := by
  rw [Format.pack, h, if_neg (by decide), Nat.zero_add]

theorem readFloat_of_digit {c : Char} {cs : List Char} (hc : c.isDigit = true) {x : Float}
    (h : readFloat (c :: cs) = some x) :
    ∃ code ≤ Format.binary64.infinity, x = Float.ofBits (UInt64.ofNat code) := by
  obtain ⟨number, hread, rfl⟩ := Option.map_eq_some_iff.1 h
  obtain ⟨hsign, hle⟩ := Format.read_of_digit hc hread
  exact ⟨number.2, hle, by rw [Format.pack_of_positive _ hsign]⟩

theorem readFloat32_of_digit {c : Char} {cs : List Char} (hc : c.isDigit = true) {x : Float32}
    (h : readFloat32 (c :: cs) = some x) :
    ∃ code ≤ Format.binary32.infinity, x = Float32.ofBits (UInt32.ofNat code) := by
  obtain ⟨number, hread, rfl⟩ := Option.map_eq_some_iff.1 h
  obtain ⟨hsign, hle⟩ := Format.read_of_digit hc hread
  exact ⟨number.2, hle, by rw [Format.pack_of_positive _ hsign]⟩

end UnitCheck.Number
