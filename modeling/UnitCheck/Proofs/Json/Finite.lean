import UnitCheck.Proofs.Json.Exact
import UnitCheck.Proofs.Number.Order

/-!
  Numbers of JSON are read as finite numbers, and finite numbers are always reread.

  Scaling down keeps a number finite, and scaling up to infinity is refused
  (`isFinite_of_toFloat?`). What is written for a finite number is never refused: its digits and
  its power of ten are each rounded up by at most half a unit of their last bit, and so their
  product stays finite where the amount is below the two greatest numbers
  (`exists_scaleByTen_of_lt`). The texts of those two are read as they are
  (`exists_rereadNumber`).
-/

namespace UnitCheck.Json

open Number (Format IsDigits IsFraction IsExponent ofCode powerOfTen forall_digit)

/-! ## The upper end of the format -/

/-- Halfway between the third and the second greatest magnitude. -/
def nearGreatest : Nat := (2 ^ 54 - 5) * 2 ^ 970

/-- The amounts that decide whether scaling stays finite, calculated: the greatest power of ten, a
    whole word and all amounts below half a unit past the greatest number are rounded to finite
    magnitudes, and one power of ten more is past them. -/
theorem binary64_upperEnd :
    Format.binary64.nearest (10 ^ maxPower) 1 < Format.binary64.infinity ∧
      Format.binary64.nearest UInt64.size 1 < Format.binary64.infinity ∧
        Format.binary64.nearest nearGreatest 1 + 2 = Format.binary64.infinity ∧
          Format.binary64.nearest
            ((2 ^ 54 - 1) * 2 ^ 970 * (2 ^ Format.binary64.grain * 2 ^ Format.binary64.grain) - 1)
              (2 ^ Format.binary64.grain * 2 ^ Format.binary64.grain) < Format.binary64.infinity ∧
            nearGreatest < 10 ^ (maxPower + 1) := by
  decide +kernel

theorem nearest_nearGreatest :
    Format.binary64.nearest nearGreatest 1 + 2 = Format.binary64.infinity :=
  binary64_upperEnd.2.2.1

theorem nearGreatest_lt_pow {k : Nat} (hk : maxPower < k) : nearGreatest < 10 ^ k :=
  calc nearGreatest < 10 ^ (maxPower + 1) := binary64_upperEnd.2.2.2.2
    _ ≤ 10 ^ k := Nat.pow_le_pow_right (by decide) hk

/-- A word is rounded to a finite number. -/
theorem nearest_lt_infinity {n : Nat} (hn : n < UInt64.size) :
    Format.binary64.nearest n 1 < Format.binary64.infinity :=
  calc Format.binary64.nearest n 1 ≤ Format.binary64.nearest UInt64.size 1 :=
      Format.binary64.nearest_mono Nat.one_pos Nat.one_pos (Nat.mul_le_mul_right 1 hn.le)
    _ < Format.binary64.infinity := binary64_upperEnd.2.1

/-- Below the half unit past the greatest number nothing is rounded to infinity. -/
theorem nearest_product_lt_infinity {m : Nat}
    (h : m < (2 ^ 54 - 1) * 2 ^ 970 * (2 ^ Format.binary64.grain * 2 ^ Format.binary64.grain)) :
    Format.binary64.nearest m (2 ^ Format.binary64.grain * 2 ^ Format.binary64.grain) <
      Format.binary64.infinity := by
  have hpos : 0 < 2 ^ Format.binary64.grain * 2 ^ Format.binary64.grain :=
    Nat.mul_pos (Nat.two_pow_pos _) (Nat.two_pow_pos _)
  have hle := Format.binary64.nearest_mono hpos hpos
    (Nat.mul_le_mul_right _ (Nat.le_sub_one_of_lt h))
  exact hle.trans_lt binary64_upperEnd.2.2.2.1

/-! ## Powers of ten -/

/-- A positive integer is past the subnormal magnitudes. -/
theorem normal_of_pos {n : Nat} (hn : 0 < n) :
    Format.binary64.exponentUnit * 1 ≤ n * 2 ^ Format.binary64.grain := by
  rw [Format.exponentUnit_eq, Nat.mul_one]
  exact (Nat.pow_le_pow_right (by decide) (by decide)).trans (Nat.le_mul_of_pos_left _ hn)

theorem nearestDecimal_one {k : Nat} (hk : k ≤ maxPower) :
    Format.binary64.nearestDecimal 1 k = Format.binary64.nearest (10 ^ k) 1 := by
  have hmax : maxPower = 308 := rfl
  have hcount : Format.digitCount 1 = 1 := rfl
  have hrange : Format.decimalRange = 400 := rfl
  have hpower : (-(k : Int)).toNat = 0 := by omega
  rw [Format.nearestDecimal, if_neg (by decide), hcount, if_neg (by omega), if_neg (by omega),
    hpower, Int.toNat_natCast, Nat.one_mul]
  rfl

/-- The powers of ten that numbers are scaled by are finite, at least one, and rounded up by at
    most half a unit of their last bit. -/
theorem units_powerOfTen_le {k : Nat} (hk : k ≤ maxPower) :
    Format.binary64.nearestDecimal 1 k < Format.binary64.infinity ∧
      2 ^ Format.binary64.grain ≤ Format.binary64.units (Format.binary64.nearestDecimal 1 k) ∧
        Format.binary64.units (Format.binary64.nearestDecimal 1 k) * 2 ^ 53 ≤
          10 ^ k * 2 ^ Format.binary64.grain * (2 ^ 53 + 1) := by
  rw [nearestDecimal_one hk]
  have hpos : 1 ≤ 10 ^ k := Nat.pow_pos (by decide)
  -- Rounding is monotone, so the greatest power and one bound the others.
  have hfinite : Format.binary64.nearest (10 ^ k) 1 < Format.binary64.infinity :=
    calc Format.binary64.nearest (10 ^ k) 1 ≤ Format.binary64.nearest (10 ^ maxPower) 1 :=
        Format.binary64.nearest_mono Nat.one_pos Nat.one_pos
          (Nat.mul_le_mul_right 1 (Nat.pow_le_pow_right (by decide) hk))
      _ < Format.binary64.infinity := binary64_upperEnd.1
  refine ⟨hfinite, ?_, ?_⟩
  · obtain ⟨one, hone, hunits⟩ := Number.exists_units_eq (Nat.one_lt_two_pow (by decide : 53 ≠ 0))
    calc 2 ^ Format.binary64.grain = Format.binary64.units one := by rw [hunits, Nat.one_mul]
      _ = Format.binary64.units (Format.binary64.nearest 1 1) := by
        rw [Number.nearest_of_units hone hunits]
      _ ≤ Format.binary64.units (Format.binary64.nearest (10 ^ k) 1) :=
        Format.units_mono (Format.binary64.nearest_mono Nat.one_pos Nat.one_pos
          (Nat.mul_le_mul_right 1 hpos)) hfinite
  · have hrounded := Format.units_nearest_le Nat.one_pos (normal_of_pos hpos) hfinite
    rwa [Nat.mul_one] at hrounded

/-! ## Numbers that are read -/

/-- A number without a sign that is finite. -/
def IsMagnitude (x : Float) : Prop := ∃ code < Format.binary64.infinity, x = ofCode code

theorem isMagnitude_toFloat (n : UInt64) : IsMagnitude n.toFloat := by
  have hn : n.toNat < UInt64.size := n.toNat_lt
  refine ⟨_, nearest_lt_infinity hn, ?_⟩
  rw [← Number.toFloat_ofNat hn, UInt64.ofNat_toNat]

theorem isMagnitude_zero : IsMagnitude 0.0 := ⟨0, by decide, rfl⟩

/-- A power of ten is at least one, so that division by it goes down. -/
theorem IsMagnitude.div_powerOfTen {x : Float} (h : IsMagnitude x) {k : Nat} (hk : k ≤ maxPower) :
    IsMagnitude (x / powerOfTen k) := by
  obtain ⟨code, hcode, rfl⟩ := h
  obtain ⟨hfinite, hunits, -⟩ := units_powerOfTen_le hk
  have hpos : 0 < Format.binary64.nearestDecimal 1 k := by
    by_contra hzero
    rw [Nat.eq_zero_of_not_pos hzero] at hunits
    exact absurd hunits (Nat.not_le.2 (Nat.two_pow_pos _))
  refine ⟨_, ?_, Number.ofCode_div hcode hpos hfinite⟩
  calc Format.binary64.nearest (Format.binary64.units code)
        (Format.binary64.units (Format.binary64.nearestDecimal 1 k))
      ≤ Format.binary64.nearest (Format.binary64.units code) (2 ^ Format.binary64.grain) :=
        Format.binary64.nearest_mono (Format.units_pos hpos) (Nat.two_pow_pos _)
          (Nat.mul_le_mul_left _ hunits)
    _ = code := Format.nearest_units hcode
    _ < Format.binary64.infinity := hcode

theorem isInf_infinity : (ofCode Format.binary64.infinity).isInf = true := by decide +kernel

theorem IsMagnitude.mul_powerOfTen {x : Float} (h : IsMagnitude x) {k : Nat} (hk : k ≤ maxPower)
    (hinf : ¬(x * powerOfTen k).isInf = true) : IsMagnitude (x * powerOfTen k) := by
  obtain ⟨code, hcode, rfl⟩ := h
  have hproduct := Number.ofCode_mul hcode (units_powerOfTen_le hk).1
  refine ⟨_, ?_, hproduct⟩
  refine (Number.Format.nearest_le_infinity ..).lt_of_ne fun heq => hinf ?_
  show (ofCode code * ofCode (Format.binary64.nearestDecimal 1 k)).isInf = true
  rw [hproduct, heq]
  exact isInf_infinity

/-- What a finite number is scaled to is finite. -/
theorem IsMagnitude.of_scaleByTen {x y : Float} {p : Int} (h : IsMagnitude x)
    (hy : scaleByTen x p = some y) : IsMagnitude y := by
  fun_induction scaleByTen x p with
  | case1 => cases hy
  | case2 x p hrange hsign scaled hinf =>
    rw [← Option.some.inj hy]
    exact h.mul_powerOfTen hrange hinf
  | case3 x p hrange hsign =>
    cases hy
    exact h.div_powerOfTen hrange
  | case4 =>
    cases hy
    exact h
  | case5 => cases hy
  | case6 x p hrange hzero hsign ih => exact ih (h.div_powerOfTen (Nat.le_refl _)) hy

/-- Scaling by a negative power always gives a number. -/
theorem exists_scaleByTen_of_neg (x : Float) {p : Int} (hp : p < 0) :
    ∃ y, scaleByTen x p = some y := by
  fun_induction scaleByTen x p with
  | case1 => omega
  | case2 => omega
  | case3 => exact ⟨_, rfl⟩
  | case4 => exact ⟨_, rfl⟩
  | case5 => omega
  | case6 x p hrange hzero hsign ih =>
    refine ih ?_
    have hmax : maxPower = 308 := rfl
    omega

/-- The value of digits with an exponent is finite. -/
theorem isMagnitude_of_shifted {significand : Nat} {before : Int} {exponent : List Char} {y : Float}
    (h : shifted significand before exponent = some y) : IsMagnitude y := by
  have hx := isMagnitude_toFloat (UInt64.ofNat significand)
  unfold shifted at h
  dsimp only at h
  split at h
  · exact hx.of_scaleByTen h
  · split at h
    · exact hx.of_scaleByTen h
    · split at h
      · cases h
        exact isMagnitude_zero
      · cases h

/-- The numbers that are read are finite. -/
theorem isFinite_of_toFloat? {chars : List Char} {x : Float} (h : toFloat? chars = some x) :
    x.isFinite = true := by
  unfold toFloat? at h
  obtain ⟨y, hy, rfl⟩ := Option.map_eq_some_iff.1 h
  obtain ⟨code, hcode, rfl⟩ := isMagnitude_of_shifted hy
  have hsigned : ∀ negative : Bool,
      (if negative then -ofCode code else ofCode code).isFinite = true := by
    intro negative
    cases negative with
    | true => exact Number.isFinite_neg_ofCode hcode
    | false => exact Number.isFinite_ofCode hcode
  exact hsigned _

theorem isFinite_of_value {value : Value} {x : Float} (h : value.toFloat? = some x) :
    x.isFinite = true := by
  cases value with
  | number chars => exact isFinite_of_toFloat? h
  | _ => cases h

theorem isFinite_of_optionalFloat? {field : Option Value} {x : Float}
    (h : optionalFloat? field = some x) : x.isFinite = true := by
  cases field with
  | none =>
    cases h
    obtain ⟨code, hcode, hzero⟩ := isMagnitude_zero
    rw [hzero]
    exact Number.isFinite_ofCode hcode
  | some value => exact isFinite_of_value h

/-! ## Scaling up -/

/-- Two amounts that are each rounded up by half a unit leave room for one more rounding. -/
theorem mul_lt_of_rounded {m n u v g b : Nat} (hg : 0 < g)
    (hu : u * 2 ^ 53 ≤ m * g * (2 ^ 53 + 1)) (hv : v * 2 ^ 53 ≤ n * g * (2 ^ 53 + 1))
    (hmn : m * n < (2 ^ 54 - 5) * b) : u * v < (2 ^ 54 - 1) * b * (g * g) := by
  refine Nat.lt_of_mul_lt_mul_right (a := 2 ^ 53 * 2 ^ 53) ?_
  have hroom : (2 ^ 54 - 5) * ((2 ^ 53 + 1) * (2 ^ 53 + 1)) ≤ (2 ^ 54 - 1) * (2 ^ 53 * 2 ^ 53) := by
    decide
  calc u * v * (2 ^ 53 * 2 ^ 53) = u * 2 ^ 53 * (v * 2 ^ 53) := by ring
    _ ≤ m * g * (2 ^ 53 + 1) * (n * g * (2 ^ 53 + 1)) := Nat.mul_le_mul hu hv
    _ = m * n * (g * g * ((2 ^ 53 + 1) * (2 ^ 53 + 1))) := by ring
    _ < (2 ^ 54 - 5) * b * (g * g * ((2 ^ 53 + 1) * (2 ^ 53 + 1))) :=
      Nat.mul_lt_mul_of_pos_right hmn (by positivity)
    _ = b * (g * g) * ((2 ^ 54 - 5) * ((2 ^ 53 + 1) * (2 ^ 53 + 1))) := by ring
    _ ≤ b * (g * g) * ((2 ^ 54 - 1) * (2 ^ 53 * 2 ^ 53)) := Nat.mul_le_mul_left _ hroom
    _ = (2 ^ 54 - 1) * b * (g * g) * (2 ^ 53 * 2 ^ 53) := by ring

/-- A word times a power of ten is finite where the amount is below the two greatest numbers. -/
theorem isInf_mul_powerOfTen {n k : Nat} (hn : n < UInt64.size) (hk : k ≤ maxPower)
    (hlt : n * 10 ^ k < nearGreatest) :
    ((UInt64.ofNat n).toFloat * powerOfTen k).isInf = false := by
  -- Both factors are rounded up by little, so the product stays below half a unit past the
  -- greatest.
  have hunits : Format.binary64.units (Format.binary64.nearest n 1) *
      Format.binary64.units (Format.binary64.nearestDecimal 1 k) <
        (2 ^ 54 - 1) * 2 ^ 970 * (2 ^ Format.binary64.grain * 2 ^ Format.binary64.grain) := by
    rcases Nat.eq_zero_or_pos n with rfl | hpos
    · rw [Format.nearest_zero, show Format.binary64.units 0 = 0 from rfl, Nat.zero_mul]
      positivity
    · have hdigits :=
        Format.units_nearest_le Nat.one_pos (normal_of_pos hpos) (nearest_lt_infinity hn)
      rw [Nat.mul_one] at hdigits
      exact mul_lt_of_rounded (Nat.two_pow_pos _) hdigits (units_powerOfTen_le hk).2.2 hlt
  rw [Number.toFloat_ofNat hn]
  show (ofCode _ * ofCode (Format.binary64.nearestDecimal 1 k)).isInf = false
  rw [Number.ofCode_mul (nearest_lt_infinity hn) (units_powerOfTen_le hk).1]
  exact Number.isInf_ofCode (nearest_product_lt_infinity hunits)

/-- Scaling up gives a number where the amount is below the two greatest numbers. -/
theorem exists_scaleByTen_of_lt {n : Nat} {p : Int} (hn : n < UInt64.size) (hp : 0 ≤ p)
    (hlt : n * 10 ^ p.toNat < nearGreatest) :
    ∃ y, scaleByTen (UInt64.ofNat n).toFloat p = some y := by
  have hnatAbs : p.toNat = p.natAbs := by omega
  rw [hnatAbs] at hlt
  rw [scaleByTen]
  by_cases hrange : p.natAbs ≤ maxPower
  · rw [if_pos hrange, if_pos hp]
    dsimp only
    rw [isInf_mul_powerOfTen hn hrange hlt, if_neg (by decide)]
    exact ⟨_, rfl⟩
  -- With so great a power only zero is that small.
  · have hzero : n = 0 := by
      by_contra hne
      have hpower := nearGreatest_lt_pow (Nat.not_le.1 hrange)
      have hle : 10 ^ p.natAbs ≤ n * 10 ^ p.natAbs :=
        Nat.le_mul_of_pos_left _ (Nat.pos_of_ne_zero hne)
      omega
    subst hzero
    rw [if_neg hrange, if_pos (by decide +kernel)]
    exact ⟨_, rfl⟩

/-! ## Numbers that were written -/

theorem appendFraction_full {n : Nat} {d : Char} (ds : List Char) (h : appendDigit? n d = none) :
    appendFraction n (d :: ds) = (n, 0) := by
  conv_lhs => whnf
  rw [h]

theorem pow_mul_le_ofDigitChars (ds : List Char) (n : Nat) :
    n * 10 ^ ds.length ≤ Nat.ofDigitChars 10 ds n := by
  rw [Nat.ofDigitChars_eq_ofDigitChars_zero, Nat.mul_comm]
  exact Nat.le_add_right _ _

theorem ofDigitChars_lt {ds : List Char} (hds : ∀ d ∈ ds, d.isDigit = true) (n : Nat) :
    Nat.ofDigitChars 10 ds n < (n + 1) * 10 ^ ds.length := by
  induction ds generalizing n with
  | nil => simp
  | cons d ds ih =>
    have hd : d.toNat - '0'.toNat < 10 := forall_digit
      (P := fun d => d.toNat - '0'.toNat < 10) (by decide) (hds d List.mem_cons_self)
    rw [Nat.ofDigitChars_cons, List.length_cons, Nat.pow_succ']
    refine (ih (fun c hc => hds c (List.mem_cons_of_mem d hc)) _).trans_le ?_
    rw [← Nat.mul_assoc]
    exact Nat.mul_le_mul_right _ (by omega)

/-- The digits of a fraction that fit into a word make up no more than all of them do. -/
theorem appendFraction_le {n m places : Nat} {ds : List Char} (hn : n < UInt64.size)
    (h : appendFraction n ds = (m, places)) :
    m < UInt64.size ∧ places ≤ ds.length ∧
      m * 10 ^ (ds.length - places) ≤ Nat.ofDigitChars 10 ds n := by
  -- Induction on the digits: one that does not fit ends the loop, and those behind it are left out.
  induction ds generalizing n m places with
  | nil =>
    cases h
    exact ⟨hn, Nat.le_refl _, by simp⟩
  | cons d ds ih =>
    cases hd : appendDigit? n d with
    | none =>
      rw [appendFraction_full ds hd] at h
      cases h
      exact ⟨hn, Nat.zero_le _, pow_mul_le_ofDigitChars (d :: ds) n⟩
    | some next =>
      rw [appendFraction_cons ds hd] at h
      cases h
      unfold appendDigit? at hd
      dsimp only at hd
      split at hd
      · next hnext =>
        cases hd
        obtain ⟨hm, hplaces, hle⟩ := ih hnext rfl
        rw [Nat.ofDigitChars_cons, List.length_cons, Nat.add_sub_add_right, Nat.mul_comm 10 n]
        exact ⟨hm, Nat.succ_le_succ hplaces, hle⟩
      · cases hd

/-- A decimal that is read as a positive finite magnitude is within the range of decimals. -/
theorem range_of_nearestDecimal {f : Format} {c code : Nat} {e : Int}
    (h : f.nearestDecimal c e = code) (hpos : 0 < code) (hcode : code < f.infinity) :
    ((Format.digitCount c : Int) + e).natAbs ≤ Format.decimalRange ∧
      f.nearest (c * 10 ^ e.toNat) (10 ^ (-e).toNat) = code := by
  unfold Format.nearestDecimal at h
  split at h
  · omega
  · split at h
    · omega
    · split at h
      · omega
      · exact ⟨by omega, h⟩

/-- A number of JSON that is nearest to a magnitude below the two greatest is scaled to a number,
    whichever of its last digits are left out. -/
theorem exists_scaleByTen_of_nearestDecimal {c n k code : Nat} {e : Int}
    (h : Format.binary64.nearestDecimal c e = code) (hpos : 0 < code)
    (hcode : code + 2 < Format.binary64.infinity) (hn : n < UInt64.size) (hle : n * 10 ^ k ≤ c) :
    ∃ y, scaleByTen (UInt64.ofNat n).toFloat (e + k) = some y := by
  rcases Int.lt_or_le (e + k) 0 with hneg | hnonneg
  · exact exists_scaleByTen_of_neg _ hneg
  · refine exists_scaleByTen_of_lt hn hnonneg ?_
    obtain ⟨-, hnearest⟩ := range_of_nearestDecimal h hpos (by omega)
    -- A product above the range would make the whole number one of the greatest, for rounding is
    -- monotone.
    by_contra hge
    have hgreatest := nearest_nearGreatest
    generalize nearGreatest = greatest at hge hgreatest
    have hmono : Format.binary64.nearest greatest 1 ≤
        Format.binary64.nearest (c * 10 ^ e.toNat) (10 ^ (-e).toNat) := by
      refine Format.binary64.nearest_mono Nat.one_pos (Nat.pow_pos (by decide)) ?_
      calc greatest * 10 ^ (-e).toNat
          ≤ n * 10 ^ (e + k).toNat * 10 ^ (-e).toNat := Nat.mul_le_mul_right _ (Nat.not_lt.1 hge)
        _ = n * 10 ^ k * 10 ^ e.toNat := by
          rw [Nat.mul_assoc, ← Nat.pow_add, Nat.mul_assoc, ← Nat.pow_add]
          congr 2
          omega
        _ ≤ c * 10 ^ e.toNat := Nat.mul_le_mul_right _ hle
        _ = c * 10 ^ e.toNat * 1 := (Nat.mul_one _).symm
    omega

/-- The text of a magnitude has at most sixteen digits before its point, and an exponent in the
    range of decimals. -/
theorem exists_magnitudeText_parts {code : Nat} (hpos : 0 < code)
    (hcode : code < Format.binary64.infinity) : ∃ whole fraction exponent power,
      Number.Style.json.magnitude .binary64 code = whole ++ (fraction ++ exponent) ∧
        IsDigits whole ∧ IsFraction fraction ∧ IsExponent exponent power ∧ whole.length ≤ 16 ∧
          power.natAbs ≤ maxExponent ∧ Format.binary64.nearestDecimal (digitsOf whole fraction)
            (power - fraction.tail.length) = code := by
  have hreads := Format.readsBack_shortest Format.binary64_withinDecimalRange
    Number.Style.json.tie hpos hcode
  generalize hshortest : Format.binary64.shortest Number.Style.json.tie code = x at hreads
  obtain ⟨hrange, -⟩ := range_of_nearestDecimal hreads hpos hcode
  obtain ⟨whole, fraction, exponent, htext, hdenotes, -, hlength, hexponent⟩ :=
    Number.Style.json.decimal_parts x
  obtain ⟨power, hpower, hamount⟩ := hdenotes.amount
  refine ⟨whole, fraction, exponent, power, ?_, hdenotes.isDigits, hdenotes.isFraction, hpower,
    hlength _ rfl, ?_, (hamount _).trans hreads⟩
  · rw [Number.Style.magnitude, if_neg hpos.ne', if_neg hcode.ne, hshortest, htext]
  -- The power is that of the point, which is in the range of decimals.
  · have hread := Number.readExponent_of_isExponent hpower
    have hmax : maxExponent = 2147483647 := rfl
    have hdecimal : Format.decimalRange = 400 := rfl
    rcases hexponent with rfl | hposition
    · obtain rfl : 0 = power := Option.some.inj hread
      exact Nat.zero_le _
    · rw [Number.readExponent_of_isExponent hposition, Option.some.injEq] at hread
      rw [← hread, Number.Scientific.pointPosition]
      have hdigits : x.digits.length = Format.digitCount x.coefficient := rfl
      omega

/-- The texts of zero and of the two greatest magnitudes are read. -/
theorem exists_toFloat?_of_edge {code : Nat} (hcode : code = 0 ∨
    code = Format.binary64.infinity - 2 ∨ code = Format.binary64.infinity - 1) (negative : Bool) :
    ∃ y, toFloat? (signText negative ++ Number.Style.json.magnitude .binary64 code) = some y := by
  have hzero : Number.Style.json.magnitude .binary64 0 = "0.0".toList := by decide +kernel
  have hsecond : Number.Style.json.magnitude .binary64 (Format.binary64.infinity - 2) =
      "1.7976931348623155e+308".toList := by decide +kernel
  have hfirst : Number.Style.json.magnitude .binary64 (Format.binary64.infinity - 1) =
      "1.7976931348623157e+308".toList := by decide +kernel
  refine Option.isSome_iff_exists.1 ?_
  obtain rfl | rfl | rfl := hcode
  · rw [hzero]
    revert negative
    decide +kernel
  · rw [hsecond]
    revert negative
    decide +kernel
  · rw [hfirst]
    revert negative
    decide +kernel

/-- The text of a finite number is always read. -/
theorem exists_toFloat? {code : Nat} (hcode : code < Format.binary64.infinity) (negative : Bool) :
    ∃ y, toFloat? (signText negative ++ Number.Style.json.magnitude .binary64 code) = some y := by
  by_cases hedge : code = 0 ∨ Format.binary64.infinity ≤ code + 2
  · exact exists_toFloat?_of_edge (by omega) negative
  · obtain ⟨whole, fraction, exponent, power, htext, hwhole, hfraction, hexponent, hlength, hpower,
      hnearest⟩ := exists_magnitudeText_parts (by omega) hcode
    -- At most sixteen digits stand before the point, and so many fit into a word.
    have hfits : Nat.ofDigitChars 10 whole 0 < UInt64.size :=
      calc Nat.ofDigitChars 10 whole 0 < (0 + 1) * 10 ^ whole.length := ofDigitChars_lt hwhole.2 0
        _ ≤ (0 + 1) * 10 ^ 16 :=
          Nat.mul_le_mul_left _ (Nat.pow_le_pow_right (by decide) hlength)
        _ < UInt64.size := by decide
    obtain ⟨⟨n, places⟩, hplaces⟩ : ∃ read,
        appendFraction (Nat.ofDigitChars 10 whole 0) fraction.tail = read := ⟨_, rfl⟩
    -- Of the fraction as many digits are taken as fit, which shifts the power by those left out.
    obtain ⟨hn, hle, hdigits⟩ := appendFraction_le hfits hplaces
    rw [← Nat.ofDigitChars_append, ← digitsOf] at hdigits
    obtain ⟨y, hy⟩ := exists_scaleByTen_of_nearestDecimal hnearest (by omega) (by omega) hn hdigits
    have hshift : power - fraction.tail.length + (fraction.tail.length - places : Nat) =
        power - places := by omega
    rw [hshift] at hy
    rw [htext, toFloat?_parts (signText_cases negative) hwhole hfraction hexponent hfits hplaces
      hpower, hy]
    exact ⟨_, rfl⟩

/-- A finite number is always reread. -/
theorem exists_rereadNumber {x : Float} (h : x.isFinite = true) : ∃ y, rereadNumber x = some y := by
  obtain ⟨negative, code, hcode, -, htext⟩ := exists_magnitude_of_isFinite h
  rw [rereadNumber, htext, Option.bind_some]
  exact exists_toFloat? hcode negative

end UnitCheck.Json
