import UnitCheck.Proofs.Number.Machine

/-!
  Rounding keeps the order, and moves a normal amount by at most half a unit of its last bit.

  Both come from the same bounds: past the smallest spacing the rounded integer has its leading bit
  set, and never more than one bit too many (`roundHalfEven_spacing`). So a greater spacing gives a
  greater code, and on one spacing rounding to integers decides (`nearest_mono`); and an integer
  that is off by a half is off by little of an amount that large (`units_nearest_le`).
-/

namespace UnitCheck.Number

/-! ## Rounding to integers -/

theorem roundHalfEven_cases (num den : Nat) :
    (roundHalfEven num den = num / den ∧ 2 * (num % den) ≤ den) ∨
      (roundHalfEven num den = num / den + 1 ∧ den ≤ 2 * (num % den)) := by
  unfold roundHalfEven
  dsimp only
  split
  · exact .inl ⟨rfl, by omega⟩
  · exact .inr ⟨rfl, by omega⟩

/-- Rounding adds at most a half. -/
theorem two_mul_roundHalfEven_le (num den : Nat) :
    2 * (roundHalfEven num den * den) ≤ 2 * num + den := by
  have hdivision := Nat.div_add_mod' num den
  rcases roundHalfEven_cases num den with ⟨hround, -⟩ | ⟨hround, hrest⟩
  · rw [hround]
    omega
  · rw [hround, Nat.add_mul, Nat.one_mul]
    omega

theorem div_le_div_of_mul_le {num den num' den' : Nat} (hden : 0 < den) (hden' : 0 < den')
    (h : num * den' ≤ num' * den) : num / den ≤ num' / den' := by
  refine (Nat.le_div_iff_mul_le hden').2 (Nat.le_of_mul_le_mul_right ?_ hden)
  calc num / den * den' * den = num / den * den * den' := Nat.mul_right_comm ..
    _ ≤ num * den' := Nat.mul_le_mul_right _ (Nat.div_mul_le_self num den)
    _ ≤ num' * den := h

theorem roundHalfEven_mono {num den num' den' : Nat} (hden : 0 < den) (hden' : 0 < den')
    (h : num * den' ≤ num' * den) : roundHalfEven num den ≤ roundHalfEven num' den' := by
  have hquotients := div_le_div_of_mul_le hden hden' h
  have hle := (div_le_roundHalfEven num den).2
  have hge := (div_le_roundHalfEven num' den').1
  rcases hquotients.lt_or_eq with hlt | heq
  · omega
  -- with equal quotients the remainders decide
  · have hrest : num % den * den' ≤ num' % den' * den := by
      have hleft := congrArg (· * den') (Nat.div_add_mod' num den)
      have hright := congrArg (· * den) (Nat.div_add_mod' num' den')
      simp only [Nat.add_mul] at hleft hright
      rw [heq, Nat.mul_right_comm] at hleft
      omega
    have hhalf : den ≤ 2 * (num % den) → den' ≤ 2 * (num' % den') := by
      intro hround
      refine Nat.le_of_mul_le_mul_left ?_ hden
      calc den * den' ≤ 2 * (num % den) * den' := Nat.mul_le_mul_right _ hround
        _ = 2 * (num % den * den') := Nat.mul_assoc ..
        _ ≤ 2 * (num' % den' * den) := Nat.mul_le_mul_left _ hrest
        _ = den * (2 * (num' % den')) := by rw [Nat.mul_comm _ den, Nat.mul_left_comm]
    have hover : den < 2 * (num % den) → den' < 2 * (num' % den') := by
      intro hround
      refine Nat.lt_of_mul_lt_mul_left (a := den) ?_
      calc den * den' < 2 * (num % den) * den' := Nat.mul_lt_mul_of_pos_right hround hden'
        _ = 2 * (num % den * den') := Nat.mul_assoc ..
        _ ≤ 2 * (num' % den' * den) := Nat.mul_le_mul_left _ hrest
        _ = den * (2 * (num' % den')) := by rw [Nat.mul_comm _ den, Nat.mul_left_comm]
    unfold roundHalfEven
    dsimp only
    rw [heq]
    split
    · split
      · exact Nat.le_refl _
      · omega
    · split
      · omega
      · exact Nat.le_refl _

/-! ## Rounding to a format -/

namespace Format

variable (f : Format)

/-- The integer that is rounded, in units of the spacing, has at most one bit too many, and its
    leading bit is set past the smallest spacing. -/
theorem roundHalfEven_spacing (num den : Nat) {shift : Nat}
    (hshift : (num / den).log2 - f.fractionBits = shift) :
    roundHalfEven num (den * 2 ^ shift) ≤ 2 * f.exponentUnit ∧
      (shift ≠ 0 → f.exponentUnit ≤ roundHalfEven num (den * 2 ^ shift)) := by
  obtain ⟨hge, hle⟩ := div_le_roundHalfEven num (den * 2 ^ shift)
  have hquotient : num / (den * 2 ^ shift) = num / den / 2 ^ shift :=
    (Nat.div_div_eq_div_mul ..).symm
  rw [hquotient] at hge hle
  have hpower : 0 < 2 ^ shift := Nat.two_pow_pos shift
  -- The quotient by the spacing has as many bits as a significand.
  have hlt : num / den / 2 ^ shift < 2 * f.exponentUnit := by
    rw [exponentUnit_eq, ← Nat.pow_succ', Nat.div_lt_iff_lt_mul hpower, ← Nat.pow_add]
    exact Nat.lt_log2_self.trans_le (Nat.pow_le_pow_right (by decide) (by omega))
  refine ⟨by omega, fun hne => le_trans ?_ hge⟩
  rw [exponentUnit_eq, Nat.le_div_iff_mul_le hpower, ← Nat.pow_add,
    show f.fractionBits + shift = (num / den).log2 by omega]
  exact Nat.log2_self_le fun hzero => by
    rw [hzero, Nat.log2_zero] at hshift
    omega

theorem nearestUnits_mono {num den num' den' : Nat} (hden : 0 < den) (hden' : 0 < den')
    (h : num * den' ≤ num' * den) : f.nearestUnits num den ≤ f.nearestUnits num' den' := by
  have hlog : (num / den).log2 ≤ (num' / den').log2 := by
    rw [Nat.log2_eq_log_two, Nat.log2_eq_log_two]
    exact Nat.log_mono_right (div_le_div_of_mul_le hden hden' h)
  unfold nearestUnits
  dsimp only
  generalize hshift : (num / den).log2 - f.fractionBits = shift
  generalize hshift' : (num' / den').log2 - f.fractionBits = shift'
  obtain ⟨hle, -⟩ := f.roundHalfEven_spacing num den hshift
  obtain ⟨-, hge⟩ := f.roundHalfEven_spacing num' den' hshift'
  refine min_le_min_left _ ?_
  rcases Nat.lt_or_ge shift shift' with hlt | hle'
  -- a greater spacing: the leading bit makes up for it
  · have hge := hge (by omega)
    have hunits : (shift + 1) * f.exponentUnit ≤ shift' * f.exponentUnit :=
      Nat.mul_le_mul_right _ hlt
    rw [Nat.succ_mul] at hunits
    omega
  · obtain rfl : shift = shift' := by omega
    have hpower : 0 < 2 ^ shift := Nat.two_pow_pos shift
    refine Nat.add_le_add_right (roundHalfEven_mono (Nat.mul_pos hden hpower)
      (Nat.mul_pos hden' hpower) ?_) _
    rw [← Nat.mul_assoc, ← Nat.mul_assoc]
    exact Nat.mul_le_mul_right _ h

/-- What is rounded keeps its order. -/
theorem nearest_mono {num den num' den' : Nat} (hden : 0 < den) (hden' : 0 < den')
    (h : num * den' ≤ num' * den) : f.nearest num den ≤ f.nearest num' den' := by
  rw [nearest_eq_nearestUnits, nearest_eq_nearestUnits]
  refine f.nearestUnits_mono hden hden' ?_
  rw [Nat.mul_right_comm, Nat.mul_right_comm num']
  exact Nat.mul_le_mul_right _ h

variable {f}

/-- A greater code is a greater magnitude. -/
theorem units_mono {a b : Nat} (h : a ≤ b) (hb : b < f.infinity) : f.units a ≤ f.units b := by
  by_contra hlt
  have hgrain : 0 < 2 ^ f.grain := Nat.two_pow_pos _
  have hle := f.nearest_mono hgrain hgrain (Nat.mul_le_mul_right _ (Nat.le_of_not_le hlt))
  rw [nearest_units hb, nearest_units (h.trans_lt hb)] at hle
  obtain rfl : a = b := Nat.le_antisymm h hle
  exact hlt (Nat.le_refl _)

/-- An integer with its leading bit in place, and a spacing, are the code of their product. -/
theorem units_add {n shift : Nat} (hle : n ≤ 2 * f.exponentUnit)
    (hge : shift ≠ 0 → f.exponentUnit ≤ n) :
    f.units (n + shift * f.exponentUnit) = n * 2 ^ shift := by
  have hunit := exponentUnit_pos (f := f)
  rw [units_eq, significand]
  rcases Nat.lt_or_ge n f.exponentUnit with hsmall | hlarge
  · obtain rfl : shift = 0 := by
      by_contra hne
      exact absurd (hge hne) (by omega)
    have hcode : f.shift (n + 0 * f.exponentUnit) = 0 := by
      rw [Format.shift, Nat.zero_mul, Nat.add_zero, Nat.div_eq_of_lt hsmall]
    rw [hcode]
    omega
  · rcases hle.lt_or_eq with hlt | rfl
    · have hcode : f.shift (n + shift * f.exponentUnit) = shift := by
        have hquotient : n / f.exponentUnit = 1 := Nat.div_eq_of_lt_le (by omega) (by omega)
        rw [Format.shift, Nat.add_mul_div_right _ _ hunit, hquotient]
        omega
      rw [hcode, Nat.add_sub_cancel]
    -- one bit too many is the next spacing
    · have hcode : f.shift (2 * f.exponentUnit + shift * f.exponentUnit) = shift + 1 := by
        rw [Format.shift, ← Nat.add_mul, Nat.mul_div_cancel _ hunit]
        omega
      rw [hcode, ← Nat.add_mul, ← Nat.sub_mul, show 2 + shift - (shift + 1) = 1 by omega,
        Nat.pow_succ]
      ring

/-- A normal amount is rounded up by at most half a unit of its last bit. -/
theorem units_nearest_le {num den : Nat} (hden : 0 < den)
    (hnormal : f.exponentUnit * den ≤ num * 2 ^ f.grain)
    (hfinite : f.nearest num den < f.infinity) :
    f.units (f.nearest num den) * den * (2 * f.exponentUnit) ≤
      num * 2 ^ f.grain * (2 * f.exponentUnit + 1) := by
  rw [nearest_eq_nearestUnits] at hfinite ⊢
  generalize num * 2 ^ f.grain = num at hnormal hfinite ⊢
  unfold nearestUnits at hfinite ⊢
  dsimp only at hfinite ⊢
  generalize hshift : (num / den).log2 - f.fractionBits = shift at hfinite ⊢
  obtain ⟨hle, hge⟩ := f.roundHalfEven_spacing num den hshift
  rw [min_eq_right (by omega), units_add hle hge]
  -- The amount has all its bits, so the spacing is at most one unit of the last of them.
  have hspacing : den * 2 ^ shift * f.exponentUnit ≤ num := by
    have hquotient : 2 ^ f.fractionBits ≤ num / den := (Nat.le_div_iff_mul_le hden).2 hnormal
    have hne : num / den ≠ 0 := ((Nat.two_pow_pos _).trans_le hquotient).ne'
    have hbits : shift + f.fractionBits = (num / den).log2 := by
      have := (Nat.le_log2 hne).2 hquotient
      omega
    calc den * 2 ^ shift * f.exponentUnit = 2 ^ (num / den).log2 * den := by
          rw [exponentUnit_eq, Nat.mul_assoc, ← Nat.pow_add, hbits, Nat.mul_comm]
      _ ≤ num / den * den := Nat.mul_le_mul_right _ (Nat.log2_self_le hne)
      _ ≤ num := Nat.div_mul_le_self num den
  have hround := two_mul_roundHalfEven_le num (den * 2 ^ shift)
  generalize roundHalfEven num (den * 2 ^ shift) = rounded at hround
  calc rounded * 2 ^ shift * den * (2 * f.exponentUnit)
      = 2 * (rounded * (den * 2 ^ shift)) * f.exponentUnit := by ring
    _ ≤ (2 * num + den * 2 ^ shift) * f.exponentUnit := Nat.mul_le_mul_right _ hround
    _ = num * (2 * f.exponentUnit) + den * 2 ^ shift * f.exponentUnit := by ring
    _ ≤ num * (2 * f.exponentUnit) + num := Nat.add_le_add_left hspacing _
    _ = num * (2 * f.exponentUnit + 1) := by ring

end Format

end UnitCheck.Number
