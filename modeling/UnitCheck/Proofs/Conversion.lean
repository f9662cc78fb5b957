import Mathlib.Algebra.Order.Ring.Rat
import Mathlib.Tactic.FieldSimp
import Mathlib.Tactic.Ring
import UnitCheck.Conversion

/-!
  Conversions over rational numbers.

  Without rounding, conversions are the affine maps: composing them is a multiplication with the
  identity as its unit, taking a map `n` times by squaring is its power (`iterate_eq_pow`), and a
  map whose factor is not zero has an inverse on both sides (`inverse?_eq_some_iff`).
-/

namespace UnitCheck.Conversion

@[ext] theorem ext {first second : Conversion Rat} (hfactor : first.factor = second.factor)
    (hoffset : first.offset = second.offset) : first = second := by
  cases first
  cases second
  cases hfactor
  cases hoffset
  rfl

/-- Composing conversions is associative, and the identity is neutral. -/
instance : Monoid (Conversion Rat) where
  mul := compose
  one := identity
  mul_assoc first second third := by
    show (first.compose second).compose third = first.compose (second.compose third)
    ext
    · show first.factor * second.factor * third.factor =
        first.factor * (second.factor * third.factor)
      ring
    · show (first.offset * second.factor + second.offset) * third.factor + third.offset =
        first.offset * (second.factor * third.factor) +
          (second.offset * third.factor + third.offset)
      ring
  one_mul map := by
    show identity.compose map = map
    ext
    · show 1 * map.factor = map.factor
      ring
    · show 0 * map.factor + map.offset = map.offset
      ring
  mul_one map := by
    show map.compose identity = map
    ext
    · show map.factor * 1 = map.factor
      ring
    · show map.offset * 1 + 0 = map.offset
      ring

theorem compose_eq_mul (first second : Conversion Rat) :
    first.compose second = first * second := rfl

theorem identity_eq_one : (identity : Conversion Rat) = 1 := rfl

theorem mul_eq (first second : Conversion Rat) : first * second =
    ⟨first.factor * second.factor, first.offset * second.factor + second.offset⟩ := rfl

@[simp] theorem factor_one : (1 : Conversion Rat).factor = 1 := rfl

@[simp] theorem factor_mul (first second : Conversion Rat) :
    (first * second).factor = first.factor * second.factor := rfl

/-! ## Powers -/

@[simp] theorem factor_pow (map : Conversion Rat) (n : Nat) :
    (map ^ n).factor = map.factor ^ n := by
  induction n with
  | zero => rw [pow_zero, pow_zero, factor_one]
  | succ n ih => rw [pow_succ, factor_mul, ih, pow_succ]

/-- Squaring goes through the binary digits: the result takes the odd ones. -/
theorem iterateAfter_eq (result base : Conversion Rat) (n : Nat) :
    iterateAfter result base n = result * base ^ n := by
  induction n using Nat.strongRecOn generalizing result base with
  | ind n ih =>
    rw [iterateAfter]
    by_cases hn : n = 0
    · rw [if_pos hn, hn, pow_zero, mul_one]
    · have hhalf : n / 2 < n := by omega
      -- The number is twice its half and its last digit; the half is for the squared base.
      have hdigits : 2 * (n / 2) + n % 2 = n := by omega
      have hsquares : (base.compose base) ^ (n / 2) = base ^ (2 * (n / 2)) := by
        rw [compose_eq_mul, ← sq, ← pow_mul]
      rw [if_neg hn, ih (n / 2) hhalf, hsquares]
      by_cases hodd : n % 2 = 1
      · rw [if_pos hodd, compose_eq_mul, mul_assoc, ← pow_succ', ← hodd, hdigits]
      · have heven : n % 2 = 0 := by omega
        rw [heven, Nat.add_zero] at hdigits
        rw [if_neg hodd, hdigits]

/-- A map taken `n` times is its power. -/
theorem iterate_eq_pow (map : Conversion Rat) (n : Nat) : map.iterate n = map ^ n := by
  rw [iterate, iterateAfter_eq, identity_eq_one, one_mul]

/-! ## Inverses -/

theorem isZero_iff {x : Rat} : Scalar.isZero x = true ↔ x = 0 := beq_iff_eq

theorem inverse?_eq (map : Conversion Rat) : map.inverse? =
    if map.factor = 0 then none else some ⟨1 / map.factor, -map.offset / map.factor⟩ := by
  by_cases h : map.factor = 0
  · rw [if_pos h, inverse?, if_pos (isZero_iff.2 h)]
  · rw [if_neg h, inverse?, if_neg fun hzero => h (isZero_iff.1 hzero)]
    rfl

/-- Only the maps whose factor is zero have no inverse. -/
theorem inverse?_eq_none_iff {map : Conversion Rat} : map.inverse? = none ↔ map.factor = 0 := by
  rw [inverse?_eq]
  by_cases h : map.factor = 0 <;> simp [h]

/-- The map backwards undoes the map, before it and after it. -/
theorem inverse?_eq_some_iff {map inverse : Conversion Rat} :
    map.inverse? = some inverse ↔ map * inverse = 1 ∧ inverse * map = 1 := by
  rw [inverse?_eq]
  constructor
  · intro h
    by_cases hzero : map.factor = 0
    · rw [if_pos hzero] at h
      cases h
    · rw [if_neg hzero] at h
      obtain rfl := Option.some.inj h
      constructor
      · ext
        · show map.factor * (1 / map.factor) = 1
          field_simp
        · show map.offset * (1 / map.factor) + -map.offset / map.factor = 0
          field_simp
          ring
      · ext
        · show 1 / map.factor * map.factor = 1
          field_simp
        · show -map.offset / map.factor * map.factor + map.offset = 0
          field_simp
          ring
  · rintro ⟨hright, hleft⟩
    -- The equations for the factors and the offsets leave only one inverse.
    have hfactor : map.factor * inverse.factor = 1 := congrArg factor hright
    have hoffset : map.offset * inverse.factor + inverse.offset = 0 := congrArg offset hright
    have hzero : map.factor ≠ 0 := left_ne_zero_of_mul_eq_one hfactor
    rw [if_neg hzero, Option.some.injEq]
    ext
    · show 1 / map.factor = inverse.factor
      field_simp
      exact hfactor.symm
    · show -map.offset / map.factor = inverse.offset
      field_simp
      calc -map.offset = -map.offset * (map.factor * inverse.factor) := by rw [hfactor, mul_one]
        _ = map.factor * inverse.offset := by
          rw [eq_neg_of_add_eq_zero_right hoffset]
          ring

theorem factor_ne_zero_of_mul_eq_one {map inverse : Conversion Rat} (h : map * inverse = 1) :
    inverse.factor ≠ 0 := by
  have hfactor : map.factor * inverse.factor = 1 := congrArg factor h
  exact right_ne_zero_of_mul_eq_one hfactor

/-! ## Images -/

theorem apply_mul (first second : Conversion Rat) (x : Rat) :
    (first * second).apply x = second.apply (first.apply x) := by
  show x * (first.factor * second.factor) + (first.offset * second.factor + second.offset) =
    (x * first.factor + first.offset) * second.factor + second.offset
  ring

theorem apply_one (x : Rat) : (1 : Conversion Rat).apply x = x := by
  show x * 1 + 0 = x
  ring

end UnitCheck.Conversion
