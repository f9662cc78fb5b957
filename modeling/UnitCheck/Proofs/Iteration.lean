import Mathlib.Algebra.Ring.GeomSum
import UnitCheck.Proofs.Conversion

/-!
  A conversion taken many times.

  Squaring a map and taking it for the odd binary digits is right because powers of one map commute,
  although maps in general do not: the loop gives the power in the monoid of maps
  (`iterate_eq_pow`). Here the power is described from the outside. It is what composing the map
  one by one gives (`pow_eq_composed`), its offset is a geometric sum (`offset_pow`), and its
  inverse is the power of the inverse (`inverse?_iterate`).
-/

namespace UnitCheck.Conversion

variable {map inverse : Conversion Rat}

/-- The map composed one by one, from the identity on. -/
def composed (map : Conversion Rat) : Nat → Conversion Rat
  | 0 => identity
  | n + 1 => (map.composed n).compose map

theorem pow_eq_composed (map : Conversion Rat) (n : Nat) : map ^ n = map.composed n := by
  induction n with
  | zero => rw [pow_zero, composed, identity_eq_one]
  | succ n ih => rw [pow_succ, ih, composed, compose_eq_mul]

/-- Every time the map is taken, the offset of before is scaled and one offset more is added. -/
theorem offset_pow (map : Conversion Rat) (n : Nat) :
    (map ^ n).offset = map.offset * ∑ i ∈ Finset.range n, map.factor ^ i := by
  induction n with
  | zero =>
    rw [pow_zero, Finset.range_zero, Finset.sum_empty, mul_zero]
    rfl
  | succ n ih =>
    calc (map ^ (n + 1)).offset
        = (map ^ n).offset * map.factor + map.offset := by rw [pow_succ, mul_eq]
      _ = map.offset * (map.factor * ∑ i ∈ Finset.range n, map.factor ^ i + 1) := by
        rw [ih]
        ring
      _ = map.offset * ∑ i ∈ Finset.range (n + 1), map.factor ^ i := by rw [geom_sum_succ]

/-- The way backwards is the map backwards as many times. -/
theorem inverse?_iterate (h : map.inverse? = some inverse) (n : Nat) :
    (map.iterate n).inverse? = some (inverse.iterate n) := by
  obtain ⟨hright, hleft⟩ := inverse?_eq_some_iff.1 h
  rw [iterate_eq_pow, iterate_eq_pow, inverse?_eq_some_iff]
  exact ⟨pow_mul_pow_eq_one n hright, pow_mul_pow_eq_one n hleft⟩

/-- A map whose factor is not zero has an inverse. -/
theorem exists_inverse? (h : map.factor ≠ 0) : ∃ inverse, map.inverse? = some inverse :=
  ⟨_, by rw [inverse?_eq, if_neg h]⟩

/-- **Taking a conversion `n` times by squaring.** For every map, a factor of zero and negative
    factors included, the loop gives what composing the map one by one gives, from the identity
    on: the factor to the power `n`, and the offset times the sum of the powers below `n`. Times
    add up, in either order of composing, and the map of a number of times is turned backwards by
    taking the map backwards. -/
theorem iterate_composed (map : Conversion Rat) (m n : Nat) :
    map.iterate n = map.composed n ∧
    map.iterate n =
      ⟨map.factor ^ n, map.offset * ∑ i ∈ Finset.range n, map.factor ^ i⟩ ∧
    (map.iterate (m + n) = (map.iterate m).compose (map.iterate n) ∧
      map.iterate (m + n) = (map.iterate n).compose (map.iterate m)) ∧
    (map.factor ≠ 0 → ∃ inverse, map.inverse? = some inverse ∧
      (map.iterate n).inverse? = some (inverse.iterate n)) := by
  refine ⟨?_, ?_, ⟨?_, ?_⟩, fun hfactor => ?_⟩
  · rw [iterate_eq_pow, pow_eq_composed]
  · rw [iterate_eq_pow]
    ext
    · rw [factor_pow]
    · rw [offset_pow]
  · rw [iterate_eq_pow, iterate_eq_pow, iterate_eq_pow, compose_eq_mul, pow_add]
  · rw [iterate_eq_pow, iterate_eq_pow, iterate_eq_pow, compose_eq_mul, ← pow_add, add_comm]
  · obtain ⟨inverse, hinverse⟩ := exists_inverse? hfactor
    exact ⟨inverse, hinverse, inverse?_iterate hinverse n⟩

/-- Three halves and two more, five times over. -/
theorem iterate_composed_five :
    let map : Conversion Rat := ⟨3 / 2, 2⟩
    map.factor ≠ 0 ∧ map.iterate 5 = ⟨243 / 32, 211 / 8⟩ ∧
      ∃ inverse, map.inverse? = some inverse ∧
        (map.iterate 5).inverse? = some (inverse.iterate 5) := by
  intro map
  obtain ⟨-, hclosed, -, hinverse⟩ := iterate_composed map 2 5
  have hfactor : map.factor ≠ 0 := by
    show (3 / 2 : Rat) ≠ 0
    norm_num
  refine ⟨hfactor, ?_, hinverse hfactor⟩
  rw [hclosed]
  -- Factor and offset are those of the closed form.
  ext
  · show (3 / 2 : Rat) ^ 5 = 243 / 32
    norm_num
  · show (2 : Rat) * ∑ i ∈ Finset.range 5, (3 / 2) ^ i = 211 / 8
    norm_num [Finset.sum_range_succ]

end UnitCheck.Conversion
