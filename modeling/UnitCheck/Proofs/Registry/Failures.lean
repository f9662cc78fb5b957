import UnitCheck.Proofs.Registry.NormalForm
import UnitCheck.Proofs.Registry.Order

/-!
  How calculating with known units can fail.

  Factors are multiplied, divided and raised unless a power gets too large
  (`UnitError.IsOverflow`), and substituting terms for symbols adds no other failure to those of the
  terms. The term of a known unit is a power, so a question about known units is refused only for
  an overflow (`WellFormed.isOverflow_of_lookup`). To normalize a quantity, the units below the bar
  are followed backwards, too. Over rational numbers this is the only other failure: one of them
  maps all values to one (`Quantity.normalize_eq_error_iff`).
-/

namespace UnitCheck

/-- A power is too large. -/
def UnitError.IsOverflow (cause : UnitError) : Prop := ∃ symbol, cause = .exponentOverflow symbol

variable {cause : UnitError}

/-! ## Arithmetic of factors -/

theorem Terms.isOverflow_of_mul {a b : Terms} (h : a.mul b = .error cause) : cause.IsOverflow := by
  obtain ⟨e, -, t, hraise⟩ := exists_of_foldlM_eq_error h
  exact ⟨e.1, (Terms.raise_eq_error_iff.1 hraise).2⟩

theorem Terms.isOverflow_of_scale {t : Terms} {n : Nat} (h : t.scale n = .error cause) :
    cause.IsOverflow := by
  obtain ⟨e, -, acc, hstep⟩ := exists_of_foldlM_eq_error h
  split at hstep
  · cases hstep
  · cases hstep
    exact ⟨e.1, rfl⟩

namespace Factor

theorem isOverflow_of_mul {a b : Factor} (h : a.mul b = .error cause) : cause.IsOverflow := by
  rcases bind_eq_error_iff.1 h with habove | ⟨numerator, -, h⟩
  · exact Terms.isOverflow_of_mul habove
  · rcases bind_eq_error_iff.1 h with hbelow | ⟨denominator, -, h⟩
    · exact Terms.isOverflow_of_mul hbelow
    · cases h

theorem isOverflow_of_pow {a : Factor} {n : Nat} (h : a.pow n = .error cause) :
    cause.IsOverflow := by
  rw [pow] at h
  split at h
  · cases h
  · rcases bind_eq_error_iff.1 h with habove | ⟨numerator, -, h⟩
    · exact Terms.isOverflow_of_scale habove
    · rcases bind_eq_error_iff.1 h with hbelow | ⟨denominator, -, h⟩
      · exact Terms.isOverflow_of_scale hbelow
      · cases h

end Factor

namespace Registry

/-! ## Substituting -/

/-- Substituting terms fails as one of the terms does, or for an overflow. -/
theorem isOverflow_of_substitute {term : String → Exponent → Except UnitError Factor}
    {factor : Factor}
    (hterm : ∀ symbol ∈ factor.symbols, ∀ power, term symbol power = .error cause →
      cause.IsOverflow)
    (h : substitute term factor = .error cause) : cause.IsOverflow := by
  rcases bind_eq_error_iff.1 h with habove | ⟨above, -, hbelow⟩
  · obtain ⟨e, he, result, hstep⟩ := exists_of_foldlM_eq_error habove
    rcases bind_eq_error_iff.1 hstep with hfail | ⟨t, -, hmul⟩
    · exact hterm e.1 (List.mem_append_left _ (List.mem_map_of_mem he)) e.2 hfail
    · exact Factor.isOverflow_of_mul hmul
  · obtain ⟨e, he, result, hstep⟩ := exists_of_foldlM_eq_error hbelow
    rcases bind_eq_error_iff.1 hstep with hfail | ⟨t, -, hdiv⟩
    · exact hterm e.1 (List.mem_append_right _ (List.mem_map_of_mem he)) e.2 hfail
    · exact Factor.isOverflow_of_mul hdiv

/-! ## Questions about known units -/

variable {α : Type} [Scalar α] {registry : Registry α} {units other : Factor}

namespace WellFormed

/-- Powers of what known units stand for fail only for an overflow. -/
theorem isOverflow_of_lookup (h : registry.WellFormed)
    (hunits : ∀ unit ∈ units.symbols, registry.hasUnit unit = true)
    {term : Dimension α → Exponent → Except UnitError Factor} {formula : Dimension α → Factor}
    (hterm : ∀ dimension power, term dimension power = (formula dimension).pow power.val)
    (hfail : substitute (fun unit power => do term (← registry.measuredBy unit) power) units =
      .error cause) : cause.IsOverflow := by
  refine isOverflow_of_substitute (fun unit hunit power hfail => ?_) hfail
  obtain ⟨dimension, hmeasured⟩ := h.hasUnit_iff.1 (hunits unit hunit)
  rw [hmeasured] at hfail
  have hpow : (formula dimension).pow power.val = .error cause := by
    rw [← hterm]
    exact hfail
  exact Factor.isOverflow_of_pow hpow

theorem isOverflow_of_dimensionsOfUnits (h : registry.WellFormed)
    (hunits : ∀ unit ∈ units.symbols, registry.hasUnit unit = true)
    (hfail : registry.dimensionsOfUnits units = .error cause) : cause.IsOverflow :=
  h.isOverflow_of_lookup hunits dimensionTerm_eq hfail

theorem isOverflow_of_baseUnits (h : registry.WellFormed)
    (hunits : ∀ unit ∈ units.symbols, registry.hasUnit unit = true)
    (hfail : registry.baseUnits units = .error cause) : cause.IsOverflow :=
  h.isOverflow_of_lookup hunits unitTerm_eq hfail

theorem isOverflow_of_sameDimensions (h : registry.WellFormed)
    (hunits : ∀ unit ∈ units.symbols, registry.hasUnit unit = true)
    (hother : ∀ unit ∈ other.symbols, registry.hasUnit unit = true)
    (hfail : registry.sameDimensions units other = .error cause) : cause.IsOverflow := by
  rcases bind_eq_error_iff.1 hfail with hfail | ⟨first, -, hfail⟩
  · exact h.isOverflow_of_dimensionsOfUnits hunits hfail
  · rcases bind_eq_error_iff.1 hfail with hfail | ⟨second, -, hfail⟩
    · exact h.isOverflow_of_dimensionsOfUnits hother hfail
    · cases hfail

/-! ## Base units -/

theorem hasUnit_of_mem_fundamentalUnits (h : registry.WellFormed) {unit : String}
    (hunit : unit ∈ registry.fundamentalUnits) : registry.hasUnit unit = true := by
  obtain ⟨name, hbase⟩ := h.exists_isBase_of_unit hunit
  obtain ⟨dimension, hmeasured, -⟩ := h.exists_of_isBase hbase
  exact h.hasUnit_iff.2 ⟨dimension, hmeasured⟩

/-- The step of a base unit changes nothing. -/
theorem unitStep_of_mem_fundamentalUnits (h : registry.WellFormed) {unit : String}
    (hunit : unit ∈ registry.fundamentalUnits) : registry.unitStep unit = .ok .identity := by
  obtain ⟨id, dimension, hid, hfundamental, rfl⟩ := (h.fundamentalUnits unit).1 hunit
  have hproper := h.proper id dimension hid
  rw [unitStep, h.measuredBy_eq_ok hid hproper.defaultUnit_mem]
  simp only [bind, Except.bind, hproper.multiple?_defaultUnit,
    Dimension.isComposed_eq_false_iff.1 hfundamental]
  rfl

theorem not_collapses_of_mem_fundamentalUnits {registry : Registry Rat} (h : registry.WellFormed)
    {unit : String} (hunit : unit ∈ registry.fundamentalUnits) : ¬registry.Collapses unit := by
  rintro ⟨step, hstep, hzero⟩
  obtain rfl := Except.ok.inj ((h.unitStep_of_mem_fundamentalUnits hunit).symm.trans hstep)
  exact absurd hzero one_ne_zero

end WellFormed

end Registry

/-! ## Normal forms -/

namespace Quantity

/-- A quantity in known units is normalized unless a power gets too large or a unit cannot be
    followed backwards. -/
theorem cause_of_normalize {α : Type} [Scalar α] {registry : Registry α} {q : Quantity α}
    (h : registry.WellFormed) (hunits : ∀ unit ∈ q.unit.symbols, registry.hasUnit unit = true)
    (hfail : q.normalize registry = .error cause) :
    cause.IsOverflow ∨ cause = .zeroConversionFactor := by
  rcases bind_eq_error_iff.1 hfail with hfail | ⟨base, hbase, hfail⟩
  · exact .inl (h.isOverflow_of_baseUnits hunits hfail)
  · rcases bind_eq_error_iff.1 hfail with hfail | ⟨map, -, hfail⟩
    · have hknown : ∀ unit ∈ base.symbols, registry.hasUnit unit = true := fun unit hunit =>
        h.hasUnit_of_mem_fundamentalUnits (h.mem_fundamentalUnits_of_baseUnits hbase hunit)
      exact .inr (h.eq_zeroConversionFactor_of_conversion hunits hknown hfail)
    · cases hfail

/-- Over rational numbers, a unit cannot be followed backwards only if it stands below the bar and
    maps all values to one. -/
theorem normalize_eq_error_iff {registry : Registry Rat} {q : Quantity Rat}
    (h : registry.WellFormed) (hunits : ∀ unit ∈ q.unit.symbols, registry.hasUnit unit = true) :
    q.normalize registry = .error .zeroConversionFactor ↔
      (∃ base, registry.baseUnits q.unit = .ok base) ∧
        ∃ unit ∈ q.unit.denominator.symbols, registry.Collapses unit := by
  constructor
  -- The target has base units only, so what cannot be followed backwards is in the source.
  · intro hfail
    rcases bind_eq_error_iff.1 hfail with hfail | ⟨base, hbase, hfail⟩
    · obtain ⟨symbol, hsymbol⟩ := h.isOverflow_of_baseUnits hunits hfail
      cases hsymbol
    refine ⟨⟨base, hbase⟩, ?_⟩
    rcases bind_eq_error_iff.1 hfail with hfail | ⟨map, -, hfail⟩
    · rcases Registry.collapses_of_conversion_eq_error hfail with hbelow | ⟨unit, hunit, hcollapses⟩
      · exact hbelow
      · exact absurd hcollapses (h.not_collapses_of_mem_fundamentalUnits
          (h.mem_fundamentalUnits_of_baseUnits hbase hunit))
    · cases hfail
  · rintro ⟨⟨base, hbase⟩, unit, hunit, step, hstep, hzero⟩
    rw [normalize, hbase]
    show (registry.conversion q.unit base >>= _) = _
    -- The way from the unit stops at the one that collapses.
    have hnot : ¬∃ map, registry.toBase q.unit = .ok map := by
      intro hmap
      obtain ⟨step', hstep', hne⟩ := (h.exists_toBase_iff hunits).1 hmap unit hunit
      obtain rfl := Except.ok.inj (hstep.symm.trans hstep')
      exact absurd (Conversion.isZero_iff.2 hzero) (by simp [hne])
    cases hmap : registry.toBase q.unit with
    | ok map => exact absurd ⟨map, hmap⟩ hnot
    | error cause =>
      obtain ⟨rfl, -⟩ := h.of_toBase_eq_error hunits hmap
      rw [Registry.conversion, hmap]
      rfl

end Quantity

/-! ## Analyzing a unit -/

/-- Of the questions about a unit, none fails but for an overflow or for a unit that cannot be
    followed backwards. -/
structure Registry.Analyzes {α : Type} [Scalar α] (registry : Registry α) (units : Factor) :
    Prop where
  dimensionsOfUnits : ∀ cause, registry.dimensionsOfUnits units = .error cause → cause.IsOverflow
  baseUnits : ∀ cause, registry.baseUnits units = .error cause → cause.IsOverflow
  sameDimensions : ∀ other : Factor, (∀ unit ∈ other.symbols, registry.hasUnit unit = true) →
    ∀ cause, registry.sameDimensions units other = .error cause ∨
      registry.sameDimensions other units = .error cause → cause.IsOverflow
  normalize : ∀ value cause, (⟨value, units⟩ : Quantity α).normalize registry = .error cause →
    cause.IsOverflow ∨ cause = .zeroConversionFactor

/-- A registry analyzes what has only units that it knows. -/
theorem Registry.WellFormed.analyzes {α : Type} [Scalar α] {registry : Registry α} {units : Factor}
    (h : registry.WellFormed) (hunits : ∀ unit ∈ units.symbols, registry.hasUnit unit = true) :
    registry.Analyzes units where
  dimensionsOfUnits _ := h.isOverflow_of_dimensionsOfUnits hunits
  baseUnits _ := h.isOverflow_of_baseUnits hunits
  sameDimensions _ hother _ := by
    rintro (hfail | hfail)
    · exact h.isOverflow_of_sameDimensions hunits hother hfail
    · exact h.isOverflow_of_sameDimensions hother hunits hfail
  normalize _ _ := Quantity.cause_of_normalize h hunits

end UnitCheck
