import UnitCheck.Proofs.Registry.Canonical

/-!
  Factors over base units and factors over fundamental dimensions.

  Base units, which are the default units of fundamental dimensions, and the names of fundamental
  dimensions stand for each other one by one (`IsBase`). What a dimension is put into over the ones
  has the same powers as what it is put into over the others (`WellFormed.exponent_overDimensions`),
  so the totals of a factor of units are the same, too. One of the two is refused where the other
  is, and each is the other renamed (`WellFormed.dimensionsOfUnits_of_baseUnits`).
-/

namespace UnitCheck.Registry

variable {α : Type} {registry : Registry α}

theorem exists_isBase_of_name {name : String} (h : name ∈ registry.fundamentalNames) :
    ∃ unit, registry.IsBase unit name := by
  obtain ⟨id, dimension, hid, hfundamental, hname⟩ := mem_fundamentalNames_iff.1 h
  exact ⟨dimension.defaultUnit, id, dimension, hid, hfundamental, rfl, hname⟩

namespace WellFormed

variable [Scalar α]

/-- A base unit has only one dimension. -/
theorem name_eq_of_isBase (h : registry.WellFormed) {unit name other : String}
    (hname : registry.IsBase unit name) (hother : registry.IsBase unit other) : name = other := by
  obtain ⟨dimension, hdimension, -, rfl⟩ := h.exists_of_isBase hname
  obtain ⟨dimension', hdimension', -, rfl⟩ := h.exists_of_isBase hother
  obtain rfl := Except.ok.inj (hdimension.symm.trans hdimension')
  rfl

/-- A base unit and the name of its dimension have the same power, where the one is put for the
    other. -/
theorem exponent_of_renamed (h : registry.WellFormed) {base dimensions : Factor}
    (hrenamed : base.Renamed registry.IsBase dimensions) {unit name : String}
    (hbase : registry.IsBase unit name) (side : Side) :
    dimensions.exponent side name = base.exponent side unit :=
  (hrenamed.side side).exponent_eq (fun _ hother => h.name_eq_of_isBase hother hbase)
    fun _ hother => h.eq_of_isBase hother hbase

/-- What a dimension is put into over fundamental dimensions has the same powers as what it is put
    into over base units. -/
theorem exponent_overDimensions (h : registry.WellFormed) {id : Nat} {dimension : Dimension α}
    (hid : registry.dimension? id = some dimension) {unit name : String}
    (hbase : registry.IsBase unit name) (side : Side) :
    dimension.overDimensions.exponent side name = dimension.overUnits.exponent side unit := by
  cases hkind : dimension.isComposed with
  | true =>
    obtain ⟨composition, hcomposition⟩ := Option.isSome_iff_exists.1 hkind
    rw [Dimension.overDimensions_of_composition hcomposition,
      Dimension.overUnits_of_composition hcomposition]
    exact h.exponent_of_renamed (h.renamed_of_composition hid hcomposition) hbase side
  | false =>
    -- Both are symbols alone, which stand for each other.
    have hself : registry.IsBase dimension.defaultUnit dimension.name :=
      ⟨id, dimension, hid, hkind, rfl, rfl⟩
    have hsame : name = dimension.name ↔ unit = dimension.defaultUnit := by
      constructor
      · rintro rfl
        exact h.eq_of_isBase hbase hself
      · rintro rfl
        exact h.name_eq_of_isBase hbase hself
    rw [Dimension.overDimensions_of_fundamental hkind, Dimension.overUnits_of_fundamental hkind]
    simp only [Factor.exponent_ofSymbol, hsame]

/-- Only base units occur in what a dimension is put into over base units. -/
theorem mem_fundamentalUnits_of_overUnits (h : registry.WellFormed) {id : Nat}
    {dimension : Dimension α} (hid : registry.dimension? id = some dimension) {unit : String}
    (hunit : unit ∈ dimension.overUnits.symbols) : unit ∈ registry.fundamentalUnits := by
  cases hkind : dimension.isComposed with
  | true =>
    obtain ⟨composition, hcomposition⟩ := Option.isSome_iff_exists.1 hkind
    rw [Dimension.overUnits_of_composition hcomposition] at hunit
    exact (h.composition id dimension hid composition hcomposition).reference unit hunit
  | false =>
    rw [Dimension.overUnits_of_fundamental hkind] at hunit
    have hsame : unit = dimension.defaultUnit := List.mem_singleton.1 hunit
    exact (h.fundamentalUnits unit).2 ⟨id, dimension, hid, hkind, hsame.symm⟩

/-! ## Totals -/

/-- The totals of a base unit and of its dimension are the same. -/
theorem total_unitPowers (h : registry.WellFormed) {unit name : String}
    (hbase : registry.IsBase unit name) (units : Factor) (side : Side) :
    units.total registry.unitPowers side name = units.total registry.basePowers side unit := by
  have hpowers : ∀ symbol side,
      registry.unitPowers symbol side name = registry.basePowers symbol side unit := by
    intro symbol side
    rw [unitPowers, basePowers]
    cases hfound : registry.withUnit? symbol with
    | none => rfl
    | some dimension =>
      obtain ⟨id, hid⟩ := (h.withUnit?_eq_some_iff.1 hfound).1
      exact h.exponent_overDimensions hid hbase side
  simp only [Factor.total, hpowers]

theorem mem_fundamentalUnits_of_total_ne_zero (h : registry.WellFormed) {units : Factor}
    {side : Side} {unit : String} (hunit : units.total registry.basePowers side unit ≠ 0) :
    unit ∈ registry.fundamentalUnits := by
  obtain ⟨id, dimension, side', hid, hne⟩ :=
    exists_of_total_ne_zero (fun _ _ hfound => (h.withUnit?_eq_some_iff.1 hfound).1) hunit
  exact h.mem_fundamentalUnits_of_overUnits hid (Factor.mem_symbols_iff.2 ⟨side', hne⟩)

/-- The totals over fundamental dimensions are in range just if those over base units are. -/
theorem total_le_iff (h : registry.WellFormed) (units : Factor) :
    (∀ side unit, units.total registry.basePowers side unit ≤ maxExponent) ↔
      ∀ side name, units.total registry.unitPowers side name ≤ maxExponent := by
  -- A total that is not zero belongs to a base unit and its dimension, where both are the same.
  constructor
  · intro hrange side name
    by_cases hzero : units.total registry.unitPowers side name = 0
    · omega
    · obtain ⟨unit, hbase⟩ :=
        exists_isBase_of_name (h.mem_fundamentalNames_of_total_ne_zero hzero)
      rw [h.total_unitPowers hbase]
      exact hrange side unit
  · intro hrange side unit
    by_cases hzero : units.total registry.basePowers side unit = 0
    · omega
    · obtain ⟨name, hbase⟩ :=
        h.exists_isBase_of_unit (h.mem_fundamentalUnits_of_total_ne_zero hzero)
      rw [← h.total_unitPowers hbase]
      exact hrange side name

/-! ## Base units of a factor -/

section

variable {units base dimensions : Factor}

/-- A factor of units is put into base units just if it is put into fundamental dimensions. -/
theorem exists_baseUnits_iff (h : registry.WellFormed) :
    (∃ base, registry.baseUnits units = .ok base) ↔
      ∃ dimensions, registry.dimensionsOfUnits units = .ok dimensions := by
  rw [h.expands_baseUnits.exists_iff, h.expands_dimensionsOfUnits.exists_iff, h.total_le_iff]

theorem mem_fundamentalUnits_of_baseUnits (h : registry.WellFormed)
    (hunits : registry.baseUnits units = .ok base) {unit : String} (hunit : unit ∈ base.symbols) :
    unit ∈ registry.fundamentalUnits := by
  obtain ⟨side, hside⟩ := Factor.mem_symbols_iff.1 hunit
  rw [h.expands_baseUnits.exponent hunits] at hside
  exact h.mem_fundamentalUnits_of_total_ne_zero hside

/-- The base units of a factor measure what the factor measures, and they are named by it. -/
theorem dimensionsOfUnits_of_baseUnits (h : registry.WellFormed)
    (hunits : registry.baseUnits units = .ok base)
    (hdimensions : registry.dimensionsOfUnits units = .ok dimensions) :
    registry.dimensionsOfUnits base = .ok dimensions ∧
      base.Renamed registry.IsBase dimensions := by
  have hfundamental : ∀ unit ∈ base.symbols, unit ∈ registry.fundamentalUnits :=
    fun _ => h.mem_fundamentalUnits_of_baseUnits hunits
  obtain ⟨dimensions', hdimensions', hmeasures⟩ := h.exists_dimensionsOfUnits hfundamental
  have hrenamed : base.Renamed registry.IsBase dimensions' :=
    hmeasures.imp_of_mem fun unit hunit _ => h.isBase_of_measures (hfundamental unit hunit)
  -- The powers of the base units are the totals, which are the powers of the dimensions.
  have hsame : dimensions' = dimensions := by
    refine Factor.eq_of_exponent_of_mem
      (fun _ => h.mem_fundamentalNames_of_dimensionsOfUnits hdimensions')
      (fun _ => h.mem_fundamentalNames_of_dimensionsOfUnits hdimensions) fun name hname side => ?_
    obtain ⟨unit, hbase⟩ := exists_isBase_of_name hname
    rw [h.exponent_of_renamed hrenamed hbase, h.expands_baseUnits.exponent hunits,
      h.expands_dimensionsOfUnits.exponent hdimensions, h.total_unitPowers hbase]
  exact hsame ▸ ⟨hdimensions', hrenamed⟩

/-- Factors have the same base units just if they have the same dimensions. -/
theorem baseUnits_eq_iff (h : registry.WellFormed) {a b base other first second : Factor}
    (hbase : registry.baseUnits a = .ok base) (hother : registry.baseUnits b = .ok other)
    (hfirst : registry.dimensionsOfUnits a = .ok first)
    (hsecond : registry.dimensionsOfUnits b = .ok second) : base = other ↔ first = second := by
  obtain ⟨hmeasured, hrenamed⟩ := h.dimensionsOfUnits_of_baseUnits hbase hfirst
  obtain ⟨hmeasured', hrenamed'⟩ := h.dimensionsOfUnits_of_baseUnits hother hsecond
  constructor
  · rintro rfl
    exact Except.ok.inj (hmeasured.symm.trans hmeasured')
  · rintro rfl
    refine Factor.eq_of_exponent_of_mem (fun _ => h.mem_fundamentalUnits_of_baseUnits hbase)
      (fun _ => h.mem_fundamentalUnits_of_baseUnits hother) fun unit hunit side => ?_
    obtain ⟨name, hname⟩ := h.exists_isBase_of_unit hunit
    rw [← h.exponent_of_renamed hrenamed hname, ← h.exponent_of_renamed hrenamed' hname]

/-- A factor of base units is left as it is. -/
theorem baseUnits_self (h : registry.WellFormed)
    (hbase : ∀ unit ∈ base.symbols, unit ∈ registry.fundamentalUnits) :
    registry.baseUnits base = .ok base := by
  refine h.expands_baseUnits.eq_ok_self (fun unit hunit => ?_) fun unit hunit side s => ?_
  · obtain ⟨name, hname⟩ := h.exists_isBase_of_unit (hbase unit hunit)
    obtain ⟨dimension, hdimension, -⟩ := h.exists_of_isBase hname
    exact h.hasUnit_iff.2 ⟨dimension, hdimension⟩
  · obtain ⟨id, dimension, hid, hfundamental, rfl⟩ := (h.fundamentalUnits unit).1 (hbase unit hunit)
    have hmem := (h.proper id dimension hid).defaultUnit_mem
    have hfound := h.withUnit?_eq_some_iff.2 ⟨⟨id, hid⟩, hmem⟩
    rw [basePowers, hfound, ← Dimension.overUnits_of_fundamental hfundamental]
    rfl

/-- A factor of fundamental dimensions is left as it is. -/
theorem dimensionsOfDimensions_self (h : registry.WellFormed)
    (hnames : ∀ name ∈ dimensions.symbols, name ∈ registry.fundamentalNames) :
    registry.dimensionsOfDimensions dimensions = .ok dimensions := by
  refine h.expands_dimensionsOfDimensions.eq_ok_self (fun name hname => .inl (hnames name hname))
    fun name hname side s => ?_
  obtain ⟨id, dimension, hid, hfundamental, rfl⟩ := mem_fundamentalNames_iff.1 (hnames name hname)
  rw [namePowers, h.withName?_eq_some_iff.2 ⟨⟨id, hid⟩, rfl⟩,
    ← Dimension.overDimensions_of_fundamental hfundamental]
  rfl

end

end WellFormed

/-- A factor of units is put into base units just if it is put into fundamental dimensions. The
    dimensions are then the base units with their names, and the base units measure the same as the
    factor. Neither is changed by putting it into base units or fundamental dimensions again. -/
theorem baseUnits_dimensionsOfUnits [Scalar α] (h : registry.Reachable) (units : Factor) :
    ((∃ base, registry.baseUnits units = .ok base) ↔
      ∃ dimensions, registry.dimensionsOfUnits units = .ok dimensions) ∧
    ∀ base dimensions, registry.baseUnits units = .ok base →
      registry.dimensionsOfUnits units = .ok dimensions →
        base.Renamed registry.IsBase dimensions ∧
        registry.dimensionsOfUnits base = .ok dimensions ∧
        registry.baseUnits base = .ok base ∧
        registry.dimensionsOfDimensions dimensions = .ok dimensions := by
  have hwell := h.wellFormed
  refine ⟨hwell.exists_baseUnits_iff, fun base dimensions hbase hdimensions => ?_⟩
  obtain ⟨hmeasured, hrenamed⟩ := hwell.dimensionsOfUnits_of_baseUnits hbase hdimensions
  exact ⟨hrenamed, hmeasured,
    hwell.baseUnits_self fun _ => hwell.mem_fundamentalUnits_of_baseUnits hbase,
    hwell.dimensionsOfDimensions_self fun _ =>
      hwell.mem_fundamentalNames_of_dimensionsOfUnits hdimensions⟩

theorem baseUnits_dimensionsOfUnits_motions : ∃ base dimensions : Factor,
    ((empty : Registry Rat).after motions).Reachable ∧
    ((empty : Registry Rat).after motions).baseUnits
      ⟨.single "mark" .one, .single "mps" ⟨2, by decide, by decide⟩⟩ = .ok base ∧
    ((empty : Registry Rat).after motions).dimensionsOfUnits
      ⟨.single "mark" .one, .single "mps" ⟨2, by decide, by decide⟩⟩ = .ok dimensions ∧
    base.exponent .above "s" = 2 ∧ base.exponent .below "m" = 2 ∧
    base.Renamed ((empty : Registry Rat).after motions).IsBase dimensions ∧
    ((empty : Registry Rat).after motions).dimensionsOfUnits base = .ok dimensions ∧
    ((empty : Registry Rat).after motions).baseUnits base = .ok base ∧
    ((empty : Registry Rat).after motions).dimensionsOfDimensions dimensions = .ok dimensions := by
  obtain ⟨hlength, -, hvelocity⟩ := measuredBy_motions
  obtain ⟨dimensions, hdimensions⟩ : ∃ dimensions,
      ((empty : Registry Rat).after motions).dimensionsOfUnits
        ⟨.single "mark" .one, .single "mps" ⟨2, by decide, by decide⟩⟩ = .ok dimensions :=
    ⟨_, dimensionsOfUnits_quotient (hlength "mark" (by simp)) hvelocity _ _⟩
  obtain ⟨hiff, hagree⟩ := baseUnits_dimensionsOfUnits reachable_motions
    ⟨.single "mark" .one, .single "mps" ⟨2, by decide, by decide⟩⟩
  obtain ⟨base, hbase⟩ := hiff.2 ⟨dimensions, hdimensions⟩
  -- The powers of the base units are sums over the units, which are calculated.
  have hexponent := reachable_motions.wellFormed.expands_baseUnits.exponent hbase
  refine ⟨base, dimensions, reachable_motions, hbase, hdimensions, ?_, ?_,
    hagree base dimensions hbase hdimensions⟩
  · rw [hexponent, after_motions]
    decide +kernel
  · rw [hexponent, after_motions]
    decide +kernel

end UnitCheck.Registry
