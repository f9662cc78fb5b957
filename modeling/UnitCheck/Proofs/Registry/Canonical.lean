import UnitCheck.Proofs.Factor.Substitution
import UnitCheck.Proofs.Registry.Records

/-!
  Factors over fundamental dimensions.

  A unit stands for what composes its dimension, or for its dimension itself if that is fundamental
  (`Dimension.overDimensions`). The dimensions of a factor of units, and those of a factor of
  dimensions, are what its symbols stand for taken together
  (`WellFormed.expands_dimensionsOfUnits`, `WellFormed.expands_dimensionsOfDimensions`). Only
  fundamental dimensions occur in them.
-/

namespace UnitCheck

variable {α : Type}

namespace Dimension

/-- The dimension over names of fundamental dimensions: what composes it, or itself. -/
def overDimensions (dimension : Dimension α) : Factor :=
  match dimension.composition with
  | some composition => composition.dimensions
  | none => .ofSymbol dimension.name

/-- The default unit of the dimension over default units of fundamental dimensions. -/
def overUnits (dimension : Dimension α) : Factor :=
  match dimension.composition with
  | some composition => composition.reference
  | none => .ofSymbol dimension.defaultUnit

theorem overDimensions_of_composition {dimension : Dimension α} {composition : Composition α}
    (h : dimension.composition = some composition) :
    dimension.overDimensions = composition.dimensions := by
  rw [overDimensions, h]

theorem overUnits_of_composition {dimension : Dimension α} {composition : Composition α}
    (h : dimension.composition = some composition) :
    dimension.overUnits = composition.reference := by
  rw [overUnits, h]

theorem isComposed_eq_false_iff {dimension : Dimension α} :
    dimension.isComposed = false ↔ dimension.composition = none := by
  rw [isComposed, Option.isSome_eq_false_iff, Option.isNone_iff_eq_none]

/-- A fundamental dimension is its own name. -/
theorem overDimensions_of_fundamental {dimension : Dimension α} (h : dimension.isComposed = false) :
    dimension.overDimensions = .ofSymbol dimension.name := by
  rw [overDimensions, isComposed_eq_false_iff.1 h]

theorem overUnits_of_fundamental {dimension : Dimension α} (h : dimension.isComposed = false) :
    dimension.overUnits = .ofSymbol dimension.defaultUnit := by
  rw [overUnits, isComposed_eq_false_iff.1 h]

end Dimension

theorem Factor.Renamed.side {Names : String → String → Prop} {factor renamed : Factor}
    (h : factor.Renamed Names renamed) (side : Side) :
    (factor.side side).Renamed Names (renamed.side side) := by
  cases side with
  | above => exact h.numerator
  | below => exact h.denominator

namespace Registry

variable {registry : Registry α}

theorem dimensionTerm_eq (dimension : Dimension α) (power : Exponent) :
    dimensionTerm dimension power = dimension.overDimensions.pow power.val := by
  rw [dimensionTerm, Dimension.overDimensions]
  cases dimension.composition with
  | some composition => rfl
  | none => exact (Factor.pow_ofSymbol dimension.name power).symm

theorem unitTerm_eq (dimension : Dimension α) (power : Exponent) :
    unitTerm dimension power = dimension.overUnits.pow power.val := by
  rw [unitTerm, Dimension.overUnits]
  cases dimension.composition with
  | some composition => rfl
  | none => exact (Factor.pow_ofSymbol dimension.defaultUnit power).symm

/-! ## What symbols stand for -/

/-- The powers of what a dimension is put into, if there is a dimension. -/
def powersOf (formula : Dimension α → Factor) (found : Option (Dimension α)) (side : Side)
    (s : String) : Nat :=
  match found with
  | some dimension => (formula dimension).exponent side s
  | none => 0

/-- The powers of fundamental dimensions in what a unit measures. -/
def unitPowers (registry : Registry α) (unit : String) : Side → String → Nat :=
  powersOf Dimension.overDimensions (registry.withUnit? unit)

/-- The powers of fundamental dimensions in a dimension of that name. -/
def namePowers (registry : Registry α) (name : String) : Side → String → Nat :=
  powersOf Dimension.overDimensions (registry.withName? name)

/-- The powers of default units of fundamental dimensions in a unit. -/
def basePowers (registry : Registry α) (unit : String) : Side → String → Nat :=
  powersOf Dimension.overUnits (registry.withUnit? unit)

/-- Looking up dimensions and raising their formulas expands symbols. -/
theorem expands_of_lookup (lookup : String → Except UnitError (Dimension α))
    (search : String → Option (Dimension α))
    (hlookup : ∀ symbol dimension, lookup symbol = .ok dimension ↔ search symbol = some dimension)
    {Known : String → Prop}
    (hknown : ∀ symbol, Known symbol ↔ ∃ dimension, lookup symbol = .ok dimension)
    {term : Dimension α → Exponent → Except UnitError Factor} {formula : Dimension α → Factor}
    (hterm : ∀ dimension power, term dimension power = (formula dimension).pow power.val) :
    Expands (substitute fun symbol power => do term (← lookup symbol) power) Known
      fun symbol => powersOf formula (search symbol) := by
  refine expands_substitute (fun symbol power result h => ?_) fun symbol h power => ?_
  · obtain ⟨dimension, hdimension, -⟩ := bind_eq_ok_iff.1 h
    exact (hknown symbol).2 ⟨dimension, hdimension⟩
  · obtain ⟨dimension, hdimension⟩ := (hknown symbol).1 h
    rw [hdimension, (hlookup symbol dimension).1 hdimension]
    show Factor.Gives (term dimension power) _
    rw [hterm]
    exact Factor.gives_pow _ _

/-- What has a power in a total, has one in what a dimension is put into. -/
theorem exists_of_total_ne_zero {a : Factor} {formula : Dimension α → Factor}
    {search : String → Option (Dimension α)}
    (hsearch : ∀ symbol dimension, search symbol = some dimension →
      ∃ id, registry.dimension? id = some dimension) {side : Side} {s : String}
    (hs : a.total (fun symbol => powersOf formula (search symbol)) side s ≠ 0) :
    ∃ id dimension side', registry.dimension? id = some dimension ∧
      (formula dimension).exponent side' s ≠ 0 := by
  by_contra hnone
  refine hs (Factor.total_eq_zero (fun symbol _ side' => ?_) side)
  cases hfound : search symbol with
  | none => rfl
  | some dimension =>
    obtain ⟨id, hid⟩ := hsearch symbol dimension hfound
    by_contra hne
    exact hnone ⟨id, dimension, side', hid, hne⟩

namespace WellFormed

variable [Scalar α]

theorem expands_dimensionsOfUnits (h : registry.WellFormed) :
    Expands registry.dimensionsOfUnits (fun unit => registry.hasUnit unit = true)
      registry.unitPowers :=
  expands_of_lookup registry.measuredBy registry.withUnit?
    (fun _ _ => h.measuredBy_eq_ok_iff_withUnit?) (fun _ => h.hasUnit_iff) dimensionTerm_eq

theorem expands_dimensionsOfDimensions (h : registry.WellFormed) :
    Expands registry.dimensionsOfDimensions
      (fun name => name ∈ registry.fundamentalNames ∨ name ∈ registry.composedNames)
      registry.namePowers :=
  expands_of_lookup registry.named registry.withName? (fun _ _ => h.named_eq_ok_iff)
    (fun _ => h.mem_names_iff) dimensionTerm_eq

theorem expands_baseUnits (h : registry.WellFormed) :
    Expands registry.baseUnits (fun unit => registry.hasUnit unit = true) registry.basePowers :=
  expands_of_lookup registry.measuredBy registry.withUnit?
    (fun _ _ => h.measuredBy_eq_ok_iff_withUnit?) (fun _ => h.hasUnit_iff) unitTerm_eq

/-- A unit alone measures what its dimension is put into. -/
theorem dimensionsOfUnits_ofSymbol (h : registry.WellFormed) {unit : String}
    {dimension : Dimension α} (hmeasured : registry.measuredBy unit = .ok dimension) :
    registry.dimensionsOfUnits (.ofSymbol unit) = .ok dimension.overDimensions := by
  refine h.expands_dimensionsOfUnits.ofSymbol (h.hasUnit_iff.2 ⟨dimension, hmeasured⟩) fun _ _ => ?_
  rw [unitPowers, h.measuredBy_eq_ok_iff_withUnit?.1 hmeasured]
  rfl

theorem baseUnits_ofSymbol (h : registry.WellFormed) {unit : String} {dimension : Dimension α}
    (hmeasured : registry.measuredBy unit = .ok dimension) :
    registry.baseUnits (.ofSymbol unit) = .ok dimension.overUnits := by
  refine h.expands_baseUnits.ofSymbol (h.hasUnit_iff.2 ⟨dimension, hmeasured⟩) fun _ _ => ?_
  rw [basePowers, h.measuredBy_eq_ok_iff_withUnit?.1 hmeasured]
  rfl

/-! ## Definitions over base units -/

theorem isBase_of_measures (h : registry.WellFormed) {unit name : String}
    (hunit : unit ∈ registry.fundamentalUnits) (hmeasures : registry.Measures unit name) :
    registry.IsBase unit name := by
  obtain ⟨id, dimension, hid, hfundamental, rfl⟩ := (h.fundamentalUnits unit).1 hunit
  obtain ⟨measured, hmeasured, rfl⟩ := hmeasures
  have hfound := h.measuredBy_eq_ok hid (h.proper id dimension hid).defaultUnit_mem
  obtain rfl := Except.ok.inj (hmeasured.symm.trans hfound)
  exact ⟨id, measured, hid, hfundamental, rfl, rfl⟩

/-- What composes a dimension is its reference, with the names of fundamental dimensions for their
    default units. -/
theorem renamed_of_composition (h : registry.WellFormed) {id : Nat} {dimension : Dimension α}
    (hid : registry.dimension? id = some dimension) {composition : Composition α}
    (hcomposition : dimension.composition = some composition) :
    composition.reference.Renamed registry.IsBase composition.dimensions := by
  have hdefines := h.composition id dimension hid composition hcomposition
  -- Base units are named by what they measure, which is their own dimension.
  exact hdefines.dimensions.imp_of_mem fun unit hunit name =>
    h.isBase_of_measures (hdefines.reference unit hunit)

/-- Only fundamental dimensions occur in what a dimension is put into. -/
theorem mem_fundamentalNames_of_overDimensions (h : registry.WellFormed) {id : Nat}
    {dimension : Dimension α} (hid : registry.dimension? id = some dimension) {side : Side}
    {name : String} (hname : dimension.overDimensions.exponent side name ≠ 0) :
    name ∈ registry.fundamentalNames := by
  -- A composed dimension is put into those of the base units of its reference, any other into
  -- itself.
  cases hkind : dimension.isComposed with
  | true =>
    obtain ⟨composition, hcomposition⟩ := Option.isSome_iff_exists.1 hkind
    rw [Dimension.overDimensions_of_composition hcomposition] at hname
    obtain ⟨e, he, rfl⟩ := List.mem_map.1 (Terms.mem_symbols_iff.2 hname)
    obtain ⟨unit, -, hbase⟩ :=
      ((h.renamed_of_composition hid hcomposition).side side).exists_of_mem he
    obtain ⟨other, fundamental, hother, hfundamental, -, hfound⟩ := hbase
    exact mem_fundamentalNames_iff.2 ⟨other, fundamental, hother, hfundamental, hfound⟩
  | false =>
    rw [Dimension.overDimensions_of_fundamental hkind, Factor.exponent_ofSymbol] at hname
    have hsame : name = dimension.name := by
      by_contra hne
      exact hname (if_neg fun hboth => hne hboth.2)
    exact mem_fundamentalNames_iff.2 ⟨id, dimension, hid, hkind, hsame.symm⟩

theorem mem_fundamentalNames_of_total_ne_zero (h : registry.WellFormed) {units : Factor}
    {side : Side} {name : String} (hname : units.total registry.unitPowers side name ≠ 0) :
    name ∈ registry.fundamentalNames := by
  obtain ⟨id, dimension, side', hid, hne⟩ :=
    exists_of_total_ne_zero (fun _ _ hfound => (h.withUnit?_eq_some_iff.1 hfound).1) hname
  exact h.mem_fundamentalNames_of_overDimensions hid hne

theorem mem_fundamentalNames_of_dimensionsOfUnits (h : registry.WellFormed)
    {units dimensions : Factor} (hdimensions : registry.dimensionsOfUnits units = .ok dimensions)
    {name : String} (hname : name ∈ dimensions.symbols) : name ∈ registry.fundamentalNames := by
  obtain ⟨side, hside⟩ := Factor.mem_symbols_iff.1 hname
  rw [h.expands_dimensionsOfUnits.exponent hdimensions] at hside
  exact h.mem_fundamentalNames_of_total_ne_zero hside

theorem mem_fundamentalNames_of_dimensionsOfDimensions (h : registry.WellFormed)
    {names dimensions : Factor}
    (hdimensions : registry.dimensionsOfDimensions names = .ok dimensions) {name : String}
    (hname : name ∈ dimensions.symbols) : name ∈ registry.fundamentalNames := by
  obtain ⟨side, hside⟩ := Factor.mem_symbols_iff.1 hname
  rw [h.expands_dimensionsOfDimensions.exponent hdimensions] at hside
  obtain ⟨id, dimension, side', hid, hne⟩ :=
    exists_of_total_ne_zero (fun _ _ hfound => (h.withName?_eq_some_iff.1 hfound).1) hside
  exact h.mem_fundamentalNames_of_overDimensions hid hne

end WellFormed

/-- Whatever was registered, a factor of units is put into fundamental dimensions just if all its
    units are known and no total is out of range. The powers are the totals, and nothing else
    occurs; inverses and products are put into inverses and products. A factor of dimensions is put
    into fundamental ones in the same way. -/
theorem dimensions_closedForm [Scalar α] (h : registry.Reachable) :
    ClosedForm registry.dimensionsOfUnits (fun unit => registry.hasUnit unit = true)
      registry.unitPowers ∧
    (∀ units dimensions, registry.dimensionsOfUnits units = .ok dimensions →
      ∀ name ∈ dimensions.symbols, name ∈ registry.fundamentalNames) ∧
    ClosedForm registry.dimensionsOfDimensions
      (fun name => name ∈ registry.fundamentalNames ∨ name ∈ registry.composedNames)
      registry.namePowers ∧
    ∀ names dimensions, registry.dimensionsOfDimensions names = .ok dimensions →
      ∀ name ∈ dimensions.symbols, name ∈ registry.fundamentalNames := by
  have hwell := h.wellFormed
  refine ⟨hwell.expands_dimensionsOfUnits.closedForm,
    fun units dimensions hdimensions name hname => ?_,
    hwell.expands_dimensionsOfDimensions.closedForm,
    fun names dimensions hdimensions name hname => ?_⟩
  · exact hwell.mem_fundamentalNames_of_dimensionsOfUnits hdimensions hname
  · exact hwell.mem_fundamentalNames_of_dimensionsOfDimensions hdimensions hname

/-- What a quotient of two units measures. -/
theorem dimensionsOfUnits_quotient {unit divisor : String} {first second : Dimension α}
    (hfirst : registry.measuredBy unit = .ok first)
    (hsecond : registry.measuredBy divisor = .ok second) (p q : Exponent) :
    registry.dimensionsOfUnits ⟨.single unit p, .single divisor q⟩ =
      (do (← Factor.one.mul (← dimensionTerm first p)).div (← dimensionTerm second q)) := by
  show (((do dimensionTerm (← registry.measuredBy unit) p) >>= Factor.one.mul) >>= pure) >>=
    (fun result => ((do dimensionTerm (← registry.measuredBy divisor) q) >>= result.div) >>= pure) =
      _
  rw [hfirst, hsecond]
  simp only [bind_pure, bind_assoc]
  rfl

/-- Lengths, with a unit that does not start at zero, times, and velocities, which are composed of
    them. -/
def motions : List (Registration Rat) :=
  [.fundamental "length" "m", .fundamental "time" "s",
    .composed "velocity" "mps" ⟨.single "m" .one, .single "s" .one⟩ ⟨1, 0⟩,
    .multiple "mark" "m" ⟨1000, 5⟩]

theorem after_motions : (empty : Registry Rat).after motions =
    ⟨#[(Dimension.new "length" "m" none).addMultiple "mark" ⟨1000, 5⟩, .new "time" "s" none,
        .new "velocity" "mps" (some ⟨⟨.single "length" .one, .single "time" .one⟩,
          ⟨.single "m" .one, .single "s" .one⟩, ⟨1, 0⟩⟩)],
      ((∅ : Std.HashMap String Nat).insert "length" 0).insert "time" 1,
      (∅ : Std.HashMap String Nat).insert "velocity" 2,
      ((((∅ : Std.HashMap String Nat).insert "m" 0).insert "s" 1).insert "mps" 2).insert "mark" 0,
      ((∅ : Std.HashSet String).insert "m").insert "s"⟩ := by
  -- The velocity is defined while only lengths and times are known.
  have hreference : (⟨#[.new "length" "m" none, .new "time" "s" none],
      ((∅ : Std.HashMap String Nat).insert "length" 0).insert "time" 1, ∅,
      ((∅ : Std.HashMap String Nat).insert "m" 0).insert "s" 1,
      ((∅ : Std.HashSet String).insert "m").insert "s"⟩ : Registry Rat).dimensionsOfUnits
        ⟨.single "m" .one, .single "s" .one⟩ =
      .ok ⟨.single "length" .one, .single "time" .one⟩ := by
    refine (dimensionsOfUnits_quotient (measuredBy_eq_ok_iff.2 ⟨0, ?_, rfl⟩)
      (measuredBy_eq_ok_iff.2 ⟨1, ?_, rfl⟩) .one .one).trans rfl
    · simp [Std.HashMap.getElem_insert]
    · simp
  simp [after, motions, call_eq, register, addFundamental, addComposed, addMultiple, checkNewName,
    checkNewUnit, checkReference, hasUnit, empty, bind, Except.bind, pure, Except.pure,
    Factor.symbols, hreference]
  simp [Terms.symbols, Terms.single, Terms.set, insertEntry, Terms.empty,
    Std.HashMap.getElem_insert]

theorem reachable_motions : ((empty : Registry Rat).after motions).Reachable := ⟨motions, rfl⟩

theorem measuredBy_motions :
    (∀ unit ∈ ["m", "mark"], ((empty : Registry Rat).after motions).measuredBy unit =
      .ok ((Dimension.new "length" "m" none).addMultiple "mark" ⟨1000, 5⟩)) ∧
    ((empty : Registry Rat).after motions).measuredBy "s" = .ok (.new "time" "s" none) ∧
    ((empty : Registry Rat).after motions).measuredBy "mps" =
      .ok (.new "velocity" "mps" (some ⟨⟨.single "length" .one, .single "time" .one⟩,
        ⟨.single "m" .one, .single "s" .one⟩, ⟨1, 0⟩⟩)) := by
  have hwell := reachable_motions.wellFormed
  refine ⟨fun unit hunit => ?_, ?_, ?_⟩
  · rw [hwell.measuredBy_eq_ok_iff_withUnit?, after_motions]
    revert unit
    decide +kernel
  · rw [hwell.measuredBy_eq_ok_iff_withUnit?, after_motions]
    decide +kernel
  · rw [hwell.measuredBy_eq_ok_iff_withUnit?, after_motions]
    decide +kernel

theorem dimensions_closedForm_motions :
    ((empty : Registry Rat).after motions).Reachable ∧
    (∃ dimensions, ((empty : Registry Rat).after motions).dimensionsOfUnits
        ⟨.single "m" .one, .single "mps" ⟨2, by decide, by decide⟩⟩ = .ok dimensions ∧
      dimensions.exponent .above "length" = 1 ∧ dimensions.exponent .below "length" = 2 ∧
      dimensions.exponent .above "time" = 2 ∧ "time" ∉ (dimensions.side .below).symbols ∧
      ∀ name ∈ dimensions.symbols, name ∈ ((empty : Registry Rat).after motions).fundamentalNames) ∧
    ¬∃ dimensions, ((empty : Registry Rat).after motions).dimensionsOfUnits
      ⟨.single "s" .one, .single "mps" ⟨maxExponent, by decide, by decide⟩⟩ = .ok dimensions := by
  obtain ⟨hunits, hfundamental, -, -⟩ := dimensions_closedForm reachable_motions
  obtain ⟨hlength, -, hvelocity⟩ := measuredBy_motions
  obtain ⟨dimensions, hdimensions⟩ : ∃ dimensions,
      ((empty : Registry Rat).after motions).dimensionsOfUnits
        ⟨.single "m" .one, .single "mps" ⟨2, by decide, by decide⟩⟩ = .ok dimensions :=
    ⟨_, dimensionsOfUnits_quotient (hlength "m" (by simp)) hvelocity _ _⟩
  have hexponent := hunits.exponent _ _ hdimensions
  refine ⟨reachable_motions,
    ⟨dimensions, hdimensions, ?_, ?_, ?_, ?_, hfundamental _ _ hdimensions⟩, ?_⟩
  · rw [hexponent, after_motions]
    decide +kernel
  · rw [hexponent, after_motions]
    decide +kernel
  · rw [hexponent, after_motions]
    decide +kernel
  · rw [hunits.symbols _ _ hdimensions, after_motions]
    decide +kernel
  -- The power of time would be one more than the largest.
  · rw [hunits.exists_iff]
    intro h
    have hrange := h.2 .above "time"
    rw [after_motions] at hrange
    revert hrange
    decide +kernel

end Registry

end UnitCheck
