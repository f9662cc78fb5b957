import UnitCheck.Proofs.Registry.Registering
import UnitCheck.Proofs.Registry.Renaming
import UnitCheck.Registry.Convert
import UnitCheck.Registry.InPlace

/-!
  What holds of every registry that calls lead to.

  `Registry.WellFormed` says how the tables of a registry fit its dimensions. What a composed
  dimension is defined by was found before, and so it stays the definition. `WellFormed.register`
  is the step from one registry to the next, and `WellFormed.after` the run over any calls,
  refused ones included.
-/

namespace UnitCheck.Registry

variable {α : Type} {registry next : Registry α}

/-- The reference has default units of fundamental dimensions only, and the dimensions are the
    reference with the names of these dimensions for their units. -/
structure Defines (registry : Registry α) (composition : Composition α) : Prop where
  reference : ∀ unit ∈ composition.reference.symbols, unit ∈ registry.fundamentalUnits
  dimensions : composition.reference.Renamed registry.Measures composition.dimensions

theorem Extends.defines (h : next.Extends registry) {composition : Composition α}
    (hdefines : registry.Defines composition) : next.Defines composition :=
  ⟨fun unit hunit => h.fundamentalUnits unit (hdefines.reference unit hunit),
    hdefines.dimensions.imp fun _ _ => h.measures⟩

/-! ## Well-formed registries -/

variable [Scalar α]

/-- The tables of a registry fit its dimensions. -/
structure WellFormed (registry : Registry α) : Prop where
  /-- The two tables of names list every dimension in one of them, under its name. -/
  fundamentalByName : Finds registry.fundamentalByName registry.dimensions
    fun dimension name => dimension.name = name ∧ dimension.isComposed = false
  composedByName : Finds registry.composedByName registry.dimensions
    fun dimension name => dimension.name = name ∧ dimension.isComposed = true
  disjoint : ∀ name ∈ registry.fundamentalByName, name ∉ registry.composedByName
  /-- The index lists every unit of a dimension, and no two dimensions share a unit. -/
  dimensionByUnit : Finds registry.dimensionByUnit registry.dimensions
    fun dimension unit => unit ∈ dimension.units
  proper : ∀ id dimension, registry.dimension? id = some dimension → dimension.Proper
  fundamentalUnits : ∀ unit, unit ∈ registry.fundamentalUnits ↔
    ∃ id dimension, registry.dimension? id = some dimension ∧ dimension.isComposed = false ∧
      dimension.defaultUnit = unit
  composition : ∀ id dimension, registry.dimension? id = some dimension →
    ∀ composition, dimension.composition = some composition → registry.Defines composition

/-- A registry without dimensions has empty tables. -/
theorem wellFormed_empty : (empty : Registry α).WellFormed := by
  have hnone : ∀ id dimension, (empty : Registry α).dimension? id ≠ some dimension := by
    intro id dimension h
    cases h
  have hfinds : ∀ Key : Dimension α → String → Prop, Finds ∅ #[] Key := by
    intro Key key id
    simp
  refine ⟨hfinds _, hfinds _, fun name h => ?_, hfinds _, fun id dimension h => ?_, fun unit => ?_,
    fun id dimension h => ?_⟩
  · exact absurd h Std.HashMap.not_mem_empty
  · exact absurd h (hnone id dimension)
  · constructor
    · intro h
      exact absurd h Std.HashSet.not_mem_empty
    · rintro ⟨id, dimension, h, -⟩
      exact absurd h (hnone id dimension)
  · exact absurd h (hnone id dimension)

/-- The unit is the default unit of a fundamental dimension of that name. -/
def IsBase (registry : Registry α) (unit name : String) : Prop :=
  ∃ id dimension, registry.dimension? id = some dimension ∧ dimension.isComposed = false ∧
    dimension.defaultUnit = unit ∧ dimension.name = name

namespace WellFormed

/-- A unit is found just where it stands. -/
theorem measuredBy_eq_ok (h : registry.WellFormed) {id : Nat} {dimension : Dimension α}
    {unit : String} (hdimension : registry.dimension? id = some dimension)
    (hunit : unit ∈ dimension.units) : registry.measuredBy unit = .ok dimension :=
  measuredBy_eq_ok_iff.2 ⟨id, (h.dimensionByUnit unit id).2 ⟨dimension, hdimension, hunit⟩,
    hdimension⟩

/-- A dimension that is found by a unit has it. -/
theorem mem_units_of_measuredBy (h : registry.WellFormed) {unit : String} {dimension : Dimension α}
    (hmeasured : registry.measuredBy unit = .ok dimension) : unit ∈ dimension.units := by
  obtain ⟨id, hid, hdimension⟩ := measuredBy_eq_ok_iff.1 hmeasured
  obtain ⟨found, hfound, hunit⟩ := (h.dimensionByUnit unit id).1 hid
  obtain rfl := Option.some.inj (hdimension.symm.trans hfound)
  exact hunit

theorem exists_isBase_of_unit (h : registry.WellFormed) {unit : String}
    (hunit : unit ∈ registry.fundamentalUnits) : ∃ name, registry.IsBase unit name := by
  obtain ⟨id, dimension, hid, hfundamental, hdefault⟩ := (h.fundamentalUnits unit).1 hunit
  exact ⟨dimension.name, id, dimension, hid, hfundamental, hdefault, rfl⟩

/-- No two base units have dimensions of the same name. -/
theorem eq_of_isBase (h : registry.WellFormed) {unit other name : String}
    (hunit : registry.IsBase unit name) (hother : registry.IsBase other name) : unit = other := by
  obtain ⟨id, dimension, hdimension, hfundamental, rfl, rfl⟩ := hunit
  obtain ⟨id', dimension', hdimension', hfundamental', rfl, hname⟩ := hother
  obtain rfl := h.fundamentalByName.eq_of_key hdimension ⟨rfl, hfundamental⟩ hdimension'
    ⟨hname, hfundamental'⟩
  obtain rfl := Option.some.inj (hdimension.symm.trans hdimension')
  rfl

/-- A base unit has its dimension as the dimension that it measures. -/
theorem exists_of_isBase (h : registry.WellFormed) {unit name : String}
    (hbase : registry.IsBase unit name) : ∃ dimension, registry.measuredBy unit = .ok dimension ∧
      dimension.composition = none ∧ dimension.name = name := by
  obtain ⟨id, dimension, hdimension, hfundamental, rfl, rfl⟩ := hbase
  have hunit := (h.proper id dimension hdimension).defaultUnit_mem
  exact ⟨dimension, h.measuredBy_eq_ok hdimension hunit,
    Option.isNone_iff_eq_none.1 (Option.isSome_eq_false_iff.1 hfundamental), rfl⟩

/-- A factor of base units always has its factor of dimensions: the names are different, so no
    powers add up. -/
theorem exists_dimensionsOfUnits (h : registry.WellFormed) {reference : Factor}
    (hreference : ∀ unit ∈ reference.symbols, unit ∈ registry.fundamentalUnits) :
    ∃ dimensions, registry.dimensionsOfUnits reference = .ok dimensions ∧
      reference.Renamed registry.Measures dimensions := by
  have hnames : ∀ unit ∈ reference.symbols, ∃ name, registry.IsBase unit name :=
    fun unit hunit => h.exists_isBase_of_unit (hreference unit hunit)
  -- A base unit measures a fundamental dimension, whose term is its own name.
  have hterm : ∀ unit name power, registry.IsBase unit name →
      (do dimensionTerm (← registry.measuredBy unit) power) = .ok (.power name power) := by
    intro unit name power hbase
    obtain ⟨dimension, hmeasured, hcomposition, rfl⟩ := h.exists_of_isBase hbase
    rw [hmeasured]
    show dimensionTerm dimension power = _
    rw [dimensionTerm, hcomposition]
  have hinjective : ∀ unit other name, registry.IsBase unit name → registry.IsBase other name →
      unit = other := fun _ _ _ => h.eq_of_isBase
  obtain ⟨dimensions, hdimensions, hrenamed⟩ :=
    exists_substitute_of_names hinjective hterm hnames
  refine ⟨dimensions, hdimensions, hrenamed.imp fun unit name hbase => ?_⟩
  obtain ⟨dimension, hmeasured, -, hname⟩ := h.exists_of_isBase hbase
  exact ⟨dimension, hmeasured, hname⟩

/-- A known unit has its step to base units. -/
theorem exists_unitStep (h : registry.WellFormed) {unit : String}
    (hunit : registry.hasUnit unit = true) : ∃ step, registry.unitStep unit = .ok step := by
  have hmem : unit ∈ registry.dimensionByUnit := Std.HashMap.contains_iff_mem.1 hunit
  have hid : registry.dimensionByUnit[unit]? = some registry.dimensionByUnit[unit] :=
    Std.HashMap.getElem?_eq_some_getElem hmem
  obtain ⟨dimension, hdimension, hof⟩ := (h.dimensionByUnit unit _).1 hid
  obtain ⟨step, hstep⟩ := Dimension.exists_multiple_of_mem hof
  rw [unitStep, h.measuredBy_eq_ok hdimension hof]
  simp only [bind, Except.bind, hstep]
  cases dimension.composition with
  | some composition => exact ⟨_, rfl⟩
  | none => exact ⟨_, rfl⟩

end WellFormed

/-! ## One registration -/

namespace WellFormed

/-- The compositions of the dimensions before hold in the registry after. -/
theorem defines_of_extends (h : registry.WellFormed) (hextends : next.Extends registry) (id : Nat)
    (dimension : Dimension α) (hdimension : registry.dimensions[id]? = some dimension)
    (composition : Composition α) (hcomposition : dimension.composition = some composition) :
    next.Defines composition :=
  hextends.defines (h.composition id dimension hdimension composition hcomposition)

/-- A fundamental dimension more. -/
theorem addFundamental (h : registry.WellFormed) {name unit : String} {id : Nat}
    (hadd : registry.addFundamental name unit = .ok (next, id)) : next.WellFormed := by
  have hextends : next.Extends registry :=
    @extends_of_register α registry next _ (.fundamental name unit) id hadd
  obtain ⟨⟨hname, hname'⟩, hunit, rfl⟩ := of_addFundamental hadd
  constructor
  case fundamentalByName =>
    exact h.fundamentalByName.push_insert hname fun key => by simp [eq_comm]
  case composedByName =>
    exact h.composedByName.push_of_forall_not fun key => by simp
  case disjoint =>
    intro key hkey
    rcases Std.HashMap.mem_insert.1 hkey with hsame | hkey
    · obtain rfl := eq_of_beq hsame
      exact hname'
    · exact h.disjoint key hkey
  case dimensionByUnit =>
    exact h.dimensionByUnit.push_insert hunit fun key => by simp
  case proper => exact forall_push h.proper (Dimension.proper_new name unit none)
  -- The base units are those of the dimensions before, and the new one.
  case fundamentalUnits =>
    intro key
    have hpush := (exists_push_iff (.new name unit none)).trans
      (or_congr_left (h.fundamentalUnits key).symm)
    refine Std.HashSet.mem_insert.trans (Iff.trans ?_ hpush.symm)
    simp [or_comm]
  case composition =>
    exact forall_push (h.defines_of_extends hextends) (by simp)

/-- A composed dimension more. -/
theorem addComposed (h : registry.WellFormed) {name unit : String} {reference : Factor}
    {conversion : Conversion α} {id : Nat}
    (hadd : registry.addComposed name unit reference conversion = .ok (next, id)) :
    next.WellFormed := by
  have hextends : next.Extends registry :=
    @extends_of_register α registry next _ (.composed name unit reference conversion) id hadd
  obtain ⟨⟨hname, hname'⟩, hunit, hreference, dimensions, hdimensions, rfl⟩ := of_addComposed hadd
  constructor
  case fundamentalByName =>
    exact h.fundamentalByName.push_of_forall_not fun key => by simp
  case composedByName =>
    exact h.composedByName.push_insert hname' fun key => by simp [eq_comm]
  case disjoint =>
    intro key hkey hinsert
    rcases Std.HashMap.mem_insert.1 hinsert with hsame | hkey'
    · obtain rfl := eq_of_beq hsame
      exact hname hkey
    · exact h.disjoint key hkey hkey'
  case dimensionByUnit =>
    exact h.dimensionByUnit.push_insert hunit fun key => by simp
  case proper => exact forall_push h.proper (Dimension.proper_new name unit _)
  case fundamentalUnits =>
    intro key
    have hpush := (exists_push_iff (.new name unit
      (some ⟨dimensions, reference, conversion⟩))).trans
        (or_congr_left (h.fundamentalUnits key).symm)
    refine Iff.trans ?_ hpush.symm
    simp
  case composition =>
    -- The definition is made in the registry before, and holds in the one after.
    have hnew : registry.Defines ⟨dimensions, reference, conversion⟩ := by
      obtain ⟨_, hfound, hrenamed⟩ := h.exists_dimensionsOfUnits hreference
      obtain rfl := Except.ok.inj (hdimensions.symm.trans hfound)
      exact ⟨hreference, hrenamed⟩
    refine forall_push (h.defines_of_extends hextends) fun composition hcomposition => ?_
    obtain rfl := Option.some.inj hcomposition
    exact hextends.defines hnew

/-- A unit more. -/
theorem addMultiple (h : registry.WellFormed) {unit base : String} {conversion : Conversion α}
    {id : Nat} (hadd : registry.addMultiple unit base conversion = .ok (next, id)) :
    next.WellFormed := by
  have hextends : next.Extends registry :=
    @extends_of_register α registry next _ (.multiple unit base conversion) id hadd
  obtain ⟨hunit, hbase, rfl⟩ := of_addMultiple hadd
  constructor
  case fundamentalByName => exact h.fundamentalByName.modify (fun _ _ => by simp) id
  case composedByName => exact h.composedByName.modify (fun _ _ => by simp) id
  case disjoint => exact h.disjoint
  case dimensionByUnit =>
    exact h.dimensionByUnit.modify_insert (h.dimensionByUnit.lt_size hbase) hunit
      fun _ _ => by simp
  case proper =>
    refine forall_modify (·.addMultiple unit conversion) (fun other dimension hdimension => ?_) id
    -- The index has not got the unit, so neither has the dimension that it is added to.
    have hproper := h.proper other dimension hdimension
    exact ⟨hproper, hproper.addMultiple (h.dimensionByUnit.not_key hunit hdimension) conversion⟩
  case fundamentalUnits =>
    intro key
    exact (h.fundamentalUnits key).trans (exists_modify_iff (fun _ => by simp) id).symm
  case composition =>
    refine forall_modify (·.addMultiple unit conversion) (fun other dimension hdimension => ?_) id
    -- Whether or not the dimension got the unit, its composition is the same.
    have hdefines := h.defines_of_extends hextends other dimension hdimension
    exact ⟨hdefines, hdefines⟩

/-- What registers keeps the tables fitting. -/
theorem register (h : registry.WellFormed) {registration : Registration α} {id : Nat}
    (hregister : registry.register registration = .ok (next, id)) : next.WellFormed := by
  cases registration with
  | fundamental name unit => exact h.addFundamental hregister
  | composed name unit reference conversion => exact h.addComposed hregister
  | multiple unit base conversion => exact h.addMultiple hregister

/-! ## Calls -/

theorem call (h : registry.WellFormed) (registration : Registration α) :
    (registry.call registration).2.WellFormed := by
  rw [call_eq]
  cases hregister : registry.register registration with
  | ok result => exact h.register hregister
  | error cause => exact h

theorem after (h : registry.WellFormed) (calls : List (Registration α)) :
    (registry.after calls).WellFormed := by
  induction calls generalizing registry with
  | nil => exact h
  | cons registration calls ih => exact ih (h.call registration)

end WellFormed

theorem Reachable.wellFormed (h : registry.Reachable) : registry.WellFormed := by
  obtain ⟨calls, rfl⟩ := h
  exact wellFormed_empty.after calls

/-- Whatever calls were made, the tables of a registry fit its dimensions, and a call that is
    refused changes nothing. So every number in a table is that of a dimension, a dimension that a
    unit measures has the conversion of this unit, and no known unit is without its step to base
    units. -/
theorem invariant_of_reachable (h : registry.Reachable) :
    registry.WellFormed ∧
    (∀ registration cause next, registry.call registration = (.error cause, next) →
      next = registry) ∧
    (∀ (key : String) (id : Nat), registry.fundamentalByName[key]? = some id ∨
        registry.composedByName[key]? = some id ∨ registry.dimensionByUnit[key]? = some id →
      id < registry.dimensions.size) ∧
    (∀ unit dimension, registry.measuredBy unit = .ok dimension →
      ∃ step, dimension.multiple? unit = some step) ∧
    ∀ unit, registry.hasUnit unit = true → ∃ step, registry.unitStep unit = .ok step := by
  have hwell := h.wellFormed
  refine ⟨hwell, fun registration cause next hcall => ?_, fun key id hid => ?_,
    fun unit dimension hmeasured => ?_, fun unit => hwell.exists_unitStep⟩
  -- A call that is refused hands back the registry it was given.
  · rw [call_eq] at hcall
    cases hregister : registry.register registration with
    | ok result =>
      rw [hregister] at hcall
      cases hcall
    | error _ =>
      rw [hregister] at hcall
      cases hcall
      rfl
  · rcases hid with hid | hid | hid
    · exact hwell.fundamentalByName.lt_size hid
    · exact hwell.composedByName.lt_size hid
    · exact hwell.dimensionByUnit.lt_size hid
  · exact Dimension.exists_multiple_of_mem (hwell.mem_units_of_measuredBy hmeasured)

/-- A length with a unit more, and another length that is refused in between. -/
def lengths : List (Registration Rat) :=
  [.fundamental "length" "m", .fundamental "length" "ft", .multiple "km" "m" ⟨1000, 0⟩]

theorem after_lengths : (empty : Registry Rat).after lengths =
    ⟨#[(Dimension.new "length" "m" none).addMultiple "km" ⟨1000, 0⟩],
      (∅ : Std.HashMap String Nat).insert "length" 0, ∅,
      ((∅ : Std.HashMap String Nat).insert "m" 0).insert "km" 0,
      (∅ : Std.HashSet String).insert "m"⟩ := by
  simp [after, lengths, call_eq, register, addFundamental, addMultiple, checkNewName,
    checkNewUnit, hasUnit, empty, bind, Except.bind, pure, Except.pure]

theorem invariant_of_reachable_lengths :
    ((empty : Registry Rat).after lengths).Reachable ∧
      ((empty : Registry Rat).after lengths).WellFormed ∧
      ∃ dimension, ((empty : Registry Rat).after lengths).measuredBy "km" = .ok dimension ∧
        ∃ step, dimension.multiple? "km" = some step := by
  have hreachable : ((empty : Registry Rat).after lengths).Reachable := ⟨lengths, rfl⟩
  obtain ⟨hwell, -, -, hmultiple, -⟩ := invariant_of_reachable hreachable
  have hmeasured : ((empty : Registry Rat).after lengths).measuredBy "km" =
      .ok ((Dimension.new "length" "m" none).addMultiple "km" ⟨1000, 0⟩) := by
    rw [after_lengths]
    exact measuredBy_eq_ok_iff.2 ⟨0, Std.HashMap.getElem?_insert_self, rfl⟩
  exact ⟨hreachable, hwell, _, hmeasured, hmultiple _ _ hmeasured⟩

end UnitCheck.Registry
