import Mathlib.Logic.Equiv.Basic
import UnitCheck.Proofs.Factor.Spelling
import UnitCheck.Proofs.Registry.EntryOrder
import UnitCheck.Proofs.Registry.Order

/-!
  What the spelling of units changes.

  The same registrations with their units spelled in another way are accepted or refused alike, and
  every unit has the same step to base units (`Registry.Respells`). But a factor keeps its units in
  alphabetical order, and a conversion follows them in this order. So the conversion in the new
  spelling is the old one with the units of each side taken in their new order
  (`Registry.Respells.conversion`). Since steps with offsets do not commute, its offset may be
  another one, but its factor is the same (`Registry.sameFactor_conversionBy`).
-/

namespace UnitCheck

variable {α : Type} (spelling : String ↪ String)

/-- The registration with its units spelled in another way. Names of dimensions stay. -/
def Registration.respell : Registration α → Registration α
  | .fundamental name unit => .fundamental name (spelling unit)
  | .composed name unit reference conversion =>
    .composed name (spelling unit) (reference.respell spelling) conversion
  | .multiple unit base conversion => .multiple (spelling unit) (spelling base) conversion

/-- The failure of a conversion with its unit spelled in another way. -/
def UnitError.respell : UnitError → UnitError
  | .unknownUnit unit => .unknownUnit (spelling unit)
  | cause => cause

/-- On each side of the bar, the spelling keeps the alphabetical order of the symbols. -/
def Factor.KeepsOrder (factor : Factor) : Prop :=
  ∀ side, ∀ symbol ∈ (factor.side side).symbols, ∀ other ∈ (factor.side side).symbols,
    symbol ≤ other → spelling symbol ≤ spelling other

namespace Registration

variable {spelling} {registration : Registration α}

theorem names_respell : (registration.respell spelling).names = registration.names := by
  cases registration <;> rfl

theorem unit_respell : (registration.respell spelling).unit = spelling registration.unit := by
  cases registration <;> rfl

theorem baseUnits_respell :
    (registration.respell spelling).baseUnits = registration.baseUnits.map spelling := by
  cases registration <;> rfl

end Registration

/-! ## Failures -/

section

variable {β γ : Type} {rename : UnitError → UnitError}

theorem mapError_foldlM {step step' : β → γ → Except UnitError β}
    (hstep : ∀ result e, step' result e = (step result e).mapError rename) (entries : List γ)
    (start : β) : entries.foldlM step' start = (entries.foldlM step start).mapError rename := by
  induction entries generalizing start with
  | nil => rfl
  | cons e entries ih =>
    rw [List.foldlM_cons, List.foldlM_cons, mapError_bind, hstep]
    exact congrArg _ (funext ih)

end

/-- The unit of the second dimension has the same step to base units as that of the first in the new
    spelling. -/
structure Dimension.Respells (spelling : String ↪ String) (unit : String)
    (respelled dimension : Dimension α) : Prop where
  multiple : respelled.multiple? (spelling unit) = dimension.multiple? unit
  composition : respelled.composition.map (·.conversion) = dimension.composition.map (·.conversion)

namespace Registry

variable {spelling} {registry respelled next next' : Registry α}

/-! ## The same registrations in another spelling -/

/-- The registry knows the same names, and the units of the other one in the new spelling. -/
structure Respells (spelling : String ↪ String) (respelled registry : Registry α) : Prop where
  hasName : ∀ name, respelled.HasName name ↔ registry.HasName name
  unit : ∀ unit, spelling unit ∈ respelled.dimensionByUnit ↔ unit ∈ registry.dimensionByUnit
  baseUnit : ∀ unit, spelling unit ∈ respelled.fundamentalUnits ↔ unit ∈ registry.fundamentalUnits
  measuredBy : ∀ unit dimension, registry.measuredBy unit = .ok dimension →
    ∃ found, respelled.measuredBy (spelling unit) = .ok found ∧
      Dimension.Respells spelling unit found dimension

theorem respells_empty : (empty : Registry α).Respells spelling empty where
  hasName _ := Iff.rfl
  unit _ := iff_of_false Std.HashMap.not_mem_empty Std.HashMap.not_mem_empty
  baseUnit _ := iff_of_false Std.HashSet.not_mem_empty Std.HashSet.not_mem_empty
  measuredBy unit dimension h := by
    obtain ⟨id, -, hid⟩ := measuredBy_eq_ok_iff.1 h
    cases hid

/-- What a registration needs is there in both registries or in neither. -/
theorem Respells.admits_iff (h : respelled.Respells spelling registry)
    (registration : Registration α) :
    respelled.Admits (registration.respell spelling) ↔ registry.Admits registration := by
  have hsupplies : respelled.Supplies [] (registration.respell spelling) ↔
      registry.Supplies [] registration := by
    cases registration with
    | fundamental name unit => exact Iff.rfl
    | composed name unit reference conversion =>
      simp [Registration.respell, Supplies, Factor.mem_symbols_respell_iff, h.baseUnit]
    | multiple unit base conversion => simp [Registration.respell, Supplies, h.unit]
  constructor
  · rintro ⟨hname, hunit, hsupplied⟩
    rw [Registration.names_respell] at hname
    rw [Registration.unit_respell, h.unit] at hunit
    exact ⟨fun name hmem => (h.hasName name).not.1 (hname name hmem), hunit, hsupplies.1 hsupplied⟩
  · rintro ⟨hname, hunit, hsupplied⟩
    refine ⟨fun name hmem => (h.hasName name).not.2 (hname name ?_), ?_, hsupplies.2 hsupplied⟩
    · rwa [Registration.names_respell] at hmem
    · rwa [Registration.unit_respell, h.unit]

variable [Scalar α]

namespace WellFormed

theorem measuredBy_defaultUnit (h : registry.WellFormed) {dimension : Dimension α}
    (hmem : dimension ∈ registry.dimensions) :
    registry.measuredBy dimension.defaultUnit = .ok dimension :=
  h.measuredBy_eq_ok_iff_mem.2 ⟨hmem, (h.proper_of_mem hmem).defaultUnit_mem⟩

theorem measuredBy_of_multiple? (h : registry.WellFormed) {unit base : String}
    {dimension : Dimension α} {step : Conversion α}
    (hmeasured : registry.measuredBy base = .ok dimension)
    (hstep : dimension.multiple? unit = some step) : registry.measuredBy unit = .ok dimension :=
  h.measuredBy_eq_ok_iff_mem.2 ⟨(h.measuredBy_eq_ok_iff_mem.1 hmeasured).1,
    Dimension.mem_units_iff.2 ⟨step, hstep⟩⟩

end WellFormed

section

variable {registration : Registration α} {id id' : Nat} (h : respelled.Respells spelling registry)
  (hwell : registry.WellFormed) (hwell' : respelled.WellFormed)
  (hregister : registry.register registration = .ok (next, id))
  (hregister' : respelled.register (registration.respell spelling) = .ok (next', id'))
include h hwell hwell' hregister hregister'

/-- A unit that was known before keeps its step. -/
theorem Respells.measuredBy_of_mem {unit : String} (hunit : unit ∈ registry.dimensionByUnit)
    {dimension : Dimension α} (hdimension : next.measuredBy unit = .ok dimension) :
    ∃ found, next'.measuredBy (spelling unit) = .ok found ∧
      Dimension.Respells spelling unit found dimension := by
  have hincludes := (extends_of_register hregister).includes
  have hincludes' := (extends_of_register hregister').includes
  obtain ⟨before, hbefore⟩ := hwell.hasUnit_iff.1 (Std.HashMap.contains_iff_mem.2 hunit)
  obtain ⟨later, hlater, hgrown⟩ :=
    hincludes.exists_measuredBy hwell (hwell.register hregister) hbefore
  obtain rfl := Except.ok.inj (hdimension.symm.trans hlater)
  -- The dimensions before are the same but for the spelling, and both only grow.
  obtain ⟨before', hbefore', hrespells⟩ := h.measuredBy unit before hbefore
  obtain ⟨found, hfound, hgrown'⟩ :=
    hincludes'.exists_measuredBy hwell' (hwell'.register hregister') hbefore'
  obtain ⟨step, hstep⟩ := Dimension.exists_multiple_of_mem (hwell.mem_units_of_measuredBy hbefore)
  refine ⟨found, hfound, ?_, ?_⟩
  · rw [hgrown.multiple unit step hstep,
      hgrown'.multiple _ step (hrespells.multiple.trans hstep)]
  · rw [hgrown.composition, hgrown'.composition, hrespells.composition]

/-- The new unit has the step that it was registered with. -/
theorem Respells.measuredBy_unit {dimension : Dimension α}
    (hdimension : next.measuredBy registration.unit = .ok dimension) :
    ∃ found, next'.measuredBy (spelling registration.unit) = .ok found ∧
      Dimension.Respells spelling registration.unit found dimension := by
  have hnext := hwell.register hregister
  have hnext' := hwell'.register hregister'
  have hholds := holds_of_register hwell hregister
  have hholds' := holds_of_register hwell' hregister'
  -- A default unit has the identity, whatever dimension it belongs to.
  have hdefault : ∀ first ∈ next.dimensions, ∀ second ∈ next'.dimensions,
      first.defaultUnit = registration.unit →
      second.defaultUnit = spelling registration.unit →
      second.composition.map (·.conversion) = first.composition.map (·.conversion) →
      ∃ found, next'.measuredBy (spelling registration.unit) = .ok found ∧
        Dimension.Respells spelling registration.unit found dimension := by
    intro first hfirst second hsecond hunit hunit' hcomposition
    have hmeasured := hnext.measuredBy_defaultUnit hfirst
    have hmeasured' := hnext'.measuredBy_defaultUnit hsecond
    have hidentity := (hnext.proper_of_mem hfirst).multiple?_defaultUnit
    have hidentity' := (hnext'.proper_of_mem hsecond).multiple?_defaultUnit
    rw [hunit] at hmeasured hidentity
    rw [hunit'] at hmeasured' hidentity'
    obtain rfl := Except.ok.inj (hdimension.symm.trans hmeasured)
    exact ⟨second, hmeasured', hidentity'.trans hidentity.symm, hcomposition⟩
  cases registration with
  | fundamental name unit =>
    obtain ⟨first, hfirst, -, hunit, hcomposition⟩ := hholds
    obtain ⟨second, hsecond, -, hunit', hcomposition'⟩ := hholds'
    exact hdefault first hfirst second hsecond hunit hunit' (by rw [hcomposition, hcomposition'])
  | composed name unit reference conversion =>
    obtain ⟨first, hfirst, -, hunit, _, -, hcomposition⟩ := hholds
    obtain ⟨second, hsecond, -, hunit', _, -, hcomposition'⟩ := hholds'
    exact hdefault first hfirst second hsecond hunit hunit'
      (by rw [hcomposition, hcomposition']; rfl)
  | multiple unit base conversion =>
    obtain ⟨first, hfirst, hstep⟩ := hholds
    obtain ⟨second, hsecond, hstep'⟩ := hholds'
    obtain rfl := Except.ok.inj (hdimension.symm.trans (hnext.measuredBy_of_multiple? hfirst hstep))
    -- The base was known before, so its dimensions are alike.
    obtain ⟨-, hbase, -⟩ := of_addMultiple hregister
    have hmem : base ∈ registry.dimensionByUnit :=
      Std.HashMap.mem_iff_isSome_getElem?.2 (by rw [hbase]; rfl)
    obtain ⟨found, hfound, hrespells⟩ :=
      h.measuredBy_of_mem hwell hwell' hregister hregister' hmem hfirst
    obtain rfl := Except.ok.inj (hsecond.symm.trans hfound)
    exact ⟨second, hnext'.measuredBy_of_multiple? hsecond hstep', hstep'.trans hstep.symm,
      hrespells.composition⟩

/-- A registration that both registries accept. -/
theorem Respells.register : next'.Respells spelling next := by
  have hgains := gains_of_register hregister
  have hgains' := gains_of_register hregister'
  refine ⟨fun name => ?_, fun unit => ?_, fun unit => ?_, fun unit dimension hdimension => ?_⟩
  · rw [hgains.hasName, hgains'.hasName, h.hasName, List.flatMap_singleton, List.flatMap_singleton,
      Registration.names_respell]
  · rw [hgains.unit, hgains'.unit, h.unit, List.map_singleton, List.map_singleton,
      Registration.unit_respell, List.mem_singleton, List.mem_singleton, spelling.apply_eq_iff_eq]
  · rw [hgains.baseUnit, hgains'.baseUnit, h.baseUnit, List.flatMap_singleton,
      List.flatMap_singleton, Registration.baseUnits_respell,
      List.mem_map_of_injective spelling.injective]
  · have hunit := (hwell.register hregister).hasUnit_iff.2 ⟨dimension, hdimension⟩
    -- A unit that is found is the one that was registered, or it was there before.
    rcases (hgains.unit unit).1 (Std.HashMap.contains_iff_mem.1 hunit) with hnew | hold
    · obtain rfl := List.mem_singleton.1 hnew
      exact h.measuredBy_unit hwell hwell' hregister hregister' hdimension
    · exact h.measuredBy_of_mem hwell hwell' hregister hregister' hold hdimension

end

/-- A call is accepted or refused by both registries alike. -/
theorem Respells.call (h : respelled.Respells spelling registry) (hwell : registry.WellFormed)
    (hwell' : respelled.WellFormed) (registration : Registration α) :
    (respelled.call (registration.respell spelling)).2.Respells spelling
      (registry.call registration).2 := by
  have hiff := (hwell'.exists_register_iff.trans (h.admits_iff registration)).trans
    hwell.exists_register_iff.symm
  rw [call_eq, call_eq]
  cases hregister : registry.register registration with
  | ok result =>
    obtain ⟨next', id', hregister'⟩ := hiff.2 ⟨_, _, hregister⟩
    rw [hregister']
    exact h.register hwell hwell' hregister hregister'
  | error cause =>
    -- A call that one registry refuses is refused by the other, and both stay as they are.
    cases hregister' : respelled.register (registration.respell spelling) with
    | ok result =>
      obtain ⟨next, id, hok⟩ := hiff.1 ⟨_, _, hregister'⟩
      cases hregister.symm.trans hok
    | error cause' => exact h

theorem Respells.after (h : respelled.Respells spelling registry) (hwell : registry.WellFormed)
    (hwell' : respelled.WellFormed) (calls : List (Registration α)) :
    (respelled.after (calls.map (·.respell spelling))).Respells spelling
      (registry.after calls) := by
  induction calls generalizing registry respelled with
  | nil => exact h
  | cons registration calls ih =>
    exact ih (h.call hwell hwell' registration) (hwell.call registration)
      (hwell'.call (registration.respell spelling))

/-! ## Conversions in another spelling -/

theorem unitStep_of_measuredBy {unit : String} {dimension : Dimension α}
    {step : Conversion α} (hmeasured : registry.measuredBy unit = .ok dimension)
    (hstep : dimension.multiple? unit = some step) :
    registry.unitStep unit =
      .ok ((dimension.composition.map (·.conversion)).elim step step.compose) := by
  rw [unitStep, hmeasured]
  simp only [bind, Except.bind, hstep]
  cases dimension.composition <;> rfl

/-- The way of a factor to base units, with the units of each side in the alphabetical order of a
    spelling. -/
def wayBy (spelling : String → String) (registry : Registry α) (units : Factor) :
    Except UnitError (Conversion α) :=
  registry.wayAlong (units.numerator.entriesBy spelling) (units.denominator.entriesBy spelling)

/-- The conversion between two factors, with the units of each side in the alphabetical order of a
    spelling. -/
def conversionBy (spelling : String → String) (registry : Registry α) (source target : Factor) :
    Except UnitError (Conversion α) :=
  between (registry.wayBy spelling source) (registry.wayBy spelling target)

section

variable (h : respelled.Respells spelling registry) (hwell : registry.WellFormed)
  (hwell' : respelled.WellFormed)
include h hwell hwell'

/-- A unit has the same step in either spelling. -/
theorem Respells.unitStep (unit : String) : respelled.unitStep (spelling unit) =
    (registry.unitStep unit).mapError (·.respell spelling) := by
  -- A unit that is found is found in both spellings, with the same step.
  cases hmeasured : registry.measuredBy unit with
  | ok dimension =>
    obtain ⟨found, hfound, hrespells⟩ := h.measuredBy unit dimension hmeasured
    obtain ⟨step, hstep⟩ :=
      Dimension.exists_multiple_of_mem (hwell.mem_units_of_measuredBy hmeasured)
    rw [unitStep_of_measuredBy hmeasured hstep,
      unitStep_of_measuredBy hfound (hrespells.multiple.trans hstep), hrespells.composition]
    rfl
  | error cause =>
    rw [Registry.unitStep, Registry.unitStep, hmeasured]
    cases hmeasured' : respelled.measuredBy (spelling unit) with
    | ok found =>
      have hunit := (h.unit unit).1
        (Std.HashMap.contains_iff_mem.1 (hwell'.hasUnit_iff.2 ⟨found, hmeasured'⟩))
      obtain ⟨dimension, hdimension⟩ :=
        hwell.hasUnit_iff.1 (Std.HashMap.contains_iff_mem.2 hunit)
      cases hmeasured.symm.trans hdimension
    | error cause' =>
      rw [eq_of_measuredBy_eq_error hmeasured, eq_of_measuredBy_eq_error hmeasured']
      rfl

omit h hwell hwell' in
theorem invert_mapError (map : Conversion α) :
    (invert map).mapError (·.respell spelling) = invert map := by
  rw [invert]
  cases map.inverse? <;> rfl

theorem Respells.stepUp (e : String × Exponent) : respelled.stepUp (spelling e.1, e.2) =
    (registry.stepUp e).mapError (·.respell spelling) := by
  rw [Registry.stepUp, Registry.stepUp, mapError_bind, h.unitStep hwell hwell']
  rfl

theorem Respells.stepDown (e : String × Exponent) : respelled.stepDown (spelling e.1, e.2) =
    (registry.stepDown e).mapError (·.respell spelling) := by
  rw [Registry.stepDown, Registry.stepDown, mapError_bind, h.unitStep hwell hwell']
  simp only [mapError_bind, invert_mapError]
  rfl

omit h hwell hwell' in
theorem along_respell {step step' : String × Exponent → Except UnitError (Conversion α)}
    (hstep : ∀ e, step' (spelling e.1, e.2) = (step e).mapError (·.respell spelling))
    (entries : List (String × Exponent)) (start : Conversion α) :
    along step' (entries.map fun e => (spelling e.1, e.2)) start =
      (along step entries start).mapError (·.respell spelling) := by
  rw [along, List.foldlM_map]
  refine mapError_foldlM (fun result e => ?_) entries start
  rw [hstep, mapError_bind]
  rfl

/-- The way to base units follows the units in the alphabetical order of the new spelling. -/
theorem Respells.toBase (units : Factor) : respelled.toBase (units.respell spelling) =
    (registry.wayBy spelling units).mapError (·.respell spelling) := by
  rw [toBase_eq_wayAlong, Registry.wayBy, wayAlong, wayAlong, mapError_bind]
  show along respelled.stepUp ((units.numerator.entriesBy spelling).map _) _ >>= _ = _
  rw [along_respell (h.stepUp hwell hwell')]
  exact congrArg _ (funext fun way => along_respell (h.stepDown hwell hwell') _ way)

/-- A conversion follows the units in the alphabetical order of the new spelling. -/
theorem Respells.conversion (source target : Factor) :
    respelled.conversion (source.respell spelling) (target.respell spelling) =
      (registry.conversionBy spelling source target).mapError (·.respell spelling) := by
  rw [conversion_eq_between, conversionBy, between, between, h.toBase hwell hwell',
    h.toBase hwell hwell']
  simp only [mapError_bind, invert_mapError]
  rfl

end

theorem wayBy_of_keepsOrder (registry : Registry α) {units : Factor}
    (h : units.KeepsOrder spelling) : registry.wayBy spelling units = registry.toBase units := by
  have habove : units.numerator.entriesBy spelling = units.numerator.entries :=
    Terms.entriesBy_of_le spelling (h .above)
  have hbelow : units.denominator.entriesBy spelling = units.denominator.entries :=
    Terms.entriesBy_of_le spelling (h .below)
  rw [wayBy, toBase_eq_wayAlong, habove, hbelow]

end Registry

/-! ## Rational numbers -/

namespace Registry

variable {registry respelled : Registry Rat} {spelling : String ↪ String}

theorem sameFactor_wayBy (registry : Registry Rat) (spelling : String → String) (units : Factor) :
    SameFactor (registry.toBase units) (registry.wayBy spelling units) ∧
      SameFactor (registry.wayBy spelling units) (registry.toBase units) := by
  have habove := units.numerator.perm_entriesBy spelling
  have hbelow := units.denominator.perm_entriesBy spelling
  rw [toBase_eq_wayAlong]
  exact ⟨sameFactor_wayAlong habove hbelow, sameFactor_wayAlong habove.symm hbelow.symm⟩

theorem sameFactor_conversionBy (registry : Registry Rat) (spelling : String → String)
    (source target : Factor) :
    SameFactor (registry.conversion source target)
        (registry.conversionBy spelling source target) ∧
      SameFactor (registry.conversionBy spelling source target)
        (registry.conversion source target) := by
  obtain ⟨hout, hout'⟩ := registry.sameFactor_wayBy spelling source
  obtain ⟨hback, hback'⟩ := registry.sameFactor_wayBy spelling target
  exact ⟨hout.between hback, hout'.between hback'⟩

theorem Commutes.conversionBy {source target : Factor} (hsource : registry.Commutes source)
    (htarget : registry.Commutes target) (spelling : String → String) {map : Conversion Rat}
    (h : registry.conversion source target = .ok map) :
    registry.conversionBy spelling source target = .ok map := by
  obtain ⟨out, back, inverse, hout, hback, hright, hleft, rfl⟩ := between_eq_ok_iff.1 h
  have hout' : registry.wayBy spelling source = .ok out := hsource.wayAlong_perm
    (Terms.perm_entriesBy spelling _) (Terms.perm_entriesBy spelling _) hout
  have hback' : registry.wayBy spelling target = .ok back := htarget.wayAlong_perm
    (Terms.perm_entriesBy spelling _) (Terms.perm_entriesBy spelling _) hback
  exact between_eq_ok_iff.2 ⟨out, back, inverse, hout', hback', hright, hleft, rfl⟩

/-- Whatever was registered, with the units of the registrations and of two factors spelled in
    another way, the conversion is the one that follows the units of each side in their new order.
    So there is a conversion in both spellings or in neither, and its factor is the same. The whole
    conversion is the same if the spelling keeps the order of the units on each side of the bar, or
    if their steps commute. -/
theorem conversion_respelled (spelling : String ↪ String) {calls : List (Registration Rat)}
    (h : empty.after calls = registry)
    (h' : empty.after (calls.map (·.respell spelling)) = respelled) (source target : Factor) :
    respelled.conversion (source.respell spelling) (target.respell spelling) =
      (registry.conversionBy spelling source target).mapError (·.respell spelling) ∧
    ((∃ map, respelled.conversion (source.respell spelling) (target.respell spelling) = .ok map) ↔
      ∃ map, registry.conversion source target = .ok map) ∧
    (∀ map map', registry.conversion source target = .ok map →
      respelled.conversion (source.respell spelling) (target.respell spelling) = .ok map' →
      map'.factor = map.factor) ∧
    (source.KeepsOrder spelling → target.KeepsOrder spelling →
      respelled.conversion (source.respell spelling) (target.respell spelling) =
        (registry.conversion source target).mapError (·.respell spelling)) ∧
    (registry.Commutes source → registry.Commutes target →
      ∀ map, registry.conversion source target = .ok map →
        respelled.conversion (source.respell spelling) (target.respell spelling) = .ok map) := by
  have hwell : registry.WellFormed := h ▸ wellFormed_empty.after calls
  have hwell' : respelled.WellFormed := h' ▸ wellFormed_empty.after _
  have hrespells : respelled.Respells spelling registry := by
    rw [← h, ← h']
    exact respells_empty.after wellFormed_empty wellFormed_empty calls
  have hconversion := hrespells.conversion hwell hwell' source target
  -- Errors are respelled and conversions are not, so these are the ones of the new order.
  have hok : ∀ map,
      respelled.conversion (source.respell spelling) (target.respell spelling) = .ok map ↔
        registry.conversionBy spelling source target = .ok map := by
    intro map
    rw [hconversion, mapError_eq_ok_iff]
  obtain ⟨hsame, hsame'⟩ := registry.sameFactor_conversionBy spelling source target
  refine ⟨hconversion, ⟨?_, ?_⟩, fun map map' hmap hmap' => ?_, fun hsource htarget => ?_,
    fun hsource htarget map hmap => (hok map).2 (hsource.conversionBy htarget spelling hmap)⟩
  · rintro ⟨map, hmap⟩
    obtain ⟨map', hmap', -⟩ := hsame' map ((hok map).1 hmap)
    exact ⟨map', hmap'⟩
  · rintro ⟨map, hmap⟩
    obtain ⟨map', hmap', -⟩ := hsame map hmap
    exact ⟨map', (hok map').2 hmap'⟩
  · obtain ⟨found, hfound, hfactor⟩ := hsame map hmap
    obtain rfl := Except.ok.inj (((hok map').1 hmap').symm.trans hfound)
    exact hfactor
  · rw [hconversion, conversionBy, registry.wayBy_of_keepsOrder hsource,
      registry.wayBy_of_keepsOrder htarget, conversion_eq_between]

/-- The way of a product of two units. -/
theorem toBase_product {units : Factor} {first second : String} {step step' : Conversion Rat}
    (habove : units.numerator.entries = [(first, .one), (second, .one)])
    (hbelow : units.denominator.entries = [])
    (hstep : registry.unitStep first = .ok step) (hstep' : registry.unitStep second = .ok step') :
    registry.toBase units = .ok (step * step') := by
  have hup : ∀ unit step, registry.unitStep unit = .ok step →
      registry.stepUp (unit, .one) = .ok step := by
    intro unit step hunit
    refine bind_eq_ok_iff.2 ⟨step, hunit, ?_⟩
    rw [Conversion.iterate_eq_pow]
    exact congrArg Except.ok (pow_one step)
  rw [toBase_eq_wayAlong, habove, hbelow]
  refine wayAlong_eq_ok_iff.2 ⟨[step, step'], [], ?_, .nil, ?_⟩
  · exact .cons (hup first step hstep) (.cons (hup second step' hstep') .nil)
  · rw [List.prod_cons, List.prod_singleton, List.prod_nil, mul_one]

/-- Temperatures and lengths, each with a unit more. -/
def scales (thousand : String) : List (Registration Rat) :=
  [.fundamental "temperature" "K", .fundamental "length" "m", .multiple "degC" "K" ⟨1, 273⟩,
    .multiple thousand "m" ⟨1000, 0⟩]

/-- A temperature times a length, in the units that are multiples. -/
def heated (thousand : String) : Factor := ⟨(Terms.single "degC" .one).set thousand .one, .empty⟩

/-- A temperature times a length, in default units. -/
def plain : Factor := ⟨(Terms.single "K" .one).set "m" .one, .empty⟩

/-- A spelling in capitals, which come before small letters. -/
def capitals : String ↪ String := (Equiv.swap "km" "KM").toEmbedding

theorem after_scales {thousand : String} (h : thousand = "km" ∨ thousand = "KM") :
    (empty : Registry Rat).after (scales thousand) =
      ⟨#[(Dimension.new "temperature" "K" none).addMultiple "degC" ⟨1, 273⟩,
          (Dimension.new "length" "m" none).addMultiple thousand ⟨1000, 0⟩],
        ((∅ : Std.HashMap String Nat).insert "temperature" 0).insert "length" 1, ∅,
        ((((∅ : Std.HashMap String Nat).insert "K" 0).insert "m" 1).insert "degC" 0).insert
          thousand 1,
        ((∅ : Std.HashSet String).insert "K").insert "m"⟩ := by
  rcases h with rfl | rfl <;>
    simp [after, scales, call_eq, register, addFundamental, addMultiple, checkNewName,
      checkNewUnit, hasUnit, empty, bind, Except.bind, pure, Except.pure,
      Std.HashMap.getElem_insert]

theorem measuredBy_scales {thousand : String} (h : thousand = "km" ∨ thousand = "KM") :
    (∀ unit ∈ ["m", thousand], ((empty : Registry Rat).after (scales thousand)).measuredBy unit =
      .ok ((Dimension.new "length" "m" none).addMultiple thousand ⟨1000, 0⟩)) ∧
    ∀ unit ∈ ["K", "degC"], ((empty : Registry Rat).after (scales thousand)).measuredBy unit =
      .ok ((Dimension.new "temperature" "K" none).addMultiple "degC" ⟨1, 273⟩) := by
  rw [after_scales h]
  simp only [List.forall_mem_cons, List.not_mem_nil, false_implies, implies_true, and_true]
  refine ⟨⟨?_, ?_⟩, ?_, ?_⟩
  · refine measuredBy_eq_ok_iff.2 ⟨1, ?_, rfl⟩
    rcases h with rfl | rfl <;> simp [Std.HashMap.getElem_insert]
  · refine measuredBy_eq_ok_iff.2 ⟨1, ?_, rfl⟩
    simp
  · refine measuredBy_eq_ok_iff.2 ⟨0, ?_, rfl⟩
    rcases h with rfl | rfl <;> simp [Std.HashMap.getElem_insert]
  · refine measuredBy_eq_ok_iff.2 ⟨0, ?_, rfl⟩
    rcases h with rfl | rfl <;> simp [Std.HashMap.getElem_insert]

theorem unitStep_scales {thousand : String} (h : thousand = "km" ∨ thousand = "KM") :
    ((empty : Registry Rat).after (scales thousand)).unitStep "K" = .ok 1 ∧
    ((empty : Registry Rat).after (scales thousand)).unitStep "m" = .ok 1 ∧
    ((empty : Registry Rat).after (scales thousand)).unitStep "degC" = .ok ⟨1, 273⟩ ∧
    ((empty : Registry Rat).after (scales thousand)).unitStep thousand = .ok ⟨1000, 0⟩ := by
  obtain ⟨hlength, htemperature⟩ := measuredBy_scales h
  refine ⟨unitStep_of_measuredBy (htemperature _ (by simp)) rfl,
    unitStep_of_measuredBy (hlength _ (by simp)) rfl,
    unitStep_of_measuredBy (htemperature _ (by simp)) rfl,
    unitStep_of_measuredBy (hlength _ (by simp)) ?_⟩
  rcases h with rfl | rfl <;> rfl

theorem conversion_scales {first second : String} {step step' : Conversion Rat}
    {units : Factor} {thousand : String} (h : thousand = "km" ∨ thousand = "KM")
    (hentries : units.numerator.entries = [(first, .one), (second, .one)])
    (hbelow : units.denominator.entries = [])
    (hstep : ((empty : Registry Rat).after (scales thousand)).unitStep first = .ok step)
    (hstep' : ((empty : Registry Rat).after (scales thousand)).unitStep second = .ok step') :
    ((empty : Registry Rat).after (scales thousand)).conversion units plain =
      .ok (step * step') := by
  obtain ⟨hkelvin, hmetre, -, -⟩ := unitStep_scales h
  refine conversion_eq_ok_iff.2 ⟨_, _, 1, toBase_product hentries hbelow hstep hstep',
    toBase_product rfl rfl hkelvin hmetre, ?_, ?_, ?_⟩
  · rw [mul_one, mul_one]
  · rw [mul_one, mul_one]
  · rw [mul_one]

/-- In capitals, the unit of length is followed before that of temperature, and the offset is no
    longer scaled. -/
theorem offset_of_spelling :
    ((empty : Registry Rat).after (scales "km")).conversion (heated "km") plain =
      .ok ⟨1000, 273000⟩ ∧
    ((empty : Registry Rat).after ((scales "km").map (·.respell capitals))).conversion
      ((heated "km").respell capitals) (plain.respell capitals) = .ok ⟨1000, 273⟩ := by
  obtain ⟨-, -, hcelsius, hthousand⟩ := unitStep_scales (.inl rfl)
  obtain ⟨-, -, hcelsius', hthousand'⟩ := unitStep_scales (.inr rfl)
  have hcalls : (scales "km").map (·.respell capitals) = scales "KM" := by decide +kernel
  have hplain : plain.respell capitals = plain := by decide +kernel
  rw [hcalls, hplain, conversion_scales (.inl rfl) (by decide +kernel) rfl hcelsius hthousand,
    conversion_scales (.inr rfl) (by decide +kernel) (by decide +kernel) hthousand' hcelsius']
  constructor
  · decide +kernel
  · decide +kernel

/-- Lengths alone are converted alike in both spellings, and products of lengths and temperatures
    with the same factor. -/
theorem conversion_respelled_scales :
    ∃ registry respelled : Registry Rat, empty.after (scales "km") = registry ∧
      empty.after ((scales "km").map (·.respell capitals)) = respelled ∧
      (∃ map, respelled.conversion ((heated "km").respell capitals) (plain.respell capitals) =
        .ok map ∧ map.factor = 1000) ∧
      respelled.conversion ((Factor.ofSymbol "km").respell capitals)
        ((Factor.ofSymbol "m").respell capitals) = .ok ⟨1000, 0⟩ := by
  obtain ⟨-, hmetre, hcelsius, hthousand⟩ := unitStep_scales (.inl rfl)
  have hheated : ((empty : Registry Rat).after (scales "km")).conversion (heated "km") plain =
      .ok ((⟨1, 273⟩ : Conversion Rat) * ⟨1000, 0⟩) :=
    conversion_scales (.inl rfl) (by decide +kernel) rfl hcelsius hthousand
  have hlength : ((empty : Registry Rat).after (scales "km")).conversion (.ofSymbol "km")
      (.ofSymbol "m") = .ok ⟨1000, 0⟩ := by
    refine conversion_eq_ok_iff.2 ⟨_, _, 1, toBase_ofSymbol hthousand, toBase_ofSymbol hmetre,
      mul_one 1, mul_one 1, (mul_one _).symm⟩
  -- A single unit has no other that its step could be mixed with.
  have hsingle : ∀ unit : String, ((empty : Registry Rat).after (scales "km")).Commutes
      (.ofSymbol unit) := by
    intro unit
    refine commutes_of_single _ fun side symbol hsymbol other hother => ?_
    cases side with
    | above => exact (List.mem_singleton.1 hsymbol).trans (List.mem_singleton.1 hother).symm
    | below => exact absurd hsymbol List.not_mem_nil
  obtain ⟨-, hexists, hfactor, -, -⟩ := conversion_respelled capitals rfl rfl (heated "km") plain
  obtain ⟨-, -, -, -, hsame⟩ :=
    conversion_respelled capitals rfl rfl (Factor.ofSymbol "km") (Factor.ofSymbol "m")
  obtain ⟨map, hmap⟩ := hexists.2 ⟨_, hheated⟩
  have hthousands : map.factor = 1 * 1000 := hfactor _ map hheated hmap
  exact ⟨_, _, rfl, rfl, ⟨map, hmap, hthousands.trans (one_mul 1000)⟩,
    hsame (hsingle "km") (hsingle "m") _ hlength⟩

end Registry

end UnitCheck
