import UnitCheck.Proofs.Registry.Acceptance
import UnitCheck.Proofs.Registry.Inclusion

/-!
  The order of registrations does not matter to what a registry answers.

  What was registered is told by the registry afterwards, however much was registered since
  (`Registry.Holds`, `Registry.holds_of_registerAll`). Registrations that are all told by another
  registry make a registry that the other one includes (`Registry.includes_of_registerAll`). So two
  registries that were made by the same registrations in different orders include each other, and
  find the same (`Registry.findsAgain_of_includes`).
-/

namespace UnitCheck

variable {α : Type}

theorem lookup_singleton_eq_some_iff {β : Type} {key other : String} {value found : β} :
    [(key, value)].lookup other = some found ↔ other = key ∧ value = found := by
  by_cases hsame : other = key
  · simp [hsame]
  · simp [List.lookup_cons, hsame, beq_false_of_ne hsame]

namespace Dimension

/-- A unit that is added to the first dimension, and that the second has as well. -/
theorem Includes.addMultiple {before later : Dimension α} (h : later.Includes before)
    {unit : String} {conversion : Conversion α} (hunit : later.multiple? unit = some conversion) :
    later.Includes (before.addMultiple unit conversion) where
  name := h.name
  defaultUnit := h.defaultUnit
  composition := h.composition
  multiple other step hstep := by
    rw [multiple?, Dimension.addMultiple, List.lookup_append] at hstep
    rcases Option.or_eq_some_iff.1 hstep with hstep | ⟨-, hstep⟩
    · exact h.multiple other step hstep
    · obtain ⟨rfl, rfl⟩ := lookup_singleton_eq_some_iff.1 hstep
      exact hunit

/-- The unit that was added is found, unless there was one of its name. -/
theorem multiple?_addMultiple {dimension : Dimension α} {unit : String}
    (hnew : unit ∉ dimension.units) (conversion : Conversion α) :
    (dimension.addMultiple unit conversion).multiple? unit = some conversion := by
  have hnone : dimension.multiples.lookup unit = none := by
    rw [← Option.not_isSome_iff_eq_none, Option.isSome_iff_exists]
    exact fun hstep => hnew (mem_units_iff.2 hstep)
  rw [multiple?, Dimension.addMultiple, List.lookup_append, hnone]
  simp

variable [Scalar α]

theorem Proper.multiple?_defaultUnit {dimension : Dimension α} (h : dimension.Proper) :
    dimension.multiple? dimension.defaultUnit = some .identity := by
  obtain ⟨rest, hrest⟩ := List.head?_eq_some_iff.1 h.default
  rw [multiple?, hrest, List.lookup_cons_self]

/-- A dimension has no less units than a new one of its name and composition. -/
theorem Proper.includes_new {dimension : Dimension α} (h : dimension.Proper) {name unit : String}
    {composition : Option (Composition α)} (hname : dimension.name = name)
    (hunit : dimension.defaultUnit = unit) (hcomposition : dimension.composition = composition) :
    dimension.Includes (.new name unit composition) where
  name := hname
  defaultUnit := hunit
  composition := hcomposition
  multiple other step hstep := by
    obtain ⟨rfl, rfl⟩ := lookup_singleton_eq_some_iff.1 hstep
    rw [← hunit]
    exact h.multiple?_defaultUnit

end Dimension

namespace Registry

variable {registry next final other : Registry α}

theorem includes_empty (registry : Registry α) : registry.Includes empty :=
  fun _ hmem => absurd hmem (Array.not_mem_empty _)

variable [Scalar α]

theorem WellFormed.proper_of_mem (h : registry.WellFormed) {dimension : Dimension α}
    (hmem : dimension ∈ registry.dimensions) : dimension.Proper := by
  obtain ⟨id, hid⟩ := Array.mem_iff_getElem?.1 hmem
  exact h.proper id dimension hid

/-! ## What is registered -/

/-- What the registration registers is registered. -/
def Holds (registry : Registry α) : Registration α → Prop
  | .fundamental name unit => ∃ dimension ∈ registry.dimensions,
    dimension.name = name ∧ dimension.defaultUnit = unit ∧ dimension.composition = none
  | .composed name unit reference conversion => ∃ dimension ∈ registry.dimensions,
    dimension.name = name ∧ dimension.defaultUnit = unit ∧
      ∃ dimensions, registry.dimensionsOfUnits reference = .ok dimensions ∧
        dimension.composition = some ⟨dimensions, reference, conversion⟩
  | .multiple unit base conversion => ∃ dimension, registry.measuredBy base = .ok dimension ∧
    dimension.multiple? unit = some conversion

/-- What the units of a factor measure is told again. -/
theorem Includes.dimensionsOfUnits (h : next.Includes registry) (hwell : registry.WellFormed)
    (hwell' : next.WellFormed) {units dimensions : Factor}
    (hdimensions : registry.dimensionsOfUnits units = .ok dimensions) :
    next.dimensionsOfUnits units = .ok dimensions :=
  ((h.findsAgain hwell hwell').dimensionsOfUnits units).ok dimensions hdimensions

/-- What is registered in one registry is registered in one that includes it. -/
theorem Includes.holds (h : next.Includes registry) (hwell : registry.WellFormed)
    (hwell' : next.WellFormed) {registration : Registration α}
    (hholds : registry.Holds registration) : next.Holds registration := by
  -- What a registration asks for is kept as dimensions grow.
  cases registration with
  | fundamental name unit =>
    obtain ⟨dimension, hmem, hname, hunit, hcomposition⟩ := hholds
    obtain ⟨later, hlater, hincludes⟩ := h dimension hmem
    exact ⟨later, hlater, hincludes.name.trans hname, hincludes.defaultUnit.trans hunit,
      hincludes.composition.trans hcomposition⟩
  | composed name unit reference conversion =>
    obtain ⟨dimension, hmem, hname, hunit, dimensions, hdimensions, hcomposition⟩ := hholds
    obtain ⟨later, hlater, hincludes⟩ := h dimension hmem
    exact ⟨later, hlater, hincludes.name.trans hname, hincludes.defaultUnit.trans hunit, dimensions,
      h.dimensionsOfUnits hwell hwell' hdimensions, hincludes.composition.trans hcomposition⟩
  | multiple unit base conversion =>
    obtain ⟨dimension, hmeasured, hstep⟩ := hholds
    obtain ⟨later, hlater, hincludes⟩ := h.exists_measuredBy hwell hwell' hmeasured
    exact ⟨later, hlater, hincludes.multiple unit conversion hstep⟩

/-- A registration that is accepted holds afterwards. -/
theorem holds_of_register (h : registry.WellFormed) {registration : Registration α} {id : Nat}
    (hregister : registry.register registration = .ok (next, id)) : next.Holds registration := by
  have hwell := h.register hregister
  have hincludes := (extends_of_register hregister).includes
  cases registration with
  | fundamental name unit =>
    obtain ⟨-, -, rfl⟩ := of_addFundamental hregister
    exact ⟨_, Array.mem_push_self, rfl, rfl, rfl⟩
  | composed name unit reference conversion =>
    obtain ⟨-, -, -, dimensions, hdimensions, rfl⟩ := of_addComposed hregister
    exact ⟨_, Array.mem_push_self, rfl, rfl, dimensions,
      hincludes.dimensionsOfUnits h hwell hdimensions, rfl⟩
  | multiple unit base conversion =>
    obtain ⟨hunit, hbase, rfl⟩ := of_addMultiple hregister
    obtain ⟨dimension, hdimension, hof⟩ := (h.dimensionByUnit base id).1 hbase
    -- The new unit is the last of its dimension, and the base unit is still among them.
    refine ⟨dimension.addMultiple unit conversion, hwell.measuredBy_eq_ok_iff_mem.2 ⟨?_, ?_⟩,
      Dimension.multiple?_addMultiple (h.dimensionByUnit.not_key hunit hdimension) conversion⟩
    · exact Array.mem_iff_getElem?.2
        ⟨id, getElem?_modify_eq_some_iff.2 ⟨dimension, hdimension, by rw [if_pos rfl]⟩⟩
    · rw [Dimension.units_addMultiple]
      exact List.mem_append_left _ hof

/-! ## One registry in another -/

/-- A registry that tells what is registered keeps including the registry that it is registered
    in. -/
theorem includes_of_register (h : registry.WellFormed) (hother : other.WellFormed)
    (hincludes : other.Includes registry) {registration : Registration α} {id : Nat}
    (hregister : registry.register registration = .ok (next, id))
    (hholds : other.Holds registration) : other.Includes next := by
  intro dimension hmem
  cases registration with
  | fundamental name unit =>
    obtain ⟨-, -, rfl⟩ := of_addFundamental hregister
    obtain ⟨later, hlater, hname, hunit, hcomposition⟩ := hholds
    rcases Array.mem_push.1 hmem with hmem | rfl
    · exact hincludes dimension hmem
    · exact ⟨later, hlater, (hother.proper_of_mem hlater).includes_new hname hunit hcomposition⟩
  | composed name unit reference conversion =>
    obtain ⟨-, -, -, dimensions, hdimensions, rfl⟩ := of_addComposed hregister
    obtain ⟨later, hlater, hname, hunit, dimensions', hdimensions', hcomposition⟩ := hholds
    -- Both registries tell the same of the reference.
    obtain rfl := Except.ok.inj
      ((hincludes.dimensionsOfUnits h hother hdimensions).symm.trans hdimensions')
    rcases Array.mem_push.1 hmem with hmem | rfl
    · exact hincludes dimension hmem
    · exact ⟨later, hlater, (hother.proper_of_mem hlater).includes_new hname hunit hcomposition⟩
  | multiple unit base conversion =>
    obtain ⟨-, hbase, rfl⟩ := of_addMultiple hregister
    obtain ⟨found, hfound, hstep⟩ := hholds
    obtain ⟨changed, hchanged⟩ := Array.mem_iff_getElem?.1 hmem
    obtain ⟨before, hbefore, rfl⟩ := getElem?_modify_eq_some_iff.1 hchanged
    split
    · -- The dimension that has the base is the one the other registry has the unit in.
      rename_i hsame
      obtain ⟨based, hbased, hof⟩ := (h.dimensionByUnit base id).1 hbase
      obtain rfl := Option.some.inj ((hsame ▸ hbefore).symm.trans hbased)
      obtain ⟨later, hlater, hincludes'⟩ :=
        hincludes.exists_measuredBy h hother (h.measuredBy_eq_ok hbased hof)
      obtain rfl := Except.ok.inj (hlater.symm.trans hfound)
      exact ⟨later, (hother.measuredBy_eq_ok_iff_mem.1 hlater).1, hincludes'.addMultiple hstep⟩
    · exact hincludes before (Array.mem_iff_getElem?.2 ⟨changed, hbefore⟩)

/-! ## All registrations -/

/-- All that was registered holds in the end. -/
theorem holds_of_registerAll (h : registry.WellFormed) {calls : List (Registration α)}
    (hcalls : registry.registerAll calls = (final, .ok ())) :
    ∀ registration ∈ calls, final.Holds registration := by
  induction calls generalizing registry with
  | nil => exact fun _ hmem => nomatch hmem
  | cons first calls ih =>
    obtain ⟨next, id, hregister, hrest⟩ := registerAll_cons_eq_ok_iff.1 hcalls
    have hwell := h.register hregister
    have hlater := next.includes_of_after calls
    rw [after_of_registerAll hrest] at hlater
    refine List.forall_mem_cons.2 ⟨?_, ih hwell hrest⟩
    exact hlater.holds hwell (hwell.registerAll hrest) (holds_of_register h hregister)

/-- A registry that tells all that is registered includes what registering makes. -/
theorem includes_of_registerAll (h : registry.WellFormed) (hother : other.WellFormed)
    (hincludes : other.Includes registry) {calls : List (Registration α)}
    (hcalls : registry.registerAll calls = (final, .ok ()))
    (hholds : ∀ registration ∈ calls, other.Holds registration) : other.Includes final := by
  induction calls generalizing registry with
  | nil =>
    cases hcalls
    exact hincludes
  | cons first calls ih =>
    obtain ⟨next, id, hregister, hrest⟩ := registerAll_cons_eq_ok_iff.1 hcalls
    obtain ⟨hfirst, hholds⟩ := List.forall_mem_cons.1 hholds
    exact ih (h.register hregister) (includes_of_register h hother hincludes hregister hfirst) hrest
      hholds

/-- Registries that include each other find the same. -/
theorem findsAgain_of_includes (h : registry.WellFormed) (hother : other.WellFormed)
    (hincludes : other.Includes registry) (hincludes' : registry.Includes other) :
    other.FindsAgain (fun _ => False) registry where
  measuredBy unit := by
    refine ⟨fun _ => hincludes.exists_measuredBy h hother, fun cause hcause => .inr ?_⟩
    cases hmeasured : other.measuredBy unit with
    | ok dimension =>
      obtain ⟨later, hlater, -⟩ := hincludes'.exists_measuredBy hother h hmeasured
      cases hlater.symm.trans hcause
    | error cause' => rw [eq_of_measuredBy_eq_error hmeasured, eq_of_measuredBy_eq_error hcause]
  named name := by
    refine ⟨fun _ => hincludes.exists_named h hother, fun cause hcause => .inr ?_⟩
    cases hnamed : other.named name with
    | ok dimension =>
      obtain ⟨later, hlater, -⟩ := hincludes'.exists_named hother h hnamed
      cases hlater.symm.trans hcause
    | error cause' => rw [eq_of_named_eq_error hnamed, eq_of_named_eq_error hcause]

/-- Registrations that are all accepted in two orders make registries that give the same answer to
    every question, or refuse it for the same reason. -/
theorem answers_perm {calls calls' : List (Registration α)} (hperm : calls.Perm calls')
    (h : empty.registerAll calls = (registry, .ok ()))
    (h' : empty.registerAll calls' = (other, .ok ())) :
    (∀ units, registry.dimensionsOfUnits units = other.dimensionsOfUnits units) ∧
    (∀ dimensions,
      registry.dimensionsOfDimensions dimensions = other.dimensionsOfDimensions dimensions) ∧
    (∀ units, registry.baseUnits units = other.baseUnits units) ∧
    (∀ first second, registry.sameDimensions first second = other.sameDimensions first second) ∧
    (∀ first second, registry.equalDimensions first second = other.equalDimensions first second) ∧
    (∀ source target, registry.conversion source target = other.conversion source target) ∧
    ∀ value source target,
      registry.convert value source target = other.convert value source target := by
  have hwell := wellFormed_empty.registerAll h
  have hwell' := wellFormed_empty.registerAll h'
  have hholds := holds_of_registerAll wellFormed_empty h
  have hholds' := holds_of_registerAll wellFormed_empty h'
  -- Each registry has all that the other was told, so each includes the other.
  have hincludes : other.Includes registry :=
    includes_of_registerAll wellFormed_empty hwell' (includes_empty other) h
      fun registration hmem => hholds' registration (hperm.mem_iff.1 hmem)
  have hincludes' : registry.Includes other :=
    includes_of_registerAll wellFormed_empty hwell (includes_empty registry) h'
      fun registration hmem => hholds registration (hperm.mem_iff.2 hmem)
  have hanswers :=
    (findsAgain_of_includes hwell hwell' hincludes hincludes').answersAgain hwell
  exact ⟨fun units => (hanswers.dimensionsOfUnits units).eq,
    fun dimensions => (hanswers.dimensionsOfDimensions dimensions).eq,
    fun units => (hanswers.baseUnits units).eq,
    fun first second => (hanswers.sameDimensions first second).eq,
    fun first second => (hanswers.equalDimensions first second).eq,
    fun source target => (hanswers.conversion source target).eq,
    fun value source target => (hanswers.convert value source target).eq⟩

/-- Times and lengths, a multiple and velocities. -/
def journeys : List (Registration Rat) :=
  [.fundamental "time" "s", .fundamental "length" "m", .multiple "km" "m" ⟨1000, 0⟩,
    .composed "velocity" "mps" ⟨.single "m" .one, .single "s" .one⟩ ⟨1, 0⟩]

/-- The same in another order. -/
def reordered : List (Registration Rat) :=
  [.fundamental "length" "m", .fundamental "time" "s",
    .composed "velocity" "mps" ⟨.single "m" .one, .single "s" .one⟩ ⟨1, 0⟩,
    .multiple "km" "m" ⟨1000, 0⟩]

theorem admitsAll_journeys :
    (empty : Registry Rat).AdmitsAll journeys ∧ (empty : Registry Rat).AdmitsAll reordered := by
  constructor
  · refine admitsAll_empty_iff.2 ⟨by decide, by decide, ?_⟩
    simp [journeys, eachAfter_cons, eachAfter_nil, Supplies, Registration.unit,
      Registration.baseUnits, Factor.symbols, Terms.symbols, Terms.single, Terms.set, insertEntry,
      Terms.empty]
  · refine admitsAll_empty_iff.2 ⟨by decide, by decide, ?_⟩
    simp [reordered, eachAfter_cons, eachAfter_nil, Supplies, Registration.unit,
      Registration.baseUnits, Factor.symbols, Terms.symbols, Terms.single, Terms.set, insertEntry,
      Terms.empty]

theorem answers_perm_journeys : ∃ registry other : Registry Rat,
    journeys.Perm reordered ∧ empty.registerAll journeys = (registry, .ok ()) ∧
    empty.registerAll reordered = (other, .ok ()) ∧
    registry.fundamentalNames ≠ other.fundamentalNames ∧
    ∀ source target, registry.conversion source target = other.conversion source target := by
  have hperm : journeys.Perm reordered := by decide
  obtain ⟨registry, hregistry⟩ := wellFormed_empty.exists_registerAll_iff.2 admitsAll_journeys.1
  obtain ⟨other, hother⟩ := wellFormed_empty.exists_registerAll_iff.2 admitsAll_journeys.2
  obtain ⟨-, -, -, -, -, hconversion, -⟩ := answers_perm hperm hregistry hother
  refine ⟨registry, other, hperm, hregistry, hother, ?_, hconversion⟩
  rw [(gains_of_registerAll hregistry).fundamentalNames,
    (gains_of_registerAll hother).fundamentalNames]
  decide

end Registry

end UnitCheck
