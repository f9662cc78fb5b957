import UnitCheck.Proofs.Registry.Acceptance
import UnitCheck.Registry.Configuration

/-!
  Which descriptions of registries are carried out.

  A description is carried out as a whole just if it is consistent (`Configuration.Consistent`):
  names and units are distinct, references are over units of fundamental dimensions, and every
  multiple finds its base among the dimensions and the multiples before it. Since each list is
  taken after the one before, this is what the checks on the growing registry come to
  (`Configuration.admitsAll_iff`). Otherwise what is described before the first entry that is
  refused stays registered (`Registry.exists_of_run_apply_eq_error`).
-/

namespace UnitCheck

variable {α : Type}

namespace Configuration

/-- The names of the dimensions that are described. -/
def names (configuration : Configuration α) : List String :=
  configuration.fundamental.map (·.name) ++ configuration.composed.map (·.name)

/-- The units that are described. -/
def units (configuration : Configuration α) : List String :=
  configuration.fundamental.map (·.unit) ++ configuration.composed.map (·.unit) ++
    configuration.multiples.map (·.unit)

/-- The entries fit together, each with those before it. -/
structure Consistent (configuration : Configuration α) : Prop where
  nodup_names : configuration.names.Nodup
  nodup_units : configuration.units.Nodup
  references : ∀ composed ∈ configuration.composed, ∀ symbol ∈ composed.reference.symbols,
    ∃ fundamental ∈ configuration.fundamental, fundamental.unit = symbol
  bases : ∀ earlier multiple later, configuration.multiples = earlier ++ multiple :: later →
    (∃ fundamental ∈ configuration.fundamental, fundamental.unit = multiple.base) ∨
      (∃ composed ∈ configuration.composed, composed.unit = multiple.base) ∨
      ∃ before ∈ earlier, before.unit = multiple.base

/-! ## The registrations of a description -/

section

variable (configuration : Configuration α)

theorem flatMap_none {β γ : Type} (entries : List β) :
    entries.flatMap (fun _ => ([] : List γ)) = [] :=
  List.flatMap_eq_nil_iff.2 fun _ _ => rfl

theorem fundamentalNames_registrations :
    configuration.registrations.flatMap (·.fundamentalNames) =
      configuration.fundamental.map (·.name) := by
  simp [registrations, List.flatMap_map, Registration.fundamentalNames, flatMap_none,
    ← List.map_eq_flatMap]

theorem composedNames_registrations :
    configuration.registrations.flatMap (·.composedNames) =
      configuration.composed.map (·.name) := by
  simp [registrations, List.flatMap_map, Registration.composedNames, flatMap_none,
    ← List.map_eq_flatMap]

theorem names_registrations :
    configuration.registrations.flatMap (·.names) = configuration.names := by
  simp [registrations, names, List.flatMap_map, Registration.names, Registration.fundamentalNames,
    Registration.composedNames, flatMap_none, ← List.map_eq_flatMap]

theorem units_registrations :
    configuration.registrations.map (·.unit) = configuration.units := by
  simp [registrations, units, Registration.unit, Function.comp_def]

/-- Each entry finds what it refers to among those before it just if references and bases are
    there. -/
theorem eachAfter_supplies_iff :
    EachAfter Registry.empty.Supplies configuration.registrations ↔
      (∀ composed ∈ configuration.composed, ∀ symbol ∈ composed.reference.symbols,
        ∃ fundamental ∈ configuration.fundamental, fundamental.unit = symbol) ∧
      ∀ earlier multiple later, configuration.multiples = earlier ++ multiple :: later →
        (∃ fundamental ∈ configuration.fundamental, fundamental.unit = multiple.base) ∨
          (∃ composed ∈ configuration.composed, composed.unit = multiple.base) ∨
          ∃ before ∈ earlier, before.unit = multiple.base := by
  -- A fundamental entry refers to nothing, and composed entries are no base for each other.
  have hfundamental : EachAfter (fun earlier (e : FundamentalEntry) =>
      (Registry.empty : Registry α).Supplies (earlier.map fun e => .fundamental e.name e.unit)
        (.fundamental e.name e.unit)) configuration.fundamental := fun _ _ _ _ => trivial
  have hempty : ∀ unit : String, unit ∉ (Registry.empty : Registry α).fundamentalUnits ∧
      unit ∉ (Registry.empty : Registry α).dimensionByUnit := by
    intro unit
    exact ⟨Std.HashSet.not_mem_empty, Std.HashMap.not_mem_empty⟩
  rw [registrations, eachAfter_append, eachAfter_append, eachAfter_map, eachAfter_map,
    eachAfter_map, and_iff_right hfundamental, ← eachAfter_const]
  refine and_congr (forall_congr' fun earlier => ?_) (forall_congr' fun earlier => ?_)
  · refine forall₃_congr fun composed later hsplit => ?_
    simp [Registry.Supplies, hempty, Registration.baseUnits, List.flatMap_map, flatMap_none,
      eq_comm]
  · refine forall₃_congr fun multiple later hsplit => ?_
    simp [Registry.Supplies, hempty, Registration.unit]

/-- A description is admitted by the empty registry just if it is consistent. -/
theorem admitsAll_iff :
    Registry.empty.AdmitsAll configuration.registrations ↔ configuration.Consistent := by
  rw [Registry.admitsAll_empty_iff, names_registrations, units_registrations,
    eachAfter_supplies_iff]
  constructor
  · rintro ⟨hnames, hunits, hreferences, hbases⟩
    exact ⟨hnames, hunits, hreferences, hbases⟩
  · rintro ⟨hnames, hunits, hreferences, hbases⟩
    exact ⟨hnames, hunits, hreferences, hbases⟩

end

end Configuration

namespace Registry

variable [Scalar α] {configuration : Configuration α} {registry : Registry α} {cause : UnitError}

/-! ## Carrying out a description -/

theorem ofConfiguration_eq_ok_iff : ofConfiguration configuration = .ok registry ↔
    empty.registerAll configuration.registrations = (registry, .ok ()) := by
  rw [ofConfiguration, apply]
  cases empty.registerAll configuration.registrations with
  | mk final outcome =>
    cases outcome with
    | ok _ => simp
    | error cause => simp

theorem ofConfiguration_eq_error_iff : ofConfiguration configuration = .error cause ↔
    ∃ left, empty.registerAll configuration.registrations = (left, .error cause) := by
  rw [ofConfiguration, apply]
  cases empty.registerAll configuration.registrations with
  | mk final outcome =>
    cases outcome with
    | ok _ => simp
    | error cause => simp

theorem exists_ofConfiguration_iff :
    (∃ registry, ofConfiguration configuration = .ok registry) ↔ configuration.Consistent := by
  simp only [ofConfiguration_eq_ok_iff]
  exact wellFormed_empty.exists_registerAll_iff.trans configuration.admitsAll_iff

/-- The names are listed in the order of the description. -/
theorem names_of_ofConfiguration (h : ofConfiguration configuration = .ok registry) :
    registry.fundamentalNames = configuration.fundamental.map (·.name) ∧
      registry.composedNames = configuration.composed.map (·.name) := by
  have hgains := gains_of_registerAll (ofConfiguration_eq_ok_iff.1 h)
  constructor
  · rw [hgains.fundamentalNames, configuration.fundamentalNames_registrations]
    rfl
  · rw [hgains.composedNames, configuration.composedNames_registrations]
    rfl

/-- The units known are the units described. -/
theorem hasUnit_of_ofConfiguration (h : ofConfiguration configuration = .ok registry)
    (unit : String) : registry.hasUnit unit = true ↔ unit ∈ configuration.units := by
  have hgains := gains_of_registerAll (ofConfiguration_eq_ok_iff.1 h)
  rw [hasUnit, Std.HashMap.contains_iff_mem, hgains.unit, configuration.units_registrations]
  exact or_iff_left Std.HashMap.not_mem_empty

/-- No description fails for another reason than that an entry is refused. -/
theorem kind_of_ofConfiguration (h : ofConfiguration configuration = .error cause) :
    cause.kind = .registration := by
  obtain ⟨left, hleft⟩ := ofConfiguration_eq_error_iff.1 h
  obtain ⟨done, refused, rest, -, hdone, hrefused⟩ := registerAll_eq_error_iff.1 hleft
  exact (wellFormed_empty.registerAll hdone).kind_of_register_eq_error hrefused

/-- A description that fails in place leaves what the entries before the first refused one make. -/
theorem exists_of_run_apply_eq_error {left : Registry α}
    (h : (RegistryM.apply configuration).run.run registry = (.error cause, left)) :
    ∃ done refused rest, configuration.registrations = done ++ refused :: rest ∧
      registry.registerAll done = (left, .ok ()) ∧ registry.after done = left ∧
      left.call refused = (.error cause, left) := by
  rw [run_apply, apply] at h
  obtain ⟨done, refused, rest, hsplit, hdone, hrefused⟩ :=
    registerAll_eq_error_iff.1 (Prod.swap_inj.1 h)
  exact ⟨done, refused, rest, hsplit, hdone, after_of_registerAll hdone, by rw [call_eq, hrefused]⟩

/-- A description gives a registry just if it is consistent, and then it gives one with the names
    in their order and with these units. It fails for no other reason than that an entry is refused.
    Carried out on a registry that exists, a description that fails leaves what the entries before
    the first refused one make of it. -/
theorem configuration_accepted (configuration : Configuration α) :
    ((∃ registry, ofConfiguration configuration = .ok registry) ↔ configuration.Consistent) ∧
    (∀ registry, ofConfiguration configuration = .ok registry →
      registry.fundamentalNames = configuration.fundamental.map (·.name) ∧
      registry.composedNames = configuration.composed.map (·.name) ∧
      ∀ unit, registry.hasUnit unit = true ↔ unit ∈ configuration.units) ∧
    (∀ cause, ofConfiguration configuration = .error cause → cause.kind = .registration) ∧
    ∀ registry left cause,
      (RegistryM.apply configuration).run.run registry = (.error cause, left) →
      ∃ done refused rest, configuration.registrations = done ++ refused :: rest ∧
        registry.registerAll done = (left, .ok ()) ∧ registry.after done = left ∧
        left.call refused = (.error cause, left) := by
  refine ⟨exists_ofConfiguration_iff, fun registry h => ?_, fun cause => kind_of_ofConfiguration,
    fun registry left cause => exists_of_run_apply_eq_error⟩
  obtain ⟨hfundamental, hcomposed⟩ := names_of_ofConfiguration h
  exact ⟨hfundamental, hcomposed, hasUnit_of_ofConfiguration h⟩

/-- Lengths, times and velocities, with multiples of a multiple. -/
def travels : Configuration Rat :=
  ⟨[⟨"length", "m"⟩, ⟨"time", "s"⟩],
    [⟨"velocity", "mps", ⟨.single "m" .one, .single "s" .one⟩, ⟨1, 0⟩⟩],
    [⟨"km", "m", ⟨1000, 0⟩⟩, ⟨"Mm", "km", ⟨1000, 0⟩⟩]⟩

/-- Two dimensions with one unit. -/
def sharedUnit : Configuration Rat := ⟨[⟨"length", "m"⟩, ⟨"height", "m"⟩], [], []⟩

theorem consistent_travels : travels.Consistent where
  nodup_names := by decide
  nodup_units := by decide
  references := by decide
  bases earlier multiple later hsplit := by
    match earlier, hsplit with
    | [], hsplit =>
      cases hsplit
      decide
    | [_], hsplit =>
      cases hsplit
      decide
    | _ :: _ :: _, hsplit => simp [travels] at hsplit

theorem configuration_accepted_travels :
    (∃ registry, ofConfiguration travels = .ok registry ∧
      registry.fundamentalNames = ["length", "time"] ∧ registry.composedNames = ["velocity"] ∧
      registry.hasUnit "Mm" = true ∧ ¬registry.hasUnit "ft" = true) ∧
    (¬∃ registry, ofConfiguration sharedUnit = .ok registry) ∧
    ∃ left cause, (RegistryM.apply sharedUnit).run.run empty = (.error cause, left) ∧
      ∃ done refused rest, sharedUnit.registrations = done ++ refused :: rest ∧
        empty.registerAll done = (left, .ok ()) ∧ empty.after done = left ∧
        left.call refused = (.error cause, left) := by
  obtain ⟨haccepted, hlists, -, -⟩ := configuration_accepted travels
  obtain ⟨hrefused, -, -, hleft⟩ := configuration_accepted sharedUnit
  obtain ⟨registry, hregistry⟩ := haccepted.2 consistent_travels
  obtain ⟨hfundamental, hcomposed, hunits⟩ := hlists registry hregistry
  have hshared : ¬sharedUnit.Consistent := fun h => absurd h.nodup_units (by decide)
  -- The second length has the unit of the first, and is refused.
  have hfails : (RegistryM.apply sharedUnit).run.run empty =
      (.error (.duplicateUnit "m"), empty.after [.fundamental "length" "m"]) := by
    rw [run_apply]
    simp [apply, sharedUnit, Configuration.registrations, registerAll, after, call_eq, register,
      addFundamental, checkNewName, checkNewUnit, hasUnit, empty, bind, Except.bind, pure,
      Except.pure]
  refine ⟨⟨registry, hregistry, hfundamental, hcomposed, (hunits _).2 (by decide), ?_⟩,
    fun h => hshared (hrefused.1 h), _, _, hfails, hleft _ _ _ hfails⟩
  rw [hunits]
  decide

end Registry

end UnitCheck
