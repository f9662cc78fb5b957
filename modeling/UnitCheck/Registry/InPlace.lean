import UnitCheck.Registry.Configuration

/-!
  Registering in place.

  A registry is changed by one statement after the other, and what fails keeps the changes that
  were made before. All that may fail comes before the first change, so a call that fails changes
  nothing: `Registry.call_eq` says that a call does what `Registry.register` tells. A description
  is carried out call by call, and what was registered before a call that fails stays:
  `Registry.run_apply` says that this does what `Registry.apply` tells.
-/

namespace UnitCheck

variable {α : Type}

/-- What changes a registry and may fail. -/
abbrev RegistryM (α : Type) := ExceptT UnitError (StateM (Registry α))

namespace RegistryM

/-- Appends a dimension, and tells its number. -/
def push (dimension : Dimension α) : RegistryM α Nat := do
  let id := (← get).dimensions.size
  modify fun registry => { registry with dimensions := registry.dimensions.push dimension }
  return id

/-- Lets a unit refer to a dimension. -/
def indexUnit (unit : String) (id : Nat) : RegistryM α Unit :=
  modify fun registry =>
    { registry with dimensionByUnit := registry.dimensionByUnit.insert unit id }

/-- Registers a fundamental dimension, and tells its number. -/
def addFundamental [Scalar α] (name unit : String) : RegistryM α Nat := do
  (← get).checkNewName name
  (← get).checkNewUnit unit
  let id ← push (.new name unit none)
  modify fun registry =>
    { registry with fundamentalByName := registry.fundamentalByName.insert name id }
  indexUnit unit id
  modify fun registry => { registry with fundamentalUnits := registry.fundamentalUnits.insert unit }
  return id

/-- Registers a composed dimension, and tells its number. -/
def addComposed [Scalar α] (name unit : String) (reference : Factor) (conversion : Conversion α) :
    RegistryM α Nat := do
  (← get).checkNewName name
  (← get).checkNewUnit unit
  (← get).checkReference reference
  let dimensions ← (← get).dimensionsOfUnits reference
  let id ← push (.new name unit (some ⟨dimensions, reference, conversion⟩))
  modify fun registry =>
    { registry with composedByName := registry.composedByName.insert name id }
  indexUnit unit id
  return id

/-- The number of the dimension that has a unit, which a multiple is to be added to. -/
def baseDimension (base : String) (registry : Registry α) : Except UnitError Nat :=
  match registry.dimensionByUnit[base]? with
  | some id => .ok id
  | none => .error (.unknownBaseUnit base)

/-- Registers a unit of a known dimension, and tells the number of the dimension. -/
def addMultiple (unit base : String) (conversion : Conversion α) : RegistryM α Nat := do
  (← get).checkNewUnit unit
  let id ← baseDimension base (← get)
  modify fun registry =>
    { registry with dimensions := registry.dimensions.modify id (·.addMultiple unit conversion) }
  indexUnit unit id
  return id

/-- Carries out a registration, and tells the number of its dimension. -/
def register [Scalar α] : Registration α → RegistryM α Nat
  | .fundamental name unit => addFundamental name unit
  | .composed name unit reference conversion => addComposed name unit reference conversion
  | .multiple unit base conversion => addMultiple unit base conversion

/-- Carries out what is described, list by list, up to the first call that fails. -/
def apply [Scalar α] (configuration : Configuration α) : RegistryM α Unit := do
  configuration.fundamental.forM fun entry => discard (addFundamental entry.name entry.unit)
  configuration.composed.forM fun entry =>
    discard (addComposed entry.name entry.unit entry.reference entry.conversion)
  configuration.multiples.forM fun entry =>
    discard (addMultiple entry.unit entry.base entry.conversion)

end RegistryM

namespace Registry

variable [Scalar α]

/-- What a call answers, and the registry that it leaves. -/
def call (registry : Registry α) (registration : Registration α) :
    Except UnitError Nat × Registry α :=
  (RegistryM.register registration).run.run registry

/-- The registry after some calls, each made whether or not those before it failed. -/
def after (registry : Registry α) (calls : List (Registration α)) : Registry α :=
  calls.foldl (fun registry registration => (registry.call registration).2) registry

/-- Some calls lead from the empty registry to this one. -/
def Reachable (registry : Registry α) : Prop := ∃ calls, empty.after calls = registry

omit [Scalar α] in
/-- A second step goes on with what the first has left, unless that failed. -/
theorem run_bind {β γ : Type} (registry : Registry α) (first : RegistryM α β)
    (next : β → RegistryM α γ) :
    (first >>= next).run.run registry =
      match first.run.run registry with
      | (.ok found, left) => (next found).run.run left
      | (.error cause, left) => (.error cause, left) := by
  show (match first.run.run registry with
    | (outcome, left) => (ExceptT.bindCont next outcome).run left) = _
  cases first.run.run registry with
  | mk outcome left =>
    cases outcome with
    | ok _ => rfl
    | error _ => rfl

/-- A call answers the number that registering tells and leaves the registry that it gives, or it
    fails as registering does and leaves the registry as it was. -/
def Performs (registry : Registry α) (action : RegistryM α Nat)
    (result : Except UnitError (Registry α × Nat)) : Prop :=
  action.run.run registry =
    match result with
    | .ok (next, id) => (.ok id, next)
    | .error cause => (.error cause, registry)

omit [Scalar α] in
/-- A check is made on the registry as it is given, and what follows goes on from there. -/
theorem Performs.check {β : Type} {registry : Registry α} (check : Registry α → Except UnitError β)
    {next : β → RegistryM α Nat} {result : β → Except UnitError (Registry α × Nat)}
    (h : ∀ found, registry.Performs (next found) (result found)) :
    registry.Performs (do let found ← check (← get); next found) (check registry >>= result) := by
  show ((liftM (check registry) : RegistryM α β) >>= next).run.run registry = _
  cases check registry with
  | ok found => exact h found
  | error _ => rfl

omit [Scalar α] in
/-- The dimension of the base unit is looked up after the unit was checked. -/
theorem addMultiple_eq (registry : Registry α) (unit base : String) (conversion : Conversion α) :
    registry.addMultiple unit base conversion = (do
      registry.checkNewUnit unit
      let id ← RegistryM.baseDimension base registry
      return ({ registry with
        dimensions := registry.dimensions.modify id (·.addMultiple unit conversion)
        dimensionByUnit := registry.dimensionByUnit.insert unit id }, id)) := by
  rw [addMultiple, RegistryM.baseDimension]
  cases registry.dimensionByUnit[base]? with
  | none => rfl
  | some id => rfl

/-- A call that is refused leaves the registry as it was, and any other makes it the one that
    registering gives. -/
theorem call_eq (registry : Registry α) (registration : Registration α) :
    registry.call registration =
      match registry.register registration with
      | .ok (next, id) => (.ok id, next)
      | .error cause => (.error cause, registry) := by
  show registry.Performs (RegistryM.register registration) (registry.register registration)
  -- After the last check nothing fails, and the changes are made one by one.
  cases registration with
  | fundamental name unit =>
    exact .check (·.checkNewName name) fun _ => .check (·.checkNewUnit unit) fun _ => rfl
  | composed name unit reference conversion =>
    exact .check (·.checkNewName name) fun _ => .check (·.checkNewUnit unit) fun _ =>
      .check (·.checkReference reference) fun _ => .check (·.dimensionsOfUnits reference)
        fun _ => rfl
  | multiple unit base conversion =>
    show registry.Performs (RegistryM.addMultiple unit base conversion)
      (registry.addMultiple unit base conversion)
    rw [addMultiple_eq]
    exact .check (·.checkNewUnit unit) fun _ => .check (RegistryM.baseDimension base) fun _ => rfl

/-- What is registered in two parts. -/
theorem registerAll_append (registry : Registry α) (calls later : List (Registration α)) :
    registry.registerAll (calls ++ later) =
      match registry.registerAll calls with
      | (next, .ok ()) => next.registerAll later
      | (next, .error cause) => (next, .error cause) := by
  induction calls generalizing registry with
  | nil => rfl
  | cons registration calls ih =>
    rw [List.cons_append, registerAll, registerAll]
    cases registry.register registration with
    | ok result => exact ih result.1
    | error cause => rfl

/-- The calls for the entries of a list register all of them, up to the first that is refused. -/
theorem run_forM_register {β : Type} (registry : Registry α) (registration : β → Registration α)
    (entries : List β) :
    (entries.forM fun entry =>
        discard (RegistryM.register (registration entry)) : RegistryM α Unit).run.run registry =
      (registry.registerAll (entries.map registration)).swap := by
  induction entries generalizing registry with
  | nil => rfl
  | cons entry entries ih =>
    -- One call is told by the registration; the others are made on what it leaves, if it succeeds.
    have hcall := registry.call_eq (registration entry)
    rw [call] at hcall
    rw [List.map_cons, registerAll]
    show ((do
      let _ ← RegistryM.register (registration entry)
      pure ()) >>= fun _ => entries.forM fun entry =>
        discard (RegistryM.register (registration entry))).run.run registry = _
    rw [bind_assoc, run_bind, hcall]
    cases registry.register (registration entry) with
    | ok result => exact ih result.1
    | error cause => rfl

/-- The calls for two lists, one list after the other. -/
theorem run_andThen_registerAll (registry : Registry α) {first second : RegistryM α Unit}
    {calls later : List (Registration α)}
    (hfirst : ∀ registry, first.run.run registry = (registry.registerAll calls).swap)
    (hsecond : ∀ registry, second.run.run registry = (registry.registerAll later).swap) :
    (do first; second : RegistryM α Unit).run.run registry =
      (registry.registerAll (calls ++ later)).swap := by
  rw [run_bind, hfirst, registerAll_append]
  cases registry.registerAll calls with
  | mk next outcome =>
    cases outcome with
    | ok _ => exact hsecond next
    | error cause => rfl

/-- Carrying out a description in place registers what it describes, up to the first entry that is
    refused. -/
theorem run_apply (registry : Registry α) (configuration : Configuration α) :
    (RegistryM.apply configuration).run.run registry = (registry.apply configuration).swap := by
  have hfundamental := fun registry : Registry α => registry.run_forM_register
    (fun e => .fundamental e.name e.unit) configuration.fundamental
  have hcomposed := fun registry : Registry α => registry.run_forM_register
    (fun e => .composed e.name e.unit e.reference e.conversion) configuration.composed
  have hmultiples := fun registry : Registry α => registry.run_forM_register
    (fun e => .multiple e.unit e.base e.conversion) configuration.multiples
  rw [apply, Configuration.registrations, List.append_assoc]
  exact registry.run_andThen_registerAll hfundamental
    fun registry => registry.run_andThen_registerAll hcomposed hmultiples

end Registry

end UnitCheck
