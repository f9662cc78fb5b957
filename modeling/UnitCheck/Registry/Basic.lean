import Std.Data.HashMap
import Std.Data.HashSet
import UnitCheck.Dimension
import UnitCheck.Factor.Checked

/-!
  The registry of dimensions: registering them and finding them.

  Dimensions are numbered in the order of registration. Two tables find them by name, one for
  the fundamental and one for the composed ones, and an index finds them by any of their units.
  A registration that is refused gives no new registry.
-/

namespace UnitCheck

/-- Dimensions with the tables that find them. -/
structure Registry (α : Type) where
  dimensions : Array (Dimension α)
  fundamentalByName : Std.HashMap String Nat
  composedByName : Std.HashMap String Nat
  dimensionByUnit : Std.HashMap String Nat
  /-- The default units of fundamental dimensions. -/
  fundamentalUnits : Std.HashSet String

/-- A registration. -/
inductive Registration (α : Type) where
  /-- A fundamental dimension with its default unit. -/
  | fundamental (name unit : String)
  /-- A composed dimension with its default unit, whose conversion leads to the reference. -/
  | composed (name unit : String) (reference : Factor) (conversion : Conversion α)
  /-- One more unit of the dimension that has the unit `base`; its conversion leads to the
      default unit of that dimension. -/
  | multiple (unit base : String) (conversion : Conversion α)
  deriving DecidableEq

namespace Registry

variable {α : Type}

/-- A registry without dimensions. -/
def empty : Registry α := ⟨#[], ∅, ∅, ∅, ∅⟩

/-! ## Finding -/

/-- The dimension of a number. -/
def dimension? (registry : Registry α) (id : Nat) : Option (Dimension α) := registry.dimensions[id]?

/-- Whether a unit is known. -/
def hasUnit (registry : Registry α) (unit : String) : Bool := registry.dimensionByUnit.contains unit

/-- The dimension that an entry of a table refers to. -/
def entry (registry : Registry α) (table : Std.HashMap String Nat) (key : String)
    (missing : UnitError) : Except UnitError (Dimension α) :=
  match table[key]?.bind registry.dimension? with
  | some dimension => .ok dimension
  | none => .error missing

/-- The fundamental dimension of a name. -/
def fundamental (registry : Registry α) (name : String) : Except UnitError (Dimension α) :=
  registry.entry registry.fundamentalByName name (.unknownDimension name)

/-- The composed dimension of a name. -/
def composed (registry : Registry α) (name : String) : Except UnitError (Dimension α) :=
  registry.entry registry.composedByName name (.unknownDimension name)

/-- The dimension of a name. -/
def named (registry : Registry α) (name : String) : Except UnitError (Dimension α) :=
  match registry.composed name with
  | .ok dimension => .ok dimension
  | .error _ => registry.fundamental name

/-- The dimension that a unit measures. -/
def measuredBy (registry : Registry α) (unit : String) : Except UnitError (Dimension α) :=
  registry.entry registry.dimensionByUnit unit (.unknownUnit unit)

/-- The names of the fundamental dimensions, in the order of registration. -/
def fundamentalNames (registry : Registry α) : List String :=
  (registry.dimensions.toList.filter fun dimension => !dimension.isComposed).map Dimension.name

/-- The names of the composed dimensions, in the order of registration. -/
def composedNames (registry : Registry α) : List String :=
  (registry.dimensions.toList.filter Dimension.isComposed).map Dimension.name

/-! ## Factors over fundamental dimensions -/

/-- A factor with each symbol replaced by a factor of its own. -/
def substitute (term : String → Exponent → Except UnitError Factor) (factor : Factor) :
    Except UnitError Factor := do
  let result ← factor.numerator.entries.foldlM
    (fun result (symbol, power) => do result.mul (← term symbol power)) .one
  factor.denominator.entries.foldlM
    (fun result (symbol, power) => do result.div (← term symbol power)) result

/-- A power of a dimension over names of fundamental dimensions. -/
def dimensionTerm (dimension : Dimension α) (power : Exponent) : Except UnitError Factor :=
  match dimension.composition with
  | some composition => composition.dimensions.pow power.val
  | none => .ok (.power dimension.name power)

/-- A power of a unit of a dimension over default units of fundamental dimensions. -/
def unitTerm (dimension : Dimension α) (power : Exponent) : Except UnitError Factor :=
  match dimension.composition with
  | some composition => composition.reference.pow power.val
  | none => .ok (.power dimension.defaultUnit power)

/-- What a factor of units measures, over names of fundamental dimensions. -/
def dimensionsOfUnits (registry : Registry α) (units : Factor) : Except UnitError Factor :=
  substitute (fun unit power => do dimensionTerm (← registry.measuredBy unit) power) units

/-- A factor of dimensions, over names of fundamental dimensions. -/
def dimensionsOfDimensions (registry : Registry α) (dimensions : Factor) :
    Except UnitError Factor :=
  substitute (fun name power => do dimensionTerm (← registry.named name) power) dimensions

/-- A factor of units, over default units of fundamental dimensions. -/
def baseUnits (registry : Registry α) (units : Factor) : Except UnitError Factor :=
  substitute (fun unit power => do unitTerm (← registry.measuredBy unit) power) units

/-! ## Registering -/

/-- Refuses a name that is taken. -/
def checkNewName (registry : Registry α) (name : String) : Except UnitError Unit :=
  if registry.fundamentalByName.contains name || registry.composedByName.contains name then
    .error (.duplicateDimension name)
  else .ok ()

/-- Refuses a unit that is taken. -/
def checkNewUnit (registry : Registry α) (unit : String) : Except UnitError Unit :=
  if registry.hasUnit unit then .error (.duplicateUnit unit) else .ok ()

/-- Refuses a reference with a symbol that is no default unit of a fundamental dimension. -/
def checkReference (registry : Registry α) (reference : Factor) : Except UnitError Unit :=
  match reference.symbols.find? fun symbol => !registry.fundamentalUnits.contains symbol with
  | some symbol => .error (.notFundamentalUnit symbol)
  | none => .ok ()

variable [Scalar α]

/-- Registers a fundamental dimension, and tells its number. -/
def addFundamental (registry : Registry α) (name unit : String) :
    Except UnitError (Registry α × Nat) := do
  registry.checkNewName name
  registry.checkNewUnit unit
  let id := registry.dimensions.size
  return ({ registry with
    dimensions := registry.dimensions.push (.new name unit none)
    fundamentalByName := registry.fundamentalByName.insert name id
    dimensionByUnit := registry.dimensionByUnit.insert unit id
    fundamentalUnits := registry.fundamentalUnits.insert unit }, id)

/-- Registers a composed dimension, and tells its number. -/
def addComposed (registry : Registry α) (name unit : String) (reference : Factor)
    (conversion : Conversion α) : Except UnitError (Registry α × Nat) := do
  registry.checkNewName name
  registry.checkNewUnit unit
  registry.checkReference reference
  let dimensions ← registry.dimensionsOfUnits reference
  let id := registry.dimensions.size
  let composition := ⟨dimensions, reference, conversion⟩
  return ({ registry with
    dimensions := registry.dimensions.push (.new name unit (some composition))
    composedByName := registry.composedByName.insert name id
    dimensionByUnit := registry.dimensionByUnit.insert unit id }, id)

omit [Scalar α] in
/-- Registers a unit of a known dimension, and tells the number of the dimension. -/
def addMultiple (registry : Registry α) (unit base : String) (conversion : Conversion α) :
    Except UnitError (Registry α × Nat) := do
  registry.checkNewUnit unit
  match registry.dimensionByUnit[base]? with
  | none => throw (.unknownBaseUnit base)
  | some id =>
    return ({ registry with
      dimensions := registry.dimensions.modify id (·.addMultiple unit conversion)
      dimensionByUnit := registry.dimensionByUnit.insert unit id }, id)

/-- Carries out a registration, and tells the number of its dimension. -/
def register (registry : Registry α) : Registration α → Except UnitError (Registry α × Nat)
  | .fundamental name unit => registry.addFundamental name unit
  | .composed name unit reference conversion =>
    registry.addComposed name unit reference conversion
  | .multiple unit base conversion => registry.addMultiple unit base conversion

/-- Carries out registrations up to the first that is refused, and tells why that is. -/
def registerAll (registry : Registry α) : List (Registration α) → Registry α × Except UnitError Unit
  | [] => (registry, .ok ())
  | registration :: rest =>
    match registry.register registration with
    | .ok (registry, _) => registry.registerAll rest
    | .error e => (registry, .error e)

end Registry

end UnitCheck
