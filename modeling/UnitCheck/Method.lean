import UnitCheck.FilterError
import UnitCheck.Factor.Checked

/-!
  The standard methods: how many arguments they take, and how the unit of a call follows from
  the units of its arguments.
-/

namespace UnitCheck

/-- How the unit of a call follows from the units of its arguments. -/
inductive UnitRule where
  /-- The unit of the first argument. -/
  | sameAsArgument
  /-- The unit that all arguments share. -/
  | commonUnit
  /-- The unit of the first argument, times itself. -/
  | squared
  | dimensionless
  deriving DecidableEq

/-- A method with a fixed rule. -/
structure Method where
  name : String
  minArguments : Nat
  /-- The greatest number of arguments, if there is one. -/
  maxArguments : Option Nat
  rule : UnitRule
  deriving DecidableEq

namespace Method

/-- The standard methods. -/
def standard : List Method :=
  [⟨"abs", 1, some 1, .sameAsArgument⟩,
    ⟨"ceiling", 1, some 1, .sameAsArgument⟩,
    ⟨"count", 0, none, .dimensionless⟩,
    ⟨"floor", 1, some 1, .sameAsArgument⟩,
    ⟨"len", 1, some 1, .dimensionless⟩,
    ⟨"max", 1, none, .commonUnit⟩,
    ⟨"min", 1, none, .commonUnit⟩,
    ⟨"round", 1, some 2, .sameAsArgument⟩,
    ⟨"sqr", 1, some 1, .squared⟩,
    ⟨"truncate", 1, some 1, .sameAsArgument⟩]

/-- The standard method of a name. Case matters. -/
def standard? (name : String) : Option Method := standard.find? fun method => method.name = name

/-- Whether a number of arguments is in range. -/
def checkCount (method : Method) (count : Nat) : Except FilterError Unit :=
  if count < method.minArguments then
    .error (.methodRule method.name
      ("requires at least " ++ toString method.minArguments ++ " arguments, got " ++
        toString count))
  else
    match method.maxArguments with
    | none => .ok ()
    | some most =>
      if most < count then
        .error (.methodRule method.name
          ("takes at most " ++ toString most ++ " arguments, got " ++ toString count))
      else .ok ()

/-- The unit that all arguments share. -/
def commonUnit (method : Method) (first : Factor) (units : List Factor) :
    Except FilterError Factor :=
  match units.find? (· != first) with
  | none => .ok first
  | some other =>
    .error (.methodRule method.name
      ("arguments have different units: '" ++ first.text ++ "' and '" ++ other.text ++ "'"))

/-- The unit of a call, from the units of its arguments. A method that may be called without
    arguments takes the empty factor for the first one. -/
def unit (method : Method) (units : List Factor) : Except FilterError Factor := do
  method.checkCount units.length
  let first := units.headD .one
  match method.rule with
  | .dimensionless => return .one
  | .sameAsArgument => return first
  | .squared => (first.mul first).mapError .units
  | .commonUnit => method.commonUnit first units

theorem name_of_standard? {name : String} {method : Method} (h : standard? name = some method) :
    method.name = name := by simpa using List.find?_some h

end Method

end UnitCheck
