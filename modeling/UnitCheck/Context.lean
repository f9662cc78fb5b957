import Std.Data.HashMap
import UnitCheck.Method

/-!
  Where the units of fields and the rules of methods come from.
-/

namespace UnitCheck

/-- Gives the unit of a call from the units of its arguments. -/
abbrev MethodRule := List Factor → Except FilterError Factor

/-- The surroundings in which an expression gets its unit. -/
structure Context where
  fieldUnit : String → Option Factor
  methodRule : String → Option MethodRule

/-- Named units of fields and rules of methods. -/
structure Bindings where
  fields : Std.HashMap String Factor
  methods : Std.HashMap String MethodRule
  /-- Whether the standard methods are known where no rule is given. -/
  standardMethods : Bool

namespace Bindings

/-- No fields and no methods, apart from the standard ones if they are wanted. -/
def empty (standardMethods : Bool) : Bindings := ⟨∅, ∅, standardMethods⟩

/-- The bindings with the unit of a field given anew. -/
def setField (bindings : Bindings) (name : String) (unit : Factor) : Bindings :=
  { bindings with fields := bindings.fields.insert name unit }

/-- The bindings with the rule of a method given anew. A standard method of the same name is
    hidden. -/
def setMethod (bindings : Bindings) (name : String) (rule : MethodRule) : Bindings :=
  { bindings with methods := bindings.methods.insert name rule }

/-- The rule of a method: the given one, else the standard one. -/
def methodRule (bindings : Bindings) (name : String) : Option MethodRule :=
  match bindings.methods[name]? with
  | some rule => some rule
  | none => if bindings.standardMethods then (Method.standard? name).map Method.unit else none

/-- The surroundings that the bindings describe. -/
def context (bindings : Bindings) : Context where
  fieldUnit name := bindings.fields[name]?
  methodRule := bindings.methodRule

end Bindings

end UnitCheck
