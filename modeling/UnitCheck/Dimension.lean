import UnitCheck.Conversion
import UnitCheck.Factor.Basic

/-!
  Physical dimensions and their units.
-/

namespace UnitCheck

/-- How a dimension is composed of fundamental ones. -/
structure Composition (α : Type) where
  /-- The dimension over names of fundamental dimensions. -/
  dimensions : Factor
  /-- The dimension over default units of fundamental dimensions. -/
  reference : Factor
  /-- From the default unit of the dimension to the reference. -/
  conversion : Conversion α
  deriving DecidableEq

/-- A physical dimension. The first unit of `multiples` is the default unit, with the identity;
    the others have their conversions to it, in the order of registration. -/
structure Dimension (α : Type) where
  name : String
  defaultUnit : String
  multiples : List (String × Conversion α)
  /-- Nothing for fundamental dimensions. -/
  composition : Option (Composition α)
  deriving DecidableEq

namespace Dimension

variable {α : Type}

/-- A dimension with its default unit only. -/
def new [Scalar α] (name defaultUnit : String) (composition : Option (Composition α)) :
    Dimension α :=
  ⟨name, defaultUnit, [(defaultUnit, .identity)], composition⟩

/-- Whether the dimension is composed of others. -/
def isComposed (dimension : Dimension α) : Bool := dimension.composition.isSome

/-- The conversion from a unit of the dimension to its default unit. -/
def multiple? (dimension : Dimension α) (unit : String) : Option (Conversion α) :=
  dimension.multiples.lookup unit

/-- The units of the dimension. -/
def units (dimension : Dimension α) : List String := dimension.multiples.map Prod.fst

/-- The dimension with a unit more. -/
def addMultiple (dimension : Dimension α) (unit : String) (conversion : Conversion α) :
    Dimension α :=
  { dimension with multiples := dimension.multiples ++ [(unit, conversion)] }

end Dimension

end UnitCheck
