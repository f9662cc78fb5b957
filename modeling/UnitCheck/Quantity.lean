import UnitCheck.Factor.Reader
import UnitCheck.Registry.Convert

/-!
  Quantities: values with units.

  The text of a quantity is its value and, unless the unit is empty, a blank and the unit. Reading
  splits the text at its first blank; what comes after it is the unit.
-/

namespace UnitCheck

/-- A value with its unit. -/
structure Quantity (α : Type) where
  value : α
  unit : Factor

namespace Quantity

/-! ## Conversion -/

section

variable {α : Type} [Scalar α]

/-- The quantity in another unit, which must measure the same. -/
def convertTo (registry : Registry α) (quantity : Quantity α) (target : Factor) :
    Except UnitError (Quantity α) := do
  let value ← registry.convert quantity.value quantity.unit target
  return ⟨value, target⟩

/-- The quantity in default units of fundamental dimensions. -/
def normalize (registry : Registry α) (quantity : Quantity α) : Except UnitError (Quantity α) := do
  let target ← registry.baseUnits quantity.unit
  let conversion ← registry.conversion quantity.unit target
  return ⟨conversion.apply quantity.value, target⟩

omit [Scalar α] in
/-- Whether two quantities measure the same. -/
def isCompatible (registry : Registry α) (first second : Quantity α) : Except UnitError Bool :=
  registry.sameDimensions first.unit second.unit

end

/-! ## Text -/

/-- A value as it is written. -/
def valueText (value : Float) : String := String.ofList (Number.floatText .plain value)

/-- The quantity as it is written. -/
def text (quantity : Quantity Float) : String :=
  String.ofList <|
    Number.floatText .plain quantity.value ++
      if quantity.unit.isEmpty then [] else ' ' :: quantity.unit.chars

/-- The quantity that a text denotes. A text without a unit denotes a dimensionless one. -/
def ofText (text : String) : Except UnitError (Quantity Float) :=
  let cs := Text.trimBlanks text.toList
  let isPart (c : Char) : Bool := !Text.isBlank c
  match Number.readFloat (cs.takeWhile isPart) with
  | none => .error (.malformedText 0 .expectedNumber)
  | some value =>
    match Text.trimBlanks (cs.dropWhile isPart) with
    | [] => .ok ⟨value, .one⟩
    | unit => do
      let unit ← Factor.ofChars unit
      return ⟨value, unit⟩

end Quantity

end UnitCheck
