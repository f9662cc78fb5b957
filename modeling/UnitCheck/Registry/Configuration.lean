import UnitCheck.Factor.Reader
import UnitCheck.Json.Record
import UnitCheck.Registry.Basic

/-!
  Descriptions of registries: what to register, in three lists that are taken in order. They
  are kept as JSON.
-/

namespace UnitCheck

/-- A fundamental dimension to register. -/
structure FundamentalEntry where
  name : String
  unit : String
  deriving DecidableEq

/-- A composed dimension to register. -/
structure ComposedEntry (α : Type) where
  name : String
  unit : String
  reference : Factor
  conversion : Conversion α

/-- A further unit to register. -/
structure MultipleEntry (α : Type) where
  unit : String
  base : String
  conversion : Conversion α

/-- The description of a registry. -/
structure Configuration (α : Type) where
  fundamental : List FundamentalEntry
  composed : List (ComposedEntry α)
  multiples : List (MultipleEntry α)

namespace Configuration

/-- The registrations that are described, in their order. -/
def registrations {α : Type} (configuration : Configuration α) : List (Registration α) :=
  configuration.fundamental.map (fun e => .fundamental e.name e.unit) ++
    configuration.composed.map (fun e => .composed e.name e.unit e.reference e.conversion) ++
    configuration.multiples.map (fun e => .multiple e.unit e.base e.conversion)

/-- Whether two descriptions are equal. Conversions are compared as maps of numbers. -/
def same (a b : Configuration Float) : Bool :=
  let sameComposed (a b : ComposedEntry Float) : Bool :=
    a.name = b.name && a.unit = b.unit && a.reference = b.reference &&
      a.conversion.same b.conversion
  let sameMultiple (a b : MultipleEntry Float) : Bool :=
    a.unit = b.unit && a.base = b.base && a.conversion.same b.conversion
  a.fundamental = b.fundamental && a.composed.isEqv b.composed sameComposed &&
    a.multiples.isEqv b.multiples sameMultiple

end Configuration

/-- Carries out what is described, up to the first registration that is refused. -/
def Registry.apply {α : Type} [Scalar α] (registry : Registry α) (configuration : Configuration α) :
    Registry α × Except UnitError Unit :=
  registry.registerAll configuration.registrations

/-- The registry that is described. -/
def Registry.ofConfiguration {α : Type} [Scalar α] (configuration : Configuration α) :
    Except UnitError (Registry α) :=
  match Registry.empty.apply configuration with
  | (registry, .ok ()) => .ok registry
  | (_, .error e) => .error e

/-! ## JSON -/

open Json (Value)

namespace Factor

/-- The factor as a JSON string. -/
def toJson (factor : Factor) : Value := .text factor.text

/-- The factor that a JSON string holds. -/
def ofJson? (value : Value) : Option Factor := do
  let text ← value.toText?
  (ofText text).toOption

end Factor

namespace Conversion

/-- The fields of a conversion in JSON. -/
def toMembers (conversion : Conversion Float) : List (String × Value) :=
  [("factor", .ofFloat conversion.factor), ("offset", .ofFloat conversion.offset)]

/-- The conversion as a JSON record. -/
def toJson (conversion : Conversion Float) : Value := .record conversion.toMembers

/-- The conversion of two fields. The offset may be missing. -/
def ofFields? (factor offset : Option Value) : Option (Conversion Float) := do
  let factor ← (← factor).toFloat?
  let offset ← Json.optionalFloat? offset
  return ⟨factor, offset⟩

/-- The conversion that a JSON record denotes. -/
def ofJson? (value : Value) : Option (Conversion Float) := do
  match ← Json.fields ["factor", "offset"] value with
  | [factor, offset] => ofFields? factor offset
  | _ => none

end Conversion

namespace FundamentalEntry

/-- The entry as a JSON record. -/
def toJson (entry : FundamentalEntry) : Value :=
  .record [("name", .text entry.name), ("unit", .text entry.unit)]

/-- The entry that a JSON record denotes. -/
def ofJson? (value : Value) : Option FundamentalEntry := do
  match ← Json.fields ["name", "unit"] value with
  | [name, unit] => return ⟨← (← name).toText?, ← (← unit).toText?⟩
  | _ => none

end FundamentalEntry

namespace ComposedEntry

/-- The entry as a JSON record. -/
def toJson (entry : ComposedEntry Float) : Value :=
  .record <|
    [("name", .text entry.name), ("unit", .text entry.unit),
      ("reference", entry.reference.toJson)] ++ entry.conversion.toMembers

/-- The entry that a JSON record denotes. -/
def ofJson? (value : Value) : Option (ComposedEntry Float) := do
  match ← Json.fields ["name", "unit", "reference", "factor", "offset"] value with
  | [name, unit, reference, factor, offset] =>
    return ⟨← (← name).toText?, ← (← unit).toText?, ← Factor.ofJson? (← reference),
      ← Conversion.ofFields? factor offset⟩
  | _ => none

end ComposedEntry

namespace MultipleEntry

/-- The entry as a JSON record. -/
def toJson (entry : MultipleEntry Float) : Value :=
  .record ([("unit", .text entry.unit), ("base", .text entry.base)] ++ entry.conversion.toMembers)

/-- The entry that a JSON record denotes. -/
def ofJson? (value : Value) : Option (MultipleEntry Float) := do
  match ← Json.fields ["unit", "base", "factor", "offset"] value with
  | [unit, base, factor, offset] =>
    return ⟨← (← unit).toText?, ← (← base).toText?, ← Conversion.ofFields? factor offset⟩
  | _ => none

end MultipleEntry

namespace Configuration

/-- The description as a JSON record. -/
def toJson (configuration : Configuration Float) : Value :=
  .record
    [("fundamental", .array (configuration.fundamental.map FundamentalEntry.toJson)),
      ("composed", .array (configuration.composed.map ComposedEntry.toJson)),
      ("multiples", .array (configuration.multiples.map MultipleEntry.toJson))]

/-- The description that a JSON record denotes. A list that is not given is empty. -/
def ofJson? (value : Value) : Option (Configuration Float) := do
  match ← Json.fields ["fundamental", "composed", "multiples"] value with
  | [fundamental, composed, multiples] =>
    return ⟨← Json.optionalList? FundamentalEntry.ofJson? fundamental,
      ← Json.optionalList? ComposedEntry.ofJson? composed,
      ← Json.optionalList? MultipleEntry.ofJson? multiples⟩
  | _ => none

/-- The description as JSON text. -/
def text (configuration : Configuration Float) : String := configuration.toJson.pretty

/-- The description that a JSON text denotes. -/
def ofText (text : String) : Except UnitError (Configuration Float) :=
  match (Value.ofText text).bind ofJson? with
  | some configuration => .ok configuration
  | none => .error .configuration

end Configuration

end UnitCheck
