/-
  The types of literals and of casts.
-/

namespace UnitCheck

/-- The type of a value. -/
inductive ValueType where
  | bool | byte | char | decimal | double | float | int | long | sbyte | short
  | uint | ulong | ushort | dateTime | dateTimeOffset | timeSpan | string | object
  deriving DecidableEq

namespace ValueType

/-- All types. -/
def all : List ValueType :=
  [bool, byte, char, decimal, double, float, int, long, sbyte, short,
    uint, ulong, ushort, dateTime, dateTimeOffset, timeSpan, string, object]

/-- The word that names a type in a cast. -/
def name : ValueType → String
  | bool => "bool"
  | byte => "byte"
  | char => "char"
  | decimal => "decimal"
  | double => "double"
  | float => "float"
  | int => "int"
  | long => "long"
  | sbyte => "sbyte"
  | short => "short"
  | uint => "uint"
  | ulong => "ulong"
  | ushort => "ushort"
  | dateTime => "DateTime"
  | dateTimeOffset => "DateTimeOffset"
  | timeSpan => "TimeSpan"
  | string => "string"
  | object => "object"

/-- The type that a word names. -/
def ofName? (word : String) : Option ValueType := all.find? fun type => type.name = word

/-- Whether the type has a nullable form. The types that hold references have none. -/
def isNullable : ValueType → Bool
  | string | object => false
  | _ => true

theorem mem_all (type : ValueType) : type ∈ all := by cases type <;> decide

theorem ofName?_name (type : ValueType) : ofName? type.name = some type := by
  cases type <;> decide

theorem name_of_ofName? {word : String} {type : ValueType} (h : ofName? word = some type) :
    type.name = word := by simpa using List.find?_some h

end ValueType

/-- The target of a cast. -/
structure CastType where
  type : ValueType
  nullable : Bool
  deriving DecidableEq

/-- The target as it is written between the parentheses of a cast. -/
def CastType.text (target : CastType) : String :=
  if target.nullable then target.type.name ++ "?" else target.type.name

end UnitCheck
