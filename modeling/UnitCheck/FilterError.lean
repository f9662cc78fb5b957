import UnitCheck.Expr.Basic
import UnitCheck.Token.Basic
import UnitCheck.UnitError

/-!
  What can go wrong with a filter expression, from its text to its unit, and the
  sentence that tells it.
-/

namespace UnitCheck

/-- What the text of an expression should go on with. -/
inductive Expected where
  /-- A token of this kind. -/
  | kind (k : Token.Kind)
  /-- A literal, a name or a parenthesis. -/
  | operand
  | endOfInput
  deriving DecidableEq

/-- The expectation in words. -/
def Expected.text : Expected → String
  | kind k => k.name
  | operand => "literal, identifier or '('"
  | endOfInput => "end of input"

/-- The number of nested parts a text may have. -/
def maxDepth : Nat := 200

/-- Why a text is no expression. -/
inductive SyntaxError where
  /-- The token is not what the text should go on with. -/
  | unexpected (expected : Expected) (token : Token)
  | tooDeep
  /-- The digits of an integer are too many for its type. -/
  | integerRange (text : String)
  /-- The letters after an integer are no suffix. -/
  | integerSuffix (text : String)
  /-- The text of a real number denotes none. -/
  | realNumber (text : String)
  | emptyCharacter
  /-- A cast names a type that does not exist. -/
  | unknownType (name : String)
  deriving DecidableEq

/-- The reason in words. An invalid token tells what is wrong with it. -/
def SyntaxError.message : SyntaxError → String
  | unexpected expected token =>
    if token.kind = .invalid then token.value ++ " at " ++ token.place.text
    else
      "Expected " ++ expected.text ++ ", got " ++ token.kind.name ++ " '" ++ token.value ++
        "' at " ++ token.place.text
  | tooDeep => "Expression too deeply nested (max depth: " ++ toString maxDepth ++ ")"
  | integerRange text => "Invalid integer '" ++ text ++ "': number too large to fit in target type"
  | integerSuffix text => "Invalid integer suffix in '" ++ text ++ "'"
  | realNumber text => "Invalid real number '" ++ text ++ "'"
  | emptyCharacter => "Empty character literal"
  | unknownType name => "Unknown type '" ++ name ++ "'"

/-- A failure of a filter expression. -/
inductive FilterError where
  | parse (cause : SyntaxError)
  /-- A literal has a unit that is not allowed. -/
  | invalidUnit (unit : String) (place : Place)
  | unresolvedField (name : String)
  | unknownMethod (name : String)
  /-- The operands of an operator have different units. -/
  | unitMismatch (node : Nat) (op : BinaryOp) (left right : Factor)
  /-- Two nodes have the same id. -/
  | duplicateId (node : Nat)
  /-- The rule of a method refuses its arguments. -/
  | methodRule (method message : String)
  /-- The arithmetic of units failed. -/
  | units (error : UnitError)
  deriving DecidableEq

/-- The failure as a sentence. -/
def FilterError.message : FilterError → String
  | parse cause => "Parse error: " ++ cause.message
  | invalidUnit unit place => "Invalid measurement unit '" ++ unit ++ "' at " ++ place.text
  | unresolvedField name => "Field not found in execution context: " ++ name
  | unknownMethod name => "Method not found in execution context: " ++ name
  | unitMismatch node op left right =>
    "Measurement unit mismatch at node #" ++ toString node ++ ": '" ++ left.text ++ "' " ++
      op.text ++ " '" ++ right.text ++ "'"
  | duplicateId node =>
    "Node id #" ++ toString node ++ " appears more than once in the expression tree"
  | methodRule method message => "Method " ++ method ++ ": " ++ message
  | units error => error.message

end UnitCheck
