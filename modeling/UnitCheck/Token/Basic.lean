/-
  Tokens of a filter expression.

  A token carries its kind, its value and the place where it starts. The value is the text of
  the token itself, except for quoted literals, whose value is what the quotes hold, and for
  invalid tokens, whose value tells what is wrong.
-/

namespace UnitCheck

/-- Words with a meaning of their own. Case matters. -/
inductive Keyword where
  | or | and | xor | not | true | false | null
  deriving DecidableEq

namespace Keyword

/-- All keywords. -/
def all : List Keyword := [or, and, xor, not, true, false, null]

/-- The word. -/
def text : Keyword → String
  | or => "Or"
  | and => "And"
  | xor => "Xor"
  | not => "Not"
  | true => "true"
  | false => "false"
  | null => "null"

/-- The keyword that a word is. -/
def ofText? (word : String) : Option Keyword := all.find? fun keyword => keyword.text = word

theorem ofText?_text (keyword : Keyword) : ofText? keyword.text = some keyword := by
  cases keyword <;> decide

end Keyword

/-- Operators and delimiters. -/
inductive Symbol where
  | plus | minus | multiply | divide | percent
  | equal | notEqual | lessThan | greaterThan | lessThanOrEqual | greaterThanOrEqual
  | openParen | closeParen | comma | dot | question
  deriving DecidableEq

namespace Symbol

/-- The characters of the symbol. -/
def chars : Symbol → List Char
  | plus => ['+']
  | minus => ['-']
  | multiply => ['*']
  | divide => ['/']
  | percent => ['%']
  | equal => ['=']
  | notEqual => ['<', '>']
  | lessThan => ['<']
  | greaterThan => ['>']
  | lessThanOrEqual => ['<', '=']
  | greaterThanOrEqual => ['>', '=']
  | openParen => ['(']
  | closeParen => [')']
  | comma => [',']
  | dot => ['.']
  | question => ['?']

/-- The longest symbol at the start of a text. -/
def atStart? : List Char → Option Symbol
  | '<' :: '=' :: _ => some lessThanOrEqual
  | '<' :: '>' :: _ => some notEqual
  | '>' :: '=' :: _ => some greaterThanOrEqual
  | c :: _ =>
    match c with
    | '+' => some plus
    | '-' => some minus
    | '*' => some multiply
    | '/' => some divide
    | '%' => some percent
    | '=' => some equal
    | '<' => some lessThan
    | '>' => some greaterThan
    | '(' => some openParen
    | ')' => some closeParen
    | ',' => some comma
    | '.' => some dot
    | '?' => some question
    | _ => none
  | [] => none

/-- The symbol that is found stands at the start. -/
theorem isPrefix_of_atStart? {cs : List Char} {symbol : Symbol} (h : atStart? cs = some symbol) :
    symbol.chars <+: cs := by
  unfold atStart? at h
  split at h
  · injection h with h; subst h; simp [chars]
  · injection h with h; subst h; simp [chars]
  · injection h with h; subst h; simp [chars]
  · split at h <;> first | (injection h with h; subst h; simp [chars]) | simp at h
  · simp at h

theorem chars_length_pos (symbol : Symbol) : 0 < symbol.chars.length := by
  cases symbol <;> decide

end Symbol

/-- What a token is. -/
inductive Token.Kind where
  | intLiteral
  | realLiteral
  | charLiteral
  | stringLiteral
  | identifier
  | keyword (word : Keyword)
  /-- The name of a type that a cast may have. -/
  | typeName
  | symbol (symbol : Symbol)
  /-- The end of the text. -/
  | eof
  /-- Text that is no token. -/
  | invalid
  deriving DecidableEq

namespace Token.Kind

/-- The name of a kind in messages. -/
def name : Token.Kind → String
  | intLiteral => "IntLiteral"
  | realLiteral => "RealLiteral"
  | charLiteral => "CharLiteral"
  | stringLiteral => "StringLiteral"
  | identifier => "Identifier"
  | keyword .or => "Or"
  | keyword .and => "And"
  | keyword .xor => "Xor"
  | keyword .not => "Not"
  | keyword .true => "True"
  | keyword .false => "False"
  | keyword .null => "Null"
  | typeName => "TypeName"
  | symbol .plus => "Plus"
  | symbol .minus => "Minus"
  | symbol .multiply => "Multiply"
  | symbol .divide => "Divide"
  | symbol .percent => "Percent"
  | symbol .equal => "Equal"
  | symbol .notEqual => "NotEqual"
  | symbol .lessThan => "LessThan"
  | symbol .greaterThan => "GreaterThan"
  | symbol .lessThanOrEqual => "LessThanOrEqual"
  | symbol .greaterThanOrEqual => "GreaterThanOrEqual"
  | symbol .openParen => "OpenParen"
  | symbol .closeParen => "CloseParen"
  | symbol .comma => "Comma"
  | symbol .dot => "Dot"
  | symbol .question => "Question"
  | eof => "Eof"
  | invalid => "Error"

end Token.Kind

/-- A place in a text. -/
structure Place where
  /-- The number of characters before the place. -/
  position : Nat
  /-- The line, counted from one. -/
  line : Nat
  /-- The column, counted from one. -/
  column : Nat
  deriving DecidableEq

namespace Place

/-- The start of a text. -/
def start : Place := ⟨0, 1, 1⟩

/-- The place after a character. -/
def after (place : Place) (c : Char) : Place :=
  if c = '\n' then ⟨place.position + 1, place.line + 1, 1⟩
  else ⟨place.position + 1, place.line, place.column + 1⟩

/-- The place in words. -/
def text (place : Place) : String :=
  "line " ++ toString place.line ++ ", column " ++ toString place.column

end Place

/-- A token and where it starts. -/
structure Token where
  kind : Token.Kind
  value : String
  place : Place
  deriving DecidableEq

/-- The token at the end of a text. -/
def Token.endOfText (place : Place) : Token := ⟨.eof, "", place⟩

end UnitCheck
