import UnitCheck.Parser.Action
import UnitCheck.Parser.Literal

/-!
  Reading an expression.

  From the loosest to the tightest, the operators are `Or`; `And` and `Xor`; sums; products;
  equality; order. Each level groups to the left. Signs and `Not` stand directly before an
  operand, which is a literal, a name, a call, a cast or an expression in parentheses. Since
  comparisons bind tighter than arithmetic, `a * b = c` is `a * (b = c)`.

  Every expression, every operand and every operator of a chain is a part in the sense of
  `Action.inPart`: an expression and an operand until they end, an operator until its chain
  ends. The first argument of each action below is the number of parts that may still be
  opened, and recursion ends because each part leaves room for one less.
-/

namespace UnitCheck

namespace Parser

/-! ## Levels -/

/-- The operators of a level, by their tokens. -/
abbrev Level := List (Token.Kind × BinaryOp)

/-- The levels, the loosest first. -/
def levels : List Level :=
  [[(.keyword .or, .or)],
    [(.keyword .and, .and), (.keyword .xor, .xor)],
    [(.symbol .plus, .add), (.symbol .minus, .subtract)],
    [(.symbol .multiply, .multiply), (.symbol .divide, .divide), (.symbol .percent, .remainder)],
    [(.symbol .equal, .equals), (.symbol .notEqual, .notEquals)],
    [(.symbol .lessThan, .lessThan), (.symbol .greaterThan, .greaterThan),
      (.symbol .lessThanOrEqual, .lessOrEqual), (.symbol .greaterThanOrEqual, .greaterOrEqual)]]

/-- The operator of a level that the token to be read next is, if it is one. -/
def operatorOf (level : Level) : Action (Option BinaryOp) := do
  let token ← Action.current
  return level.lookup token.kind

/-- The operator that stands before an operand, if the token to be read next is one. -/
def leadingOperator : Action (Option UnaryOp) := do
  let token ← Action.current
  match token.kind with
  | .symbol .minus => return some .negate
  | .keyword .not => return some .not
  | _ => return none

/-! ## Operands without expressions inside -/

/-- The unit after a number. -/
def unitSymbol (allowed : String → Bool) : Action String := do
  let token ← Action.expect .identifier
  if allowed token.value then return token.value
  else Action.fail (.invalidUnit token.value token.place)

/-- A literal that has been read, with the unit that may follow a number. -/
def literal (allowed : String → Bool) (value : Except SyntaxError Literal) : Action Expr :=
  match value with
  | .error cause => Action.fail (.parse cause)
  | .ok value => do
    let named ← Action.isNext .identifier
    if value.isNumeric && named then
      let unit ← unitSymbol allowed
      Action.node (.literal · value (some unit))
    else Action.node (.literal · value none)

/-- The names of a qualified name, joined by points. -/
def qualifiedName : Action String := do
  let parts ← Action.separated (Action.expect .identifier) (.symbol .dot)
  return ".".intercalate (parts.map Token.value)

/-- The target of a cast with the parenthesis that closes it. -/
def castTarget : Action CastType := do
  let token ← Action.expect .typeName
  match ValueType.ofName? token.value with
  | none => Action.fail (.parse (.unknownType token.value))
  | some type =>
    let mark ← Action.isNext (.symbol .question)
    let nullable := type.isNullable && mark
    if nullable then Action.advance
    let _ ← Action.expect (.symbol .closeParen)
    return ⟨type, nullable⟩

/-! ## Expressions -/

mutual
/-- An expression. -/
def expression (allowed : String → Bool) : Nat → Action Expr
  | 0 => Action.refusePart
  | room + 1 => Action.inPart (chain allowed room levels)
termination_by room => (room, 0)

/-- Operands joined by the operators of the first level, each operand being an expression of
    the levels after it. -/
def chain (allowed : String → Bool) (room : Nat) : List Level → Action Expr
  | [] => signed allowed room
  | level :: tighter => do
    let left ← chain allowed room tighter
    links allowed level tighter left room
termination_by levels => (room, levels.length + 2)

/-- What follows the left operand in a chain. -/
def links (allowed : String → Bool) (level : Level) (tighter : List Level) (left : Expr)
    (room : Nat) : Action Expr := do
  match ← operatorOf level with
  | none => return left
  | some op =>
    Action.advance
    match room with
    | 0 => Action.refusePart
    | room + 1 =>
      -- The rest of the chain is inside this part, which closes where the chain ends.
      Action.inPart do
        let right ← chain allowed room tighter
        let node ← Action.node (.binary · op left right)
        links allowed level tighter node room
termination_by (room, 0)

/-- An operand, maybe with an operator before it. -/
def signed (allowed : String → Bool) (room : Nat) : Action Expr := do
  match ← leadingOperator with
  | none => operand allowed room
  | some op =>
    Action.advance
    let inner ← operand allowed room
    Action.node (.unary · op inner)
termination_by (room, 1)

/-- An operand: a literal, a name, a call, a cast or an expression in parentheses. -/
def operand (allowed : String → Bool) : Nat → Action Expr
  | 0 => Action.refusePart
  | room + 1 =>
    Action.inPart do
      let token ← Action.current
      match literalValue? token with
      | some value =>
        Action.advance
        literal allowed value
      | none =>
        match token.kind with
        | .identifier =>
          let name ← qualifiedName
          if ← Action.isNext (.symbol .openParen) then
            Action.advance
            if ← Action.isNext (.symbol .closeParen) then
              Action.advance
              Action.node (.call · name [])
            else
              let arguments ← Action.separated (expression allowed room) (.symbol .comma)
              let _ ← Action.expect (.symbol .closeParen)
              Action.node (.call · name arguments)
          else Action.node (.field · name)
        | .symbol .openParen =>
          Action.advance
          -- Names of types are no identifiers, so a cast is known by its first token.
          if ← Action.isNext .typeName then
            let target ← castTarget
            let inner ← operand allowed room
            Action.node (.cast · target inner)
          else
            let inner ← expression allowed room
            let _ ← Action.expect (.symbol .closeParen)
            return inner
        | _ => Action.unexpected .operand
termination_by room => (room, 0)
end

/-! ## Whole texts -/

/-- An expression that is followed by the end of the text. -/
def whole (allowed : String → Bool) (room : Nat) : Action Expr := do
  let expr ← expression allowed room
  if ← Action.isNext .eof then return expr else Action.unexpected .endOfInput

/-- Reads an expression that ends with the text, with units that are allowed only. The parser
    goes on where it was, and where a failure left it. -/
def parse (parser : Parser) (allowed : String → Bool) : Outcome Expr :=
  (whole allowed parser.room).run parser

end Parser

/-- The expression that a text denotes, if its literals have units that are allowed only. -/
def Expr.ofTextWith (allowed : String → Bool) (text : String) : Except FilterError Expr :=
  ((Parser.ofText text).parse allowed).1

/-- The expression that a text denotes. -/
def Expr.ofText (text : String) : Except FilterError Expr := Expr.ofTextWith (fun _ => true) text

end UnitCheck
