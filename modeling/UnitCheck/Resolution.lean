import UnitCheck.Context
import UnitCheck.Expr.Walk
import UnitCheck.Parser.Expression

/-!
  The unit of every node of an expression.

  A literal has its own unit, a field and a call have that of the context. Casts, signs and
  `Not` keep the unit of their operand. Sums and logical operators want equal units, products
  and quotients combine them, a remainder has the unit of its left operand, and comparisons
  have none. One walk over the tree gives each node its unit after the nodes below it, and stops
  at the first node that has none or whose id was seen before.
-/

namespace UnitCheck

/-- The units of nodes, by their ids. -/
abbrev UnitMap := Std.HashMap Nat Factor

namespace Context

/-- The unit of an operator's node from the units of its operands. -/
def binaryUnit (node : Nat) (op : BinaryOp) (left right : Factor) : Except FilterError Factor :=
  match op with
  | .or | .and | .xor | .add | .subtract =>
    if left = right then .ok left else .error (.unitMismatch node op left right)
  | .multiply => (left.mul right).mapError .units
  | .divide => (left.div right).mapError .units
  | .remainder => .ok left
  | .equals | .notEquals | .lessThan | .greaterThan | .lessOrEqual | .greaterOrEqual => .ok .one

/-- The unit of a node, given those of the nodes right below it. -/
def nodeUnit (context : Context) (unitOf : Expr → Factor) : Expr → Except FilterError Factor
  | .literal _ _ (some symbol) => .ok (.ofSymbol symbol)
  | .literal _ _ none => .ok .one
  | .field _ name =>
    match context.fieldUnit name with
    | some unit => .ok unit
    | none => .error (.unresolvedField name)
  | .cast _ _ operand | .unary _ _ operand => .ok (unitOf operand)
  | .call _ name arguments =>
    match context.methodRule name with
    | some rule => rule (arguments.map unitOf)
    | none => .error (.unknownMethod name)
  | .binary id op left right => binaryUnit id op (unitOf left) (unitOf right)

/-- Notes the unit of a node whose children are noted. -/
def visit (context : Context) (node : Expr) : StateT UnitMap (Except FilterError) Unit := do
  let units ← get
  -- A node that has no unit is told before an id that was seen.
  let unit ← context.nodeUnit (fun child => units.getD child.id .one) node
  if units.contains node.id then throw (.duplicateId node.id)
  set (units.insert node.id unit)

/-- The units of all nodes of a tree. -/
def resolve (context : Context) (root : Expr) : Except FilterError UnitMap := do
  let ((), units) ← (root.walkPostOrder context.visit).run ∅
  return units

/-- The unit of a tree. -/
def resolveRoot (context : Context) (root : Expr) : Except FilterError Factor := do
  let units ← context.resolve root
  return units.getD root.id .one

/-- The unit of the expression that a text denotes. -/
def resolveText (context : Context) (text : String) : Except FilterError Factor := do
  let root ← Expr.ofText text
  context.resolveRoot root

end Context

end UnitCheck
