import UnitCheck.Expr.Literal

/-!
  Filter expressions as trees. Every node has a number, its id; a tree is sound for
  resolution when its ids are distinct, which the type does not ask for.
-/

namespace UnitCheck

/-! ## Operators -/

/-- Operators with two operands. -/
inductive BinaryOp where
  | or | and | xor
  | add | subtract | multiply | divide | remainder
  | equals | notEquals | lessThan | greaterThan | lessOrEqual | greaterOrEqual
  deriving DecidableEq

namespace BinaryOp

/-- All operators with two operands. -/
def all : List BinaryOp :=
  [or, and, xor, add, subtract, multiply, divide, remainder,
    equals, notEquals, lessThan, greaterThan, lessOrEqual, greaterOrEqual]

/-- The operator as it is written. -/
def text : BinaryOp → String
  | or => "Or"
  | and => "And"
  | xor => "Xor"
  | add => "+"
  | subtract => "-"
  | multiply => "*"
  | divide => "/"
  | remainder => "%"
  | equals => "="
  | notEquals => "<>"
  | lessThan => "<"
  | greaterThan => ">"
  | lessOrEqual => "<="
  | greaterOrEqual => ">="

/-- Whether the operator compares its operands. -/
def isComparison : BinaryOp → Bool
  | equals | notEquals | lessThan | greaterThan | lessOrEqual | greaterOrEqual => true
  | _ => false

end BinaryOp

/-- Operators with one operand. -/
inductive UnaryOp where
  | negate
  | not
  deriving DecidableEq

namespace UnaryOp

/-- The operator alone. -/
def text : UnaryOp → String
  | negate => "-"
  | not => "Not"

/-- The operator in front of its operand. -/
def leading : UnaryOp → String
  | negate => "-"
  | not => "Not "

end UnaryOp

/-! ## Trees -/

/-- A filter expression. -/
inductive Expr where
  /-- A field, by its qualified name. -/
  | field (id : Nat) (name : String)
  /-- A literal, maybe with a unit. -/
  | literal (id : Nat) (value : Literal) (unit : Option String)
  | cast (id : Nat) (target : CastType) (operand : Expr)
  | call (id : Nat) (name : String) (arguments : List Expr)
  | binary (id : Nat) (op : BinaryOp) (left right : Expr)
  | unary (id : Nat) (op : UnaryOp) (operand : Expr)

namespace Expr

/-- The number of the node. -/
def id : Expr → Nat
  | field id _ | literal id _ _ | cast id _ _ | call id _ _ | binary id _ _ _ | unary id _ _ => id

/-- The nodes right below a node, from left to right. -/
def children : Expr → List Expr
  | field _ _ | literal _ _ _ => []
  | cast _ _ operand | unary _ _ operand => [operand]
  | call _ _ arguments => arguments
  | binary _ _ left right => [left, right]

/-- A node without what is below it. -/
def label : Expr → String
  | field _ name => name
  | literal _ value (some unit) => value.text ++ " " ++ unit
  | literal _ value none => value.text
  | cast _ target _ => "(" ++ target.text ++ ")"
  | call _ name _ => name ++ "()"
  | binary _ op _ _ => op.text
  | unary _ op _ => op.text

/-! ## Measures -/

mutual
/-- The number of nodes of a tree. -/
def size : Expr → Nat
  | field _ _ | literal _ _ _ => 1
  | cast _ _ operand | unary _ _ operand => 1 + operand.size
  | call _ _ arguments => 1 + sizes arguments
  | binary _ _ left right => 1 + (left.size + right.size)

/-- The number of nodes of some trees. -/
def sizes : List Expr → Nat
  | [] => 0
  | e :: es => e.size + sizes es
end

/-- A tree is its root and what is below. -/
theorem size_eq (e : Expr) : e.size = 1 + sizes e.children := by
  cases e <;> simp [size, children, sizes]

mutual
/-- The nodes of a tree, each after the nodes below it, from left to right. -/
def postOrder : Expr → List Expr
  | field id name => [field id name]
  | literal id value unit => [literal id value unit]
  | cast id target operand => operand.postOrder ++ [cast id target operand]
  | call id name arguments => postOrders arguments ++ [call id name arguments]
  | binary id op left right => left.postOrder ++ right.postOrder ++ [binary id op left right]
  | unary id op operand => operand.postOrder ++ [unary id op operand]

/-- The nodes of some trees, one tree after the other. -/
def postOrders : List Expr → List Expr
  | [] => []
  | e :: es => e.postOrder ++ postOrders es
end

theorem postOrders_eq_flatMap (es : List Expr) : postOrders es = es.flatMap postOrder := by
  induction es with
  | nil => rfl
  | cons e es ih => simp [postOrders, ih]

/-- The nodes below a node come before it. -/
theorem postOrder_eq (e : Expr) : e.postOrder = e.children.flatMap postOrder ++ [e] := by
  cases e <;> simp [postOrder, children, postOrders_eq_flatMap]

/-! ## Text -/

mutual
/-- The tree as it is written. Nodes with operators have parentheses. -/
def chars : Expr → List Char
  | field _ name => name.toList
  | literal _ value none => value.chars
  | literal _ value (some unit) => value.chars ++ ' ' :: unit.toList
  | cast _ target operand => '(' :: (target.text.toList ++ ')' :: operand.chars)
  | call _ name arguments => name.toList ++ '(' :: (argumentChars arguments ++ [')'])
  | binary _ op left right =>
    '(' :: (left.chars ++ ' ' :: (op.text.toList ++ ' ' :: (right.chars ++ [')'])))
  | unary _ op operand => '(' :: (op.leading.toList ++ (operand.chars ++ [')']))

/-- Arguments, separated by commas. -/
def argumentChars : List Expr → List Char
  | [] => []
  | [e] => e.chars
  | e :: es => e.chars ++ ',' :: ' ' :: argumentChars es
end

/-- The tree as it is written. -/
def text (e : Expr) : String := String.ofList e.chars

/-! ## Equality -/

mutual
/-- Equality of trees, ids included. Literals are equal when their values are. -/
def same : Expr → Expr → Bool
  | field i a, field j b => i = j && a = b
  | literal i a u, literal j b v => i = j && a.same b && u = v
  | cast i s a, cast j t b => i = j && s = t && a.same b
  | call i m as, call j n bs => i = j && m = n && sameAll as bs
  | binary i o a b, binary j p c d => i = j && o = p && a.same c && b.same d
  | unary i o a, unary j p b => i = j && o = p && a.same b
  | _, _ => false

/-- Equality of lists of trees. -/
def sameAll : List Expr → List Expr → Bool
  | [], [] => true
  | a :: as, b :: bs => a.same b && sameAll as bs
  | _, _ => false
end

end Expr

/-! ## Building -/

/-- Makes nodes with consecutive ids; `count` is the number of nodes made so far. -/
structure ExprBuilder where
  count : Nat
  deriving DecidableEq

namespace ExprBuilder

/-- A builder that has made no node. -/
def new : ExprBuilder := ⟨0⟩

/-- A node with the next id. -/
def node (builder : ExprBuilder) (make : Nat → Expr) : Expr × ExprBuilder :=
  (make builder.count, ⟨builder.count + 1⟩)

end ExprBuilder

end UnitCheck
