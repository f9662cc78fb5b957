import UnitCheck.Expr.Walk

/-!
  The walk over a tree is the recursion over it.

  `walk` keeps the steps to come in a list. `traverse` is the plain recursion: visit the node,
  traverse its children from left to right, leave the node. A list of steps stands for the
  traversals of the nodes to be entered and the visits of the nodes to be left, one after the
  other (`walkSteps_eq_forM`), whatever the tree and the visitors are. A walk with one visitor is
  therefore a loop over the nodes in post-order (`walkPostOrder_eq_forM`).
-/

namespace UnitCheck.Expr

/-! ## Induction on trees -/

theorem size_le_sizes {e : Expr} {es : List Expr} (h : e ∈ es) : e.size ≤ sizes es := by
  induction es with
  | nil => simp at h
  | cons a es ih =>
    rw [sizes]
    rcases List.mem_cons.1 h with rfl | h
    · omega
    · have := ih h
      omega

theorem size_lt_of_mem_children {child node : Expr} (h : child ∈ node.children) :
    child.size < node.size := by
  have := size_le_sizes h
  rw [size_eq node]
  omega

/-- Induction on a tree through the nodes right below each node. -/
theorem induct {motive : Expr → Prop}
    (step : ∀ node : Expr, (∀ child ∈ node.children, motive child) → motive node) (e : Expr) :
    motive e := by
  induction hn : e.size using Nat.strongRecOn generalizing e with
  | ind n ih =>
    subst hn
    exact step e fun child h => ih child.size (size_lt_of_mem_children h) child rfl

/-- What holds of all nodes, holds of the root and of all nodes of the trees below it. -/
theorem forall_postOrder_iff {P : Expr → Prop} {e : Expr} :
    (∀ node ∈ e.postOrder, P node) ↔
      P e ∧ ∀ child ∈ e.children, ∀ node ∈ child.postOrder, P node := by
  rw [postOrder_eq]
  simp only [List.mem_append, List.mem_flatMap, List.mem_singleton]
  constructor
  · intro h
    exact ⟨h e (.inr rfl), fun child hchild node hnode => h node (.inl ⟨child, hchild, hnode⟩)⟩
  · rintro ⟨hroot, hbelow⟩ node (⟨child, hchild, hnode⟩ | rfl)
    · exact hbelow child hchild node hnode
    · exact hroot

/-! ## The recursive traversal -/

variable {m : Type → Type} [Monad m]

mutual
/-- The recursive traversal: a node, the nodes below it from left to right, and the node
    again. -/
def traverse (enter leave : Expr → m Unit) : Expr → m Unit
  | field id name => do
    enter (field id name)
    leave (field id name)
  | literal id value unit => do
    enter (literal id value unit)
    leave (literal id value unit)
  | cast id target operand => do
    enter (cast id target operand)
    traverse enter leave operand
    leave (cast id target operand)
  | call id name arguments => do
    enter (call id name arguments)
    traverseAll enter leave arguments
    leave (call id name arguments)
  | binary id op left right => do
    enter (binary id op left right)
    traverse enter leave left
    traverse enter leave right
    leave (binary id op left right)
  | unary id op operand => do
    enter (unary id op operand)
    traverse enter leave operand
    leave (unary id op operand)

/-- The recursive traversal of some trees, from left to right. -/
def traverseAll (enter leave : Expr → m Unit) : List Expr → m Unit
  | [] => pure ()
  | e :: es => do
    traverse enter leave e
    traverseAll enter leave es
end

theorem traverseAll_eq_forM (enter leave : Expr → m Unit) (es : List Expr) :
    traverseAll enter leave es = forM es (traverse enter leave) := by
  induction es with
  | nil => rfl
  | cons e es ih => rw [traverseAll, ih, List.forM_cons]

variable [LawfulMonad m]

/-- The traversal of a node, by the nodes right below it. -/
theorem traverse_eq (enter leave : Expr → m Unit) (node : Expr) :
    node.traverse enter leave =
      (do enter node; forM node.children (traverse enter leave); leave node) := by
  cases node <;> simp [traverse, children, traverseAll_eq_forM]

/-! ## The walk -/

/-- What a step of a walk stands for. -/
def Step.run (enter leave : Expr → m Unit) : Step → m Unit
  | .enter node => node.traverse enter leave
  | .leave node => leave node

/-- The steps of a node after it is entered are the rest of its traversal. -/
theorem forM_below (enter leave : Expr → m Unit) (node : Expr) :
    forM (Step.below node) (Step.run enter leave) =
      (do forM node.children (traverse enter leave); leave node) := by
  simp [Step.below, Step.run]

/-- The walk does what its steps stand for, one after the other. -/
theorem walkSteps_eq_forM (enter leave : Expr → m Unit) (steps : List Step) :
    walkSteps enter leave steps = forM steps (Step.run enter leave) := by
  fun_induction walkSteps enter leave steps with
  | case1 => rfl
  -- A node is entered: its children and its leaving are put in front.
  | case2 node steps ih =>
    simp only [ih, List.forM_append, forM_below, List.forM_cons, Step.run, bind_assoc,
      traverse_eq enter leave node]
  | case3 node steps ih => simp only [ih, List.forM_cons, Step.run]

/-- The walk over a tree is its traversal. -/
theorem walk_eq_traverse (root : Expr) (enter leave : Expr → m Unit) :
    root.walk enter leave = root.traverse enter leave := by
  rw [walk, walkSteps_eq_forM]
  simp [Step.run]

theorem forM_traverse_eq_flatMap {visit : Expr → m Unit} {es : List Expr}
    (h : ∀ e ∈ es, e.traverse (fun _ => pure ()) visit = forM e.postOrder visit) :
    forM es (traverse (fun _ => pure ()) visit) = forM (es.flatMap postOrder) visit := by
  induction es with
  | nil => rfl
  | cons e es ih =>
    rw [List.forM_cons, List.flatMap_cons, List.forM_append, h e List.mem_cons_self,
      ih fun a ha => h a (List.mem_cons_of_mem _ ha)]

/-- A traversal that only leaves nodes is a loop over the nodes in post-order. -/
theorem traverse_eq_forM_postOrder (visit : Expr → m Unit) (root : Expr) :
    root.traverse (fun _ => pure ()) visit = forM root.postOrder visit := by
  induction root using induct with
  | step node ih =>
    rw [traverse_eq, postOrder_eq, forM_traverse_eq_flatMap ih]
    simp

/-- A walk with one visitor is a loop over the nodes in post-order. -/
theorem walkPostOrder_eq_forM (root : Expr) (visit : Expr → m Unit) :
    root.walkPostOrder visit = forM root.postOrder visit := by
  rw [walkPostOrder, walk_eq_traverse, traverse_eq_forM_postOrder]

end UnitCheck.Expr
