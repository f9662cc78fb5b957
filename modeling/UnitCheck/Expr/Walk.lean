import UnitCheck.Expr.Basic

/-!
  Walking a tree with two visitors, one for the time before a node's children and one for
  the time after them, and counting its nodes.

  The walk keeps the steps to come in a list of its own, and the count the nodes to come, so
  the depth of a tree is no depth of calls. The visitors may fail, or keep a state, in any
  monad.
-/

namespace UnitCheck.Expr

/-- A step of a walk. -/
inductive Step where
  /-- Visit a node, then its children, and leave it. -/
  | enter (node : Expr)
  /-- Leave a node. -/
  | leave (node : Expr)

/-- How many visits a step stands for. -/
def Step.visits : Step → Nat
  | enter node => 2 * node.size
  | leave _ => 1

/-- How many visits some steps stand for. -/
def Step.totalVisits : List Step → Nat
  | [] => 0
  | step :: steps => step.visits + totalVisits steps

/-- The steps of a node after it is entered. -/
def Step.below (node : Expr) : List Step := node.children.map .enter ++ [.leave node]

theorem totalVisits_append (steps more : List Step) :
    Step.totalVisits (steps ++ more) = Step.totalVisits steps + Step.totalVisits more := by
  induction steps with
  | nil => simp [Step.totalVisits]
  | cons step steps ih =>
    simp only [List.cons_append, Step.totalVisits, ih]
    omega

theorem totalVisits_enter (nodes : List Expr) :
    Step.totalVisits (nodes.map .enter) = 2 * sizes nodes := by
  induction nodes with
  | nil => rfl
  | cons node nodes ih =>
    simp only [List.map_cons, Step.totalVisits, Step.visits, sizes, ih]
    omega

/-- Entering a node takes one of its visits. -/
theorem totalVisits_below (node : Expr) :
    Step.totalVisits (Step.below node) + 1 = (Step.enter node).visits := by
  have := node.size_eq
  simp only [Step.below, totalVisits_append, totalVisits_enter, Step.totalVisits, Step.visits]
  omega

variable {m : Type → Type} [Monad m]

/-- Takes the steps in order; entering a node puts the steps below it in front. -/
def walkSteps (enter leave : Expr → m Unit) : List Step → m Unit
  | [] => pure ()
  | .enter node :: steps => do
    enter node
    walkSteps enter leave (Step.below node ++ steps)
  | .leave node :: steps => do
    leave node
    walkSteps enter leave steps
termination_by steps => Step.totalVisits steps
decreasing_by
  · have := totalVisits_below node
    simp only [totalVisits_append, Step.totalVisits]
    omega
  · simp only [Step.totalVisits, Step.visits]
    omega

/-- Walks a tree. -/
def walk (root : Expr) (enter leave : Expr → m Unit) : m Unit :=
  walkSteps enter leave [.enter root]

/-- Walks a tree with one visitor, which sees a node after the nodes below it. -/
def walkPostOrder (root : Expr) (visit : Expr → m Unit) : m Unit :=
  root.walk (fun _ => pure ()) visit

/-! ## Counting -/

theorem sizes_append (nodes more : List Expr) :
    sizes (nodes ++ more) = sizes nodes + sizes more := by
  induction nodes with
  | nil => simp [sizes]
  | cons node nodes ih =>
    simp only [List.cons_append, sizes, ih]
    omega

theorem sizes_reverse (nodes : List Expr) : sizes nodes.reverse = sizes nodes := by
  induction nodes with
  | nil => rfl
  | cons node nodes ih =>
    simp only [List.reverse_cons, sizes_append, sizes, ih]
    omega

/-- Goes on counting with the nodes to come. The node that is counted makes way for those right
    below it, the last of which comes next. -/
def countPending (count : Nat) : List Expr → Nat
  | [] => count
  | node :: pending => countPending (count + 1) (node.children.reverse ++ pending)
termination_by pending => sizes pending
decreasing_by
  have := node.size_eq
  simp only [sizes_append, sizes_reverse, sizes]
  omega

/-- Counts the nodes of a tree. -/
def nodeCount (root : Expr) : Nat := countPending 0 [root]

end UnitCheck.Expr
