import Mathlib.Data.List.Nodup
import Mathlib.Logic.Function.Iterate
import UnitCheck.Proofs.Walk

/-!
  What a walk visits, and where it stops.

  The visits of a tree are a list that depends on the tree alone (`visits`): a node is entered,
  its children are visited, and it is left. The steps that a walk has before it stand for the visits
  that are left (`pending_iterate_next`), so the walk makes the visits in turn and ends after twice
  as many as there are nodes. Visitors that keep a state and may fail are called for a visit after
  the other, up to the first failure (`Makes`). To tell that each node is entered and left once,
  also where nodes are equal, a visit comes with the place of its node (`tour`).
-/

namespace UnitCheck.Expr

/-! ## Places -/

/-- The node at a place, which is the way to it from the root, by numbers of children. -/
def nodeAt? (root : Expr) : List Nat → Option Expr
  | [] => some root
  | i :: place => root.children[i]?.bind fun child => child.nodeAt? place

/-- The node that a step is about. -/
def Step.node : Step → Expr
  | .enter node => node
  | .leave node => node

/-- Whether a step enters its node. -/
def Step.isEnter : Step → Bool
  | .enter _ => true
  | .leave _ => false

theorem Step.node_eq_iff {step : Step} {node : Expr} :
    step.node = node ↔ step = .enter node ∨ step = .leave node := by
  cases step <;> simp [Step.node]

/-- The visits of a node, with those below it in between. -/
def around (node : Expr) (below : List (List Nat × Step)) : List (List Nat × Step) :=
  ([], .enter node) :: (below ++ [([], .leave node)])

/-- The visits of a child, from the node above it. -/
def inChild (i : Nat) (visits : List (List Nat × Step)) : List (List Nat × Step) :=
  visits.map fun visit => (i :: visit.1, visit.2)

mutual
/-- The visits of a tree in order, each with the place of its node. -/
def tour : Expr → List (List Nat × Step)
  | field id name => around (field id name) []
  | literal id value unit => around (literal id value unit) []
  | cast id target operand => around (cast id target operand) (inChild 0 operand.tour)
  | call id name arguments => around (call id name arguments) (tours 0 arguments)
  | binary id op left right =>
    around (binary id op left right) (inChild 0 left.tour ++ inChild 1 right.tour)
  | unary id op operand => around (unary id op operand) (inChild 0 operand.tour)

/-- The visits of the children from a number on. -/
def tours (i : Nat) : List Expr → List (List Nat × Step)
  | [] => []
  | e :: es => inChild i e.tour ++ tours (i + 1) es
end

theorem tour_eq (node : Expr) : node.tour = around node (tours 0 node.children) := by
  cases node <;> simp [tour, tours, children]

theorem mem_inChild_iff {i : Nat} {visits : List (List Nat × Step)} {place : List Nat}
    {step : Step} :
    (place, step) ∈ inChild i visits ↔ ∃ below, place = i :: below ∧ (below, step) ∈ visits := by
  simp only [inChild, List.mem_map, Prod.mk.injEq]
  constructor
  · rintro ⟨⟨below, step⟩, hvisit, rfl, rfl⟩
    exact ⟨below, rfl, hvisit⟩
  · rintro ⟨below, rfl, hvisit⟩
    exact ⟨(below, step), hvisit, rfl, rfl⟩

theorem mem_tours_iff {place : List Nat} {step : Step} {i : Nat} {es : List Expr} :
    (place, step) ∈ tours i es ↔
      ∃ k below child, place = (i + k) :: below ∧ es[k]? = some child ∧
        (below, step) ∈ child.tour := by
  induction es generalizing i with
  | nil => simp [tours]
  | cons e es ih =>
    rw [tours, List.mem_append, mem_inChild_iff, ih]
    constructor
    · rintro (⟨below, rfl, hvisit⟩ | ⟨k, below, child, rfl, hchild, hvisit⟩)
      · exact ⟨0, below, e, rfl, rfl, hvisit⟩
      · exact ⟨k + 1, below, child, by rw [Nat.add_right_comm, Nat.add_assoc], hchild, hvisit⟩
    · rintro ⟨k, below, child, rfl, hchild, hvisit⟩
      cases k with
      | zero =>
        cases hchild
        exact .inl ⟨below, rfl, hvisit⟩
      | succ k =>
        exact .inr ⟨k, below, child, by rw [Nat.add_right_comm, Nat.add_assoc], hchild, hvisit⟩

/-- A tour has the visits of exactly the nodes there are. -/
theorem mem_tour_iff {root : Expr} {place : List Nat} {step : Step} :
    (place, step) ∈ root.tour ↔ root.nodeAt? place = some step.node := by
  -- Induction on the tree: a visit is of the root, or it is of a child and its place is one step
  -- longer.
  induction root using induct generalizing place with
  | step node ih =>
    have hmem : (place, step) ∈ node.tour ↔
        (place = [] ∧ step.node = node) ∨ (place, step) ∈ tours 0 node.children := by
      rw [tour_eq, Step.node_eq_iff]
      simp only [around, List.mem_cons, List.mem_append, Prod.mk.injEq, List.not_mem_nil, or_false]
      tauto
    rw [hmem, mem_tours_iff]
    cases place with
    | nil => simp [nodeAt?, eq_comm]
    | cons i place =>
      simp only [nodeAt?, Option.bind_eq_some_iff, Nat.zero_add]
      constructor
      · rintro (⟨hnil, -⟩ | ⟨k, below, child, hplace, hchild, hvisit⟩)
        · cases hnil
        · cases hplace
          exact ⟨child, hchild, (ih child (List.mem_of_getElem? hchild)).1 hvisit⟩
      · rintro ⟨child, hchild, hnode⟩
        exact .inr ⟨i, place, child, rfl, hchild, (ih child (List.mem_of_getElem? hchild)).2 hnode⟩

theorem nodup_tours {es : List Expr} (h : ∀ e ∈ es, e.tour.Nodup) (i : Nat) :
    (tours i es).Nodup := by
  induction es generalizing i with
  | nil => exact List.nodup_nil
  | cons e es ih =>
    obtain ⟨hhead, hrest⟩ := List.forall_mem_cons.1 h
    rw [tours, List.nodup_append']
    refine ⟨hhead.map fun visit other heq => ?_, ih hrest (i + 1), ?_⟩
    · obtain ⟨hplace, hstep⟩ := Prod.mk.inj heq
      exact Prod.ext (List.cons.inj hplace).2 hstep
    -- The places start with the numbers of different children.
    · rintro ⟨place, step⟩ hfirst hlater
      obtain ⟨below, rfl, -⟩ := mem_inChild_iff.1 hfirst
      obtain ⟨k, below', child, hplace, -⟩ := mem_tours_iff.1 hlater
      have := (List.cons.inj hplace).1
      omega

/-- No visit is made twice. -/
theorem nodup_tour (root : Expr) : root.tour.Nodup := by
  induction root using induct with
  | step node ih =>
    have hbelow : ∀ step, ([], step) ∉ tours 0 node.children := by
      intro step hvisit
      obtain ⟨k, below, child, hplace, -⟩ := mem_tours_iff.1 hvisit
      cases hplace
    rw [tour_eq, around, List.nodup_cons, List.nodup_append']
    refine ⟨?_, nodup_tours ih 0, List.nodup_singleton _, ?_⟩
    · simp [hbelow]
    · simpa using hbelow _

/-! ## Visits in order -/

/-- The visits of a tree in order. -/
def visits (root : Expr) : List Step := root.tour.map Prod.snd

theorem map_snd_tours (i : Nat) (es : List Expr) :
    (tours i es).map Prod.snd = es.flatMap visits := by
  induction es generalizing i with
  | nil => rfl
  | cons e es ih =>
    rw [tours, List.map_append, ih, List.flatMap_cons, inChild, List.map_map]
    rfl

/-- A node is entered, its children are visited from left to right, and it is left. -/
theorem visits_eq (node : Expr) :
    node.visits = .enter node :: (node.children.flatMap visits ++ [.leave node]) := by
  rw [visits, tour_eq, around, List.map_cons, List.map_append, map_snd_tours]
  rfl

/-- There are as many visits of a sort as there are nodes. -/
theorem countP_visits (sort : Bool) (root : Expr) :
    root.visits.countP (·.isEnter = sort) = root.size := by
  have hbelow : ∀ es : List Expr, (∀ e ∈ es, e.visits.countP (·.isEnter = sort) = e.size) →
      (es.flatMap visits).countP (·.isEnter = sort) = sizes es := by
    intro es h
    induction es with
    | nil => rfl
    | cons e es ih =>
      obtain ⟨hhead, hrest⟩ := List.forall_mem_cons.1 h
      rw [List.flatMap_cons, List.countP_append, hhead, ih hrest, sizes]
  induction root using induct with
  | step node ih =>
    have hends : [Step.enter node, Step.leave node].countP (·.isEnter = sort) = 1 := by
      cases sort <;> rfl
    rw [visits_eq, ← List.singleton_append, List.countP_append, List.countP_append,
      hbelow _ ih, size_eq]
    rw [← List.singleton_append, List.countP_append] at hends
    omega

theorem length_visits (root : Expr) : root.visits.length = 2 * root.size := by
  have hsplit := List.length_eq_countP_add_countP (·.isEnter = true) (l := root.visits)
  have hleave := countP_visits false root
  simp only [Bool.not_eq_true, countP_visits, decide_eq_true_eq] at hsplit
  omega

/-! ## Counting -/

theorem countPending_eq (count : Nat) (pending : List Expr) :
    countPending count pending = count + sizes pending := by
  fun_induction countPending count pending with
  | case1 count => rfl
  | case2 count node pending ih =>
    have hsize := node.size_eq
    rw [ih, sizes_append, sizes_reverse, sizes]
    omega

/-- What is counted with a list of pending nodes is the size of the tree. -/
theorem nodeCount_eq_size (root : Expr) : root.nodeCount = root.size := by
  rw [nodeCount, countPending_eq, sizes, sizes]
  omega

/-! ## The steps to come -/

namespace Step

/-- The visits that steps to come stand for. -/
def pending (steps : List Step) : List Step :=
  steps.flatMap fun
    | .enter node => node.visits
    | .leave node => [.leave node]

/-- The steps to come after the first one is taken. -/
def next : List Step → List Step
  | [] => []
  | .enter node :: steps => below node ++ steps
  | .leave _ :: steps => steps

theorem pending_append (steps more : List Step) :
    pending (steps ++ more) = pending steps ++ pending more :=
  List.flatMap_append

theorem pending_enter (nodes : List Expr) :
    pending (nodes.map .enter) = nodes.flatMap Expr.visits :=
  List.flatMap_map ..

/-- The first step to come is the first visit that is left, and taking it leaves the others. -/
theorem pending_cons (step : Step) (steps : List Step) :
    pending (step :: steps) = step :: pending (next (step :: steps)) := by
  cases step with
  | enter node =>
    rw [next, pending_append, below, pending_append, pending_enter]
    show node.visits ++ pending steps = _
    rw [visits_eq]
    rfl
  | leave node => rfl

/-- The steps that are before a walk stand for the visits that are left. -/
theorem pending_iterate_next (k : Nat) (steps : List Step) :
    pending (next^[k] steps) = (pending steps).drop k := by
  induction k generalizing steps with
  | zero => rfl
  | succ k ih =>
    rw [Function.iterate_succ_apply, ih]
    cases steps with
    | nil => rw [next, pending, List.flatMap_nil, List.drop_nil, List.drop_nil]
    | cons step steps => rw [pending_cons, List.drop_succ_cons]

theorem pending_eq_nil_iff {steps : List Step} : pending steps = [] ↔ steps = [] := by
  cases steps with
  | nil => simp [pending]
  | cons step steps => simp [pending_cons]

end Step

theorem pending_root (root : Expr) : Step.pending [.enter root] = root.visits :=
  List.append_nil _

/-! ## Visitors -/

section

variable {m : Type → Type} [Monad m]

/-- Calls the visitor that a step is for. -/
def Step.visit (enter leave : Expr → m Unit) : Step → m Unit
  | .enter node => enter node
  | .leave node => leave node

/-- A walk takes its first step, which calls a visitor once, and goes on with those to come. -/
theorem walkSteps_cons (enter leave : Expr → m Unit) (step : Step) (steps : List Step) :
    walkSteps enter leave (step :: steps) =
      (do step.visit enter leave; walkSteps enter leave (Step.next (step :: steps))) := by
  cases step with
  | enter node => rw [walkSteps, Step.next, Step.visit]
  | leave node => rw [walkSteps, Step.next, Step.visit]

variable [LawfulMonad m]

/-- A walk that has taken some steps has made as many of its visits, and goes on with the steps that
    are then to come. -/
theorem walkSteps_iterate_next (enter leave : Expr → m Unit) (k : Nat) (steps : List Step) :
    walkSteps enter leave steps =
      (do forM ((Step.pending steps).take k) (Step.visit enter leave)
          walkSteps enter leave (Step.next^[k] steps)) := by
  induction k generalizing steps with
  | zero => simp
  | succ k ih =>
    rw [Function.iterate_succ_apply]
    cases steps with
    | nil => simpa [Step.next, Step.pending] using ih []
    | cons step steps =>
      rw [walkSteps_cons, ih, Step.pending_cons, List.take_succ_cons, List.forM_cons, bind_assoc]

/-- A traversal makes the visits in order. -/
theorem traverse_eq_forM_visits (enter leave : Expr → m Unit) (root : Expr) :
    root.traverse enter leave = forM root.visits (Step.visit enter leave) := by
  have hbelow : ∀ es : List Expr,
      (∀ e ∈ es, e.traverse enter leave = forM e.visits (Step.visit enter leave)) →
        forM es (traverse enter leave) = forM (es.flatMap visits) (Step.visit enter leave) := by
    intro es h
    induction es with
    | nil => rfl
    | cons e es ih =>
      obtain ⟨hhead, hrest⟩ := List.forall_mem_cons.1 h
      rw [List.forM_cons, List.flatMap_cons, List.forM_append, hhead, ih hrest]
  induction root using induct with
  | step node ih =>
    rw [traverse_eq, visits_eq, List.forM_cons, List.forM_append, hbelow _ ih]
    simp [Step.visit]

end

/-! ## Visitors that may fail -/

section

variable {σ ε : Type}

/-- A visitor that keeps a state and may fail, which keeps the state as well. -/
abbrev Visitor (σ ε : Type) := Expr → EStateM ε σ Unit

/-- The visitor that notes its calls besides, also those that fail. -/
def Visitor.noting (call : Expr → Step) (visit : Visitor σ ε) : Visitor (σ × List Step) ε :=
  fun node (state, calls) =>
    match visit node state with
    | .ok _ after => .ok () (after, calls ++ [call node])
    | .error cause after => .error cause (after, calls ++ [call node])

/-- The result with calls that were made on the way. -/
def withCalls (calls : List Step) : EStateM.Result ε σ Unit → EStateM.Result ε (σ × List Step) Unit
  | .ok _ after => .ok () (after, calls)
  | .error cause after => .error cause (after, calls)

/-- Calls are made one after the other from a state, up to the first that fails: the calls that are
    made, and the result. -/
inductive Makes (enter leave : Visitor σ ε) :
    List Step → σ → List Step → EStateM.Result ε σ Unit → Prop
  /-- There is no call to make. -/
  | nil (state : σ) : Makes enter leave [] state [] (.ok () state)
  /-- A call succeeds, and the next one starts from its state. -/
  | cons {step : Step} {steps calls : List Step} {before after : σ}
      {result : EStateM.Result ε σ Unit} (hstep : step.visit enter leave before = .ok () after)
      (hsteps : Makes enter leave steps after calls result) :
      Makes enter leave (step :: steps) before (step :: calls) result
  /-- A call fails, and no other is made. -/
  | stop {step : Step} (steps : List Step) {before after : σ} {cause : ε}
      (hstep : step.visit enter leave before = .error cause after) :
      Makes enter leave (step :: steps) before [step] (.error cause after)

variable {enter leave : Visitor σ ε}

/-- Where no call fails, all are made. -/
theorem Makes.eq_of_ok {steps calls : List Step} {state final : σ}
    (h : Makes enter leave steps state calls (.ok () final)) : calls = steps := by
  generalize hresult : EStateM.Result.ok () final = result at h
  induction h with
  | nil => rfl
  | cons _ _ ih => rw [ih hresult]
  | stop => cases hresult

/-- Where a call fails, those before it were made without failure, and none after it was. -/
theorem Makes.exists_of_error {steps calls : List Step} {state after : σ} {cause : ε}
    (h : Makes enter leave steps state calls (.error cause after)) :
    ∃ front step rest before, steps = front ++ step :: rest ∧ calls = front ++ [step] ∧
      Makes enter leave front state front (.ok () before) ∧
      step.visit enter leave before = .error cause after := by
  generalize hresult : EStateM.Result.error cause after = result at h
  induction h with
  | nil => cases hresult
  | @cons step _ _ _ _ _ hstep _ ih =>
    obtain ⟨front, last, rest, before, rfl, rfl, hfront, hlast⟩ := ih hresult
    exact ⟨step :: front, last, rest, before, rfl, rfl, .cons hstep hfront, hlast⟩
  | @stop step steps before after cause hstep =>
    cases hresult
    exact ⟨[], step, steps, before, rfl, rfl, .nil before, hstep⟩

theorem visit_noting (enter leave : Visitor σ ε) (step : Step) (state : σ) (calls : List Step) :
    step.visit (enter.noting .enter) (leave.noting .leave) (state, calls) =
      withCalls (calls ++ [step]) (step.visit enter leave state) := by
  cases step with
  | enter node =>
    simp only [Step.visit, Visitor.noting]
    cases enter node state <;> rfl
  | leave node =>
    simp only [Step.visit, Visitor.noting]
    cases leave node state <;> rfl

/-- After a call that succeeds the loop goes on from the state it leaves. -/
theorem forM_cons_of_ok {visit : Step → EStateM ε σ Unit} {step : Step} {before after : σ}
    (h : visit step before = .ok () after) (steps : List Step) :
    forM (step :: steps) visit before = forM steps visit after := by
  rw [List.forM_cons]
  show EStateM.bind _ _ _ = _
  rw [EStateM.bind, h]

/-- After a call that fails the loop ends. -/
theorem forM_cons_of_error {visit : Step → EStateM ε σ Unit} {step : Step} {before after : σ}
    {cause : ε} (h : visit step before = .error cause after) (steps : List Step) :
    forM (step :: steps) visit before = .error cause after := by
  rw [List.forM_cons]
  show EStateM.bind _ _ _ = _
  rw [EStateM.bind, h]

/-- A loop over visits makes them in turn, and visitors that note their calls tell which. -/
theorem exists_makes (enter leave : Visitor σ ε) (steps : List Step) (state : σ)
    (noted : List Step) :
    ∃ calls result, Makes enter leave steps state calls result ∧
      forM steps (Step.visit enter leave) state = result ∧
      forM steps (Step.visit (enter.noting .enter) (leave.noting .leave)) (state, noted) =
        withCalls (noted ++ calls) result := by
  -- Induction on the visits, for any state and any calls noted before.
  induction steps generalizing state noted with
  | nil =>
    refine ⟨[], .ok () state, .nil state, rfl, ?_⟩
    rw [List.append_nil]
    rfl
  | cons step steps ih =>
    have hnoted := visit_noting enter leave step state noted
    cases hstep : step.visit enter leave state with
    | ok _ after =>
      obtain ⟨calls, result, hmakes, hresult, hcalls⟩ := ih after (noted ++ [step])
      rw [hstep] at hnoted
      refine ⟨step :: calls, result, .cons hstep hmakes, ?_, ?_⟩
      · rw [forM_cons_of_ok hstep, hresult]
      · rw [forM_cons_of_ok hnoted, hcalls, List.append_assoc, List.singleton_append]
    | error cause after =>
      rw [hstep] at hnoted
      refine ⟨[step], .error cause after, .stop steps hstep, ?_, ?_⟩
      · exact forM_cons_of_error hstep steps
      · exact forM_cons_of_error hnoted steps

/-- **A walk is the recursive traversal**, for visitors that keep a state and may fail at any call,
    also for those that note their calls besides: it has the same result, with the same state and
    the same failure, and makes the same calls in the same order. These are the visits of the tree
    in their order, all of them if none fails, else those up to the first that does.

    Each node, told by its place, is entered once and left once on the visits of a tree, which are
    twice as many as the nodes that are counted, half of them for entering. A walk that has taken
    some steps has made as many of the visits, and its steps to come stand for those that are left:
    there are none to come just when it has taken as many steps as there are visits. -/
theorem walk_refines (root : Expr) (enter leave : Visitor σ ε) (state : σ) :
    (root.walk enter leave = root.traverse enter leave ∧
      root.walk (enter.noting .enter) (leave.noting .leave) =
        root.traverse (enter.noting .enter) (leave.noting .leave)) ∧
    (∃ calls result, Makes enter leave root.visits state calls result ∧
      root.walk enter leave state = result ∧
      root.walk (enter.noting .enter) (leave.noting .leave) (state, []) = withCalls calls result ∧
      (∀ final, result = .ok () final → calls = root.visits) ∧
      ∀ cause after, result = .error cause after →
        ∃ front step rest before, root.visits = front ++ step :: rest ∧ calls = front ++ [step] ∧
          Makes enter leave front state front (.ok () before) ∧
          step.visit enter leave before = .error cause after) ∧
    (root.visits = root.tour.map Prod.snd ∧ root.tour.Nodup ∧
      ∀ place step, (place, step) ∈ root.tour ↔ root.nodeAt? place = some step.node) ∧
    (root.visits.countP (·.isEnter = true) = root.nodeCount ∧
      root.visits.countP (·.isEnter = false) = root.nodeCount ∧
      root.visits.length = 2 * root.nodeCount) ∧
    ∀ k, (root.walk enter leave = do
        forM (root.visits.take k) (Step.visit enter leave)
        walkSteps enter leave (Step.next^[k] [.enter root])) ∧
      Step.pending (Step.next^[k] [.enter root]) = root.visits.drop k ∧
      (Step.next^[k] [.enter root] = [] ↔ 2 * root.nodeCount ≤ k) := by
  have hpending : ∀ k, Step.pending (Step.next^[k] [.enter root]) = root.visits.drop k :=
    fun k => by rw [Step.pending_iterate_next, pending_root]
  refine ⟨⟨walk_eq_traverse .., walk_eq_traverse ..⟩, ?_,
    ⟨rfl, nodup_tour root, fun _ _ => mem_tour_iff⟩, ?_, fun k => ⟨?_, hpending k, ?_⟩⟩
  · obtain ⟨calls, result, hmakes, hresult, hcalls⟩ :=
      exists_makes enter leave root.visits state []
    rw [walk_eq_traverse, walk_eq_traverse, traverse_eq_forM_visits, traverse_eq_forM_visits]
    refine ⟨calls, result, hmakes, hresult, hcalls, ?_, ?_⟩
    · rintro final rfl
      exact hmakes.eq_of_ok
    · rintro cause after rfl
      exact hmakes.exists_of_error
  · rw [nodeCount_eq_size]
    exact ⟨countP_visits true root, countP_visits false root, length_visits root⟩
  · rw [← pending_root]
    exact walkSteps_iterate_next enter leave k [.enter root]
  · rw [← Step.pending_eq_nil_iff, hpending, List.drop_eq_nil_iff, length_visits,
      nodeCount_eq_size]

/-- The visits of `(a + 2 cm) * f(b)`, by the numbers of the nodes. -/
example :
    (binary 5 .multiply (binary 2 .add (field 0 "a") (literal 1 (.int 2) (some "cm")))
      (call 4 "f" [field 3 "b"])).visits.map (fun step => (step.isEnter, step.node.id)) =
      [(true, 5), (true, 2), (true, 0), (false, 0), (true, 1), (false, 1), (false, 2), (true, 4),
        (true, 3), (false, 3), (false, 4), (false, 5)] := by
  decide

end

end UnitCheck.Expr
