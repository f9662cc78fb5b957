import UnitCheck.Proofs.Walk
import UnitCheck.Resolution

/-!
  The units that a walk notes are those of the recursive meaning.

  `Context.unitOf` gives the unit of a tree by recursion on it. `Context.resolve` walks the tree
  with a stack of its own and looks the units of operands up in a map by their ids. What ties them
  is `Noted`: after some nodes of the post-order were visited, their ids are distinct, the map has
  exactly these ids, and each is mapped to the unit of its own node. A node is visited after the
  nodes right below it (`childrenFirst_postOrder`), so the look-ups of a visit find the operands of
  the node and no other nodes, also in a tree where some id is repeated further on. The walk
  therefore stops at the first node that has no unit or whose id was seen, with that cause
  (`resolve_spec`).
-/

namespace UnitCheck

open UnitCheck.Expr (postOrder postOrder_eq)

/-! ## Children come first -/

namespace Expr

/-- The ids of a tree, in post-order. -/
def ids (root : Expr) : List Nat := root.postOrder.map id

/-- Each of some nodes comes after the nodes right below it, which are among the nodes done before
    or stand earlier in the list. -/
def ChildrenFirst : List Expr → List Expr → Prop
  | _, [] => True
  | done, node :: nodes =>
    (∀ child ∈ node.children, child ∈ done) ∧ ChildrenFirst (done ++ [node]) nodes

theorem childrenFirst_append {done nodes more : List Expr} :
    ChildrenFirst done (nodes ++ more) ↔
      ChildrenFirst done nodes ∧ ChildrenFirst (done ++ nodes) more := by
  induction nodes generalizing done with
  | nil => simp [ChildrenFirst]
  | cons node nodes ih => simp [ChildrenFirst, ih, and_assoc]

theorem self_mem_postOrder (e : Expr) : e ∈ e.postOrder := by
  rw [postOrder_eq]
  simp

theorem childrenFirst_flatMap {es : List Expr}
    (h : ∀ e ∈ es, ∀ done, ChildrenFirst done e.postOrder) (done : List Expr) :
    ChildrenFirst done (es.flatMap postOrder) := by
  induction es generalizing done with
  | nil => trivial
  | cons e es ih =>
    rw [List.flatMap_cons, childrenFirst_append]
    exact ⟨h e List.mem_cons_self done, ih (fun a ha => h a (List.mem_cons_of_mem _ ha)) _⟩

theorem childrenFirst_postOrder (root : Expr) (done : List Expr) :
    ChildrenFirst done root.postOrder := by
  induction root using induct generalizing done with
  | step node ih =>
    rw [postOrder_eq, childrenFirst_append]
    refine ⟨childrenFirst_flatMap ih done, fun child hchild => ?_, trivial⟩
    exact List.mem_append_right _ (List.mem_flatMap.2 ⟨child, hchild, child.self_mem_postOrder⟩)

end Expr

namespace Context

/-! ## The meaning -/

mutual
/-- The unit of an expression by recursion on it. Operands get their units from left to right, and
    the first failure is that of the whole. -/
def unitOf (context : Context) : Expr → Except FilterError Factor
  | .literal _ _ (some symbol) => .ok (.ofSymbol symbol)
  | .literal _ _ none => .ok .one
  | .field _ name =>
    match context.fieldUnit name with
    | some unit => .ok unit
    | none => .error (.unresolvedField name)
  | .cast _ _ operand | .unary _ _ operand => context.unitOf operand
  | .call _ name arguments => do
    let units ← context.unitsOf arguments
    match context.methodRule name with
    | some rule => rule units
    | none => .error (.unknownMethod name)
  | .binary id op left right => do
    let l ← context.unitOf left
    let r ← context.unitOf right
    if op.isComparison then .ok .one
    else
      match op with
      | .multiply => (l.mul r).mapError .units
      | .divide => (l.div r).mapError .units
      | .remainder => .ok l
      | _ => if l = r then .ok l else .error (.unitMismatch id op l r)

/-- The units of some expressions, in order. -/
def unitsOf (context : Context) : List Expr → Except FilterError (List Factor)
  | [] => .ok []
  | e :: es => do
    let unit ← context.unitOf e
    let units ← context.unitsOf es
    return unit :: units
end

/-- A node that has a unit. -/
def HasUnit (context : Context) (node : Expr) : Prop := ∃ unit, context.unitOf node = .ok unit

/-- The first node of the post-order that has no unit, and why it has none. -/
def FirstFailure (context : Context) (root : Expr) (error : FilterError) : Prop :=
  ∃ before node after, root.postOrder = before ++ node :: after ∧
    (∀ earlier ∈ before, context.HasUnit earlier) ∧ context.unitOf node = .error error

/-- The first node of the post-order that has no unit or has the id of an earlier node, and the
    cause. A node without a unit tells why it has none even if its id was seen. -/
def FirstObstacle (context : Context) (root : Expr) (error : FilterError) : Prop :=
  ∃ before node after, root.postOrder = before ++ node :: after ∧
    (∀ earlier ∈ before, context.HasUnit earlier) ∧ (before.map Expr.id).Nodup ∧
    (context.unitOf node = .error error ∨
      context.HasUnit node ∧ node.id ∈ before.map Expr.id ∧ error = .duplicateId node.id)

theorem unitsOf_eq_map {context : Context} {unit : Expr → Factor} {es : List Expr}
    (h : ∀ e ∈ es, context.unitOf e = .ok (unit e)) : context.unitsOf es = .ok (es.map unit) := by
  induction es with
  | nil => rfl
  | cons e es ih =>
    rw [unitsOf, h e List.mem_cons_self, ih fun a ha => h a (List.mem_cons_of_mem _ ha)]
    rfl

/-- The rule of a node, applied to the units of the nodes right below it, gives its unit. -/
theorem nodeUnit_eq_unitOf {context : Context} {unit : Expr → Factor} {node : Expr}
    (h : ∀ child ∈ node.children, context.unitOf child = .ok (unit child)) :
    context.nodeUnit unit node = context.unitOf node := by
  cases node with
  | field id name =>
    unfold nodeUnit unitOf
    rfl
  | literal id value symbol => cases symbol <;> rw [nodeUnit, unitOf]
  | cast id target operand => rw [nodeUnit, unitOf, h operand (by simp [Expr.children])]
  | unary id op operand => rw [nodeUnit, unitOf, h operand (by simp [Expr.children])]
  | call id name arguments =>
    have harguments : ∀ e ∈ arguments, context.unitOf e = .ok (unit e) := h
    rw [nodeUnit, unitOf, unitsOf_eq_map harguments]
    rfl
  | binary id op left right =>
    rw [nodeUnit, unitOf, h left (by simp [Expr.children]), h right (by simp [Expr.children])]
    cases op <;> rfl

/-! ## What a visit does -/

/-- The map after some nodes were visited. -/
structure Noted (context : Context) (done : List Expr) (units : UnitMap) : Prop where
  distinct : (done.map Expr.id).Nodup
  keys : ∀ id, id ∈ units ↔ id ∈ done.map Expr.id
  unit : ∀ node ∈ done, ∃ unit, context.unitOf node = .ok unit ∧ units[node.id]? = some unit

theorem noted_nil (context : Context) : Noted context [] ∅ :=
  ⟨List.nodup_nil, by simp, by simp⟩

variable {context : Context} {done : List Expr} {units : UnitMap}

/-- One more node is noted. -/
theorem Noted.insert {node : Expr} {unit : Factor} (h : Noted context done units)
    (hunit : context.unitOf node = .ok unit) (hnew : node.id ∉ done.map Expr.id) :
    Noted context (done ++ [node]) (units.insert node.id unit) where
  distinct := by
    rw [List.map_append, List.nodup_append]
    refine ⟨h.distinct, by simp, fun a ha b hb hab => hnew ?_⟩
    have hb : b = node.id := by simpa using hb
    rwa [← hb, ← hab]
  keys id := by
    rw [Std.HashMap.mem_insert, h.keys, List.map_append, List.mem_append, beq_iff_eq,
      List.map_singleton, List.mem_singleton, or_comm, eq_comm]
  unit other hother := by
    rcases List.mem_append.1 hother with hother | hother
    · obtain ⟨u, hu, hmap⟩ := h.unit other hother
      -- The id is new, so the notes of the nodes before are kept.
      have hne : node.id ≠ other.id := fun heq => hnew (heq ▸ List.mem_map_of_mem hother)
      exact ⟨u, hu, by rw [Std.HashMap.getElem?_insert, if_neg (by simpa using hne), hmap]⟩
    · rw [List.mem_singleton.1 hother]
      exact ⟨unit, hunit, Std.HashMap.getElem?_insert_self⟩

/-- A visit asks for the units of the children only, and all of them are in the map. -/
theorem Noted.unitOf_child {child : Expr} (h : Noted context done units) (hchild : child ∈ done) :
    context.unitOf child = .ok (units.getD child.id .one) := by
  obtain ⟨u, hu, hmap⟩ := h.unit child hchild
  rw [hu, Std.HashMap.getD_eq_getD_getElem?, hmap, Option.getD_some]

/-- A visit of a node whose children are noted. -/
theorem Noted.run_visit {node : Expr} (h : Noted context done units)
    (hchildren : ∀ child ∈ node.children, child ∈ done) :
    (context.visit node).run units =
      match context.unitOf node with
      | .error e => .error e
      | .ok unit =>
        if node.id ∈ done.map Expr.id then .error (.duplicateId node.id)
        else .ok ((), units.insert node.id unit) := by
  -- The notes have the units of the children, so the visit calculates the unit of the tree.
  have hunit : context.nodeUnit (fun child => units.getD child.id .one) node =
      context.unitOf node :=
    nodeUnit_eq_unitOf fun child hchild => h.unitOf_child (hchildren child hchild)
  -- An id is noted just if a node that is done has it.
  have hseen : units.contains node.id = decide (node.id ∈ done.map Expr.id) := by
    rw [Bool.eq_iff_iff, decide_eq_true_iff]
    exact h.keys node.id
  rw [← hunit]
  cases hnode : context.nodeUnit (fun child => units.getD child.id .one) node with
  | error e =>
    simp only [visit, StateT.run_bind, StateT.run_get, pure_bind, StateT.run_monadLift, hnode]
    rfl
  | ok unit =>
    simp only [visit, StateT.run_bind, StateT.run_get, pure_bind, StateT.run_monadLift, hnode,
      hseen]
    by_cases hmem : node.id ∈ done.map Expr.id
    · simp only [hmem, decide_true, if_true]
      rfl
    · simp only [hmem, decide_false, Bool.false_eq_true, if_false]
      rfl

/-! ## What a run of visits does -/

/-- The first of some nodes that has no unit or whose id was seen, and the cause. -/
def Obstacle (context : Context) (done nodes : List Expr) (error : FilterError) : Prop :=
  ∃ before node after, nodes = before ++ node :: after ∧
    (∀ earlier ∈ before, context.HasUnit earlier) ∧ ((done ++ before).map Expr.id).Nodup ∧
    (context.unitOf node = .error error ∨
      context.HasUnit node ∧ node.id ∈ (done ++ before).map Expr.id ∧
        error = .duplicateId node.id)

/-- An obstacle behind a node that is noted. -/
theorem Obstacle.cons {node : Expr} {nodes : List Expr} {error : FilterError}
    (h : context.Obstacle (done ++ [node]) nodes error) (hnode : context.HasUnit node) :
    context.Obstacle done (node :: nodes) error := by
  obtain ⟨before, stop, after, rfl, hbefore, hdistinct, hcause⟩ := h
  rw [List.append_assoc, List.singleton_append] at hdistinct hcause
  refine ⟨node :: before, stop, after, rfl, fun earlier hearlier => ?_, hdistinct, hcause⟩
  rcases List.mem_cons.1 hearlier with rfl | hearlier
  · exact hnode
  · exact hbefore earlier hearlier

/-- After a run of visits its nodes are noted too, or an obstacle has stopped it. -/
theorem Noted.run_forM {nodes : List Expr} (h : Noted context done units)
    (hnodes : Expr.ChildrenFirst done nodes) :
    (∃ units', (forM nodes context.visit).run units = .ok ((), units') ∧
        Noted context (done ++ nodes) units') ∨
      ∃ error, (forM nodes context.visit).run units = .error error ∧
        context.Obstacle done nodes error := by
  induction nodes generalizing done units with
  | nil => exact .inl ⟨units, rfl, by rwa [List.append_nil]⟩
  | cons node nodes ih =>
    obtain ⟨hchildren, hrest⟩ := hnodes
    have hdistinct : ((done ++ []).map Expr.id).Nodup := by simpa using h.distinct
    -- The first visit stops the run, or its node is noted and the rest goes on from there.
    rw [List.forM_cons, StateT.run_bind, h.run_visit hchildren]
    cases hunit : context.unitOf node with
    | error e => exact .inr ⟨e, rfl, [], node, nodes, rfl, by simp, hdistinct, .inl hunit⟩
    | ok unit =>
      by_cases hseen : node.id ∈ done.map Expr.id
      · simp only [if_pos hseen]
        exact .inr ⟨_, rfl, [], node, nodes, rfl, by simp, hdistinct,
          .inr ⟨⟨unit, hunit⟩, by simpa using hseen, rfl⟩⟩
      · simp only [if_neg hseen]
        rcases ih (h.insert hunit hseen) hrest with ⟨units', hrun, hnoted⟩ | ⟨e, hrun, hstop⟩
        · rw [List.append_assoc, List.singleton_append] at hnoted
          exact .inl ⟨units', hrun, hnoted⟩
        · exact .inr ⟨e, hrun, hstop.cons ⟨unit, hunit⟩⟩

/-- The walk over a tree notes the units of all its nodes, or stops at the first obstacle. -/
theorem resolve_spec (context : Context) (root : Expr) :
    (∃ units, context.resolve root = .ok units ∧ Noted context root.postOrder units) ∨
      ∃ error, context.resolve root = .error error ∧ context.FirstObstacle root error := by
  have hresolve : context.resolve root =
      ((forM root.postOrder context.visit).run ∅).map Prod.snd := by
    rw [resolve, Expr.walkPostOrder_eq_forM]
    rfl
  rw [hresolve]
  rcases (noted_nil context).run_forM (root.childrenFirst_postOrder []) with
    ⟨units, hrun, hnoted⟩ | ⟨e, hrun, hstop⟩
  · exact .inl ⟨units, by rw [hrun]; rfl, hnoted⟩
  · exact .inr ⟨e, by rw [hrun]; rfl, hstop⟩

/-- Where ids are distinct, only a node without a unit is an obstacle. -/
theorem FirstObstacle.firstFailure {root : Expr} {error : FilterError}
    (h : context.FirstObstacle root error) (hids : root.ids.Nodup) :
    context.FirstFailure root error := by
  obtain ⟨before, node, after, hroot, hbefore, _, hcause⟩ := h
  refine ⟨before, node, after, hroot, hbefore, ?_⟩
  rcases hcause with hcause | ⟨_, hseen, _⟩
  · exact hcause
  · rw [Expr.ids, hroot, List.map_append, List.map_cons, List.nodup_append] at hids
    exact absurd rfl (hids.2.2 _ hseen _ List.mem_cons_self)

/-- Where every node has a unit, only a repeated id is an obstacle. -/
theorem FirstObstacle.not_nodup {root : Expr} {error : FilterError}
    (h : context.FirstObstacle root error)
    (hunits : ∀ node ∈ root.postOrder, context.HasUnit node) : ¬root.ids.Nodup := by
  intro hids
  obtain ⟨before, node, after, hroot, _, hnode⟩ := h.firstFailure hids
  obtain ⟨unit, hunit⟩ := hunits node (by simp [hroot])
  simp [hunit] at hnode

/-- **Resolution is the recursive meaning.** For a tree with distinct ids the walk gives the unit of
    every node, and that of the root, exactly when all nodes have one, and else the failure of the
    first node in post-order that has none. A tree with a repeated id has no units: the walk stops
    at the first node that has no unit of its own or whose id was seen. -/
theorem resolve_eq_unitOf (context : Context) (root : Expr) :
    (root.ids.Nodup →
      ((∃ units, context.resolve root = .ok units) ↔
          ∀ node ∈ root.postOrder, context.HasUnit node) ∧
        (∀ units, context.resolve root = .ok units →
          (∀ id, id ∈ units ↔ id ∈ root.ids) ∧
          (∀ node ∈ root.postOrder,
            ∃ unit, context.unitOf node = .ok unit ∧ units[node.id]? = some unit) ∧
          context.resolveRoot root = context.unitOf root) ∧
        ∀ error, context.resolve root = .error error →
          context.FirstFailure root error ∧ context.resolveRoot root = .error error) ∧
    (¬root.ids.Nodup →
      ∃ error, context.resolve root = .error error ∧ context.FirstObstacle root error) := by
  rcases resolve_spec context root with ⟨units, hres, hnoted⟩ | ⟨e, hres, hstop⟩
  -- all nodes are noted, so the ids are distinct
  · refine ⟨fun _ => ⟨⟨fun _ node hnode => ?_, fun _ => ⟨units, hres⟩⟩, fun other hother => ?_,
      by simp [hres]⟩, fun hids => absurd hnoted.distinct hids⟩
    · obtain ⟨unit, hunit, _⟩ := hnoted.unit node hnode
      exact ⟨unit, hunit⟩
    · obtain rfl : units = other := by simpa [hres] using hother
      refine ⟨hnoted.keys, hnoted.unit, ?_⟩
      rw [resolveRoot, hres, hnoted.unitOf_child root.self_mem_postOrder]
      rfl
  -- the walk was stopped
  · refine ⟨fun hids => ⟨⟨by simp [hres], fun hunits => absurd hids (hstop.not_nodup hunits)⟩,
      by simp [hres], fun error herror => ?_⟩, fun _ => ⟨e, hres, hstop⟩⟩
    obtain rfl : e = error := by simpa [hres] using herror
    refine ⟨hstop.firstFailure hids, ?_⟩
    rw [resolveRoot, hres]
    rfl

/-- A sum with distinct ids has a unit. With one id for both operands it has none, though each
    node would have one. -/
theorem resolve_eq_unitOf_sum :
    let sum (second : Nat) : Expr :=
      .binary 2 .add (.literal 0 (.int 2) (some "cm")) (.literal second (.int 3) (some "cm"))
    let context := (Bindings.empty true).context
    context.resolveRoot (sum 1) = .ok (.ofSymbol "cm") ∧
      ∃ error, context.resolve (sum 0) = .error error ∧ context.FirstObstacle (sum 0) error := by
  intro sum context
  -- Both operands are in centimetres, and so is their sum.
  have hunits : ∀ node ∈ (sum 1).postOrder, context.HasUnit node := by
    intro node hnode
    refine ⟨.ofSymbol "cm", ?_⟩
    simp only [sum, postOrder, List.cons_append, List.nil_append, List.mem_cons,
      List.not_mem_nil, or_false] at hnode
    rcases hnode with rfl | rfl | rfl <;> rfl
  refine ⟨?_, (resolve_eq_unitOf context (sum 0)).2 (by decide)⟩
  have hsum := (resolve_eq_unitOf context (sum 1)).1 (by decide)
  obtain ⟨units, hres⟩ := hsum.1.2 hunits
  exact (hsum.2.1 units hres).2.2

end Context

end UnitCheck
