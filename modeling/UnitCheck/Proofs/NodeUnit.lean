import UnitCheck.Proofs.Outcome
import UnitCheck.Proofs.Resolution

/-!
  What the rule of a single node can answer.

  The walk over a tree applies one rule at each node, to the units of the nodes right below it.
  `binaryUnit_cases` lists the answers of an operator. A tree with distinct ids fails where the
  rule of a node fails (`FirstFailure.exists_nodeUnit`). The first failure in post-order is the one
  that recursion on the tree meets (`FirstFailure.unitOf_eq`), so the walk and the recursion agree
  at the root (`resolve_eq_error_iff`, `resolveRoot_eq_unitOf`). No rule but that of a method can
  answer with a repeated id, and a context may give a method any rule: what such a rule answers is
  passed on as it is (`resolve_eq_duplicateId_iff`). The standard methods never answer so.
-/

namespace UnitCheck

/-! ## Standard methods -/

/-- A failure of unit arithmetic is not about ids. -/
theorem mapError_units_ne (x : Except UnitError Factor) (id : Nat) :
    x.mapError FilterError.units ≠ .error (.duplicateId id) := by
  intro h
  cases x with
  | ok unit => cases h
  | error cause => cases h

/-- A standard method is refused for the number of its arguments or for their units, never for an
    id. -/
theorem Method.unit_ne_duplicateId (method : Method) (units : List Factor) (id : Nat) :
    method.unit units ≠ .error (.duplicateId id) := by
  intro h
  rcases bind_eq_error_iff.1 h with hcount | ⟨-, -, hunit⟩
  · unfold checkCount at hcount
    split at hcount
    · cases hcount
    · split at hcount
      · cases hcount
      · split at hcount <;> cases hcount
  · cases hrule : method.rule with
    | dimensionless | sameAsArgument =>
      rw [hrule] at hunit
      cases hunit
    | squared =>
      rw [hrule] at hunit
      exact mapError_units_ne _ _ hunit
    | commonUnit =>
      rw [hrule] at hunit
      simp only [commonUnit] at hunit
      split at hunit <;> cases hunit

namespace Context

variable {context : Context}

/-- Each method is a standard one, with the rule that it has there. -/
def StandardMethods (context : Context) : Prop :=
  ∀ name rule, context.methodRule name = some rule →
    ∃ method, Method.standard? name = some method ∧ rule = method.unit

/-- Bindings without rules of their own have no methods but the standard ones. -/
theorem standardMethods_of_bindings {bindings : Bindings} (h : bindings.methods = ∅) :
    bindings.context.StandardMethods := by
  intro name rule hrule
  change bindings.methodRule name = some rule at hrule
  rw [Bindings.methodRule, h, Std.HashMap.getElem?_empty] at hrule
  cases hstandard : bindings.standardMethods with
  | false =>
    rw [hstandard] at hrule
    cases hrule
  | true =>
    rw [hstandard] at hrule
    obtain ⟨method, hmethod, rfl⟩ := Option.map_eq_some_iff.1 hrule
    exact ⟨method, hmethod, rfl⟩

theorem methodRule_setMethod (bindings : Bindings) (name : String) (rule : MethodRule) :
    (bindings.setMethod name rule).context.methodRule name = some rule := by
  show (bindings.setMethod name rule).methodRule name = some rule
  rw [Bindings.methodRule, Bindings.setMethod, Std.HashMap.getElem?_insert_self]

/-! ## The rule of a node -/

/-- An operator keeps the unit of its left operand, gives none, combines both units, or refuses
    units that differ. -/
theorem binaryUnit_cases (node : Nat) (op : BinaryOp) (left right : Factor) :
    binaryUnit node op left right = .ok left ∨
      binaryUnit node op left right = .ok .one ∨
      binaryUnit node op left right = (left.mul right).mapError .units ∨
      binaryUnit node op left right = (left.div right).mapError .units ∨
      binaryUnit node op left right = .error (.unitMismatch node op left right) := by
  -- Sums and connectives ask for one unit on both sides.
  have hequal (unit : Factor) (error : FilterError) :
      (if left = right then .ok unit else .error error) = Except.ok unit ∨
        (if left = right then .ok unit else .error error) = Except.error error := by
    split
    · exact .inl rfl
    · exact .inr rfl
  cases op with
  | or | and | xor | add | subtract =>
    rcases hequal left _ with h | h
    · exact .inl h
    · exact .inr (.inr (.inr (.inr h)))
  | multiply => exact .inr (.inr (.inl rfl))
  | divide => exact .inr (.inr (.inr (.inl rfl)))
  | remainder => exact .inl rfl
  | _ => exact .inr (.inl rfl)

/-- A node fails with a repeated id only if it is a call and the rule of its method answers so. -/
theorem exists_rule_of_nodeUnit {unit : Expr → Factor} {node : Expr} {id : Nat}
    (h : context.nodeUnit unit node = .error (.duplicateId id)) :
    ∃ call name arguments rule, node = .call call name arguments ∧
      context.methodRule name = some rule ∧
      rule (arguments.map unit) = .error (.duplicateId id) := by
  cases node with
  | field _ name =>
    rw [nodeUnit] at h
    split at h <;> cases h
  | literal _ _ symbol => cases symbol <;> cases h
  | cast _ _ operand => cases h
  | unary _ _ operand => cases h
  | call call name arguments =>
    rw [nodeUnit] at h
    split at h
    · next rule hrule => exact ⟨call, name, arguments, rule, rfl, hrule, h⟩
    · cases h
  | binary node op left right =>
    rw [nodeUnit] at h
    -- An operator answers with an error of its own or one of the units, and neither is about ids.
    rcases binaryUnit_cases node op (unit left) (unit right) with hunit | hunit | hunit | hunit |
      hunit
    · exact absurd (hunit.symm.trans h) (by simp)
    · exact absurd (hunit.symm.trans h) (by simp)
    · exact absurd (hunit.symm.trans h) (mapError_units_ne _ _)
    · exact absurd (hunit.symm.trans h) (mapError_units_ne _ _)
    · exact absurd (hunit.symm.trans h) (by simp)

/-- The first node without a unit fails by its own rule, since all nodes below it have units. -/
theorem FirstFailure.exists_nodeUnit {root : Expr} {error : FilterError}
    (h : context.FirstFailure root error) :
    ∃ before node after unit, root.postOrder = before ++ node :: after ∧
      (∀ earlier ∈ before, context.HasUnit earlier) ∧
      (∀ child ∈ node.children, context.unitOf child = .ok (unit child)) ∧
      context.nodeUnit unit node = .error error := by
  obtain ⟨before, node, after, hroot, hbefore, hnode⟩ := h
  have hfirst := root.childrenFirst_postOrder []
  rw [hroot, Expr.childrenFirst_append] at hfirst
  obtain ⟨-, hchildren, -⟩ := hfirst
  have hunits : ∀ child ∈ node.children,
      context.unitOf child = .ok ((context.unitOf child).toOption.getD .one) := by
    intro child hchild
    obtain ⟨unit, hunit⟩ := hbefore child (hchildren child hchild)
    rw [hunit]
    rfl
  exact ⟨before, node, after, _, hroot, hbefore, hunits, by rw [nodeUnit_eq_unitOf hunits, hnode]⟩

/-! ## The walk -/

/-- The map has an entry for each of the nodes that are noted. -/
theorem Noted.size {done : List Expr} {units : UnitMap} (h : Noted context done units) :
    units.size = done.length := by
  have hkeys : units.keys.Nodup := by
    refine units.distinct_keys.imp fun hne heq => ?_
    simp [heq] at hne
  have hperm : units.keys.Perm (done.map Expr.id) :=
    (List.perm_ext_iff_of_nodup hkeys h.distinct).2 fun id => by
      rw [Std.HashMap.mem_keys, h.keys]
  rw [← Std.HashMap.length_keys, hperm.length_eq, List.length_map]

theorem noted_of_resolve {root : Expr} {units : UnitMap} (h : context.resolve root = .ok units) :
    Noted context root.postOrder units := by
  rcases resolve_spec context root with ⟨_, hok, hnoted⟩ | ⟨error, herror, -⟩
  · rw [hok] at h
    cases h
    exact hnoted
  · rw [herror] at h
    cases h

/-! ## The root -/

/-- Without the units of all nodes right below it a node has none, for the same cause. -/
theorem unitOf_of_unitsOf_eq_error {node : Expr} {error : FilterError}
    (h : context.unitsOf node.children = .error error) : context.unitOf node = .error error := by
  -- A list of one unit fails with that unit.
  have hsingle : ∀ {operand : Expr}, context.unitsOf [operand] = .error error →
      context.unitOf operand = .error error := by
    intro operand h
    rcases bind_eq_error_iff.1 h with h | ⟨unit, -, h⟩
    · exact h
    · cases h
  cases node with
  | field _ _ => cases h
  | literal _ _ _ => cases h
  | cast _ _ operand =>
    rw [unitOf]
    exact hsingle h
  | unary _ _ operand =>
    rw [unitOf]
    exact hsingle h
  | call _ _ arguments =>
    rw [unitOf]
    exact bind_eq_error_iff.2 (.inl h)
  | binary _ _ left right =>
    rw [unitOf]
    refine bind_eq_error_iff.2 ?_
    rcases bind_eq_error_iff.1 h with hleft | ⟨unit, hunit, h⟩
    · exact .inl hleft
    · rcases bind_eq_error_iff.1 h with hright | ⟨units, -, h⟩
      · exact .inr ⟨unit, hunit, bind_eq_error_iff.2 (.inl (hsingle hright))⟩
      · cases h

/-- The first failure in some trees is that of the first tree without a unit. -/
theorem unitsOf_eq_error_of_flatMap {es before after : List Expr} {node : Expr}
    {error : FilterError}
    (htrees : ∀ e ∈ es, context.FirstFailure e error → context.unitOf e = .error error)
    (h : es.flatMap Expr.postOrder = before ++ node :: after)
    (hbefore : ∀ earlier ∈ before, context.HasUnit earlier)
    (hnode : context.unitOf node = .error error) : context.unitsOf es = .error error := by
  induction es generalizing before with
  | nil => simp at h
  | cons e es ih =>
    rw [List.flatMap_cons] at h
    rw [unitsOf, bind_eq_error_iff]
    have htree : e.postOrder <+: before ++ node :: after := h ▸ List.prefix_append _ _
    by_cases hlength : e.postOrder.length ≤ before.length
    -- The first tree is passed with all of its nodes, so it has a unit.
    · obtain ⟨rest, rfl⟩ := List.prefix_of_prefix_length_le htree (List.prefix_append _ _) hlength
      rw [List.append_assoc] at h
      obtain ⟨unit, hunit⟩ := hbefore e (List.mem_append_left _ e.self_mem_postOrder)
      refine .inr ⟨unit, hunit, bind_eq_error_iff.2 (.inl ?_)⟩
      exact ih (fun a ha => htrees a (List.mem_cons_of_mem _ ha)) (List.append_cancel_left h)
        fun earlier hearlier => hbefore earlier (List.mem_append_right _ hearlier)
    -- The failure is in the first tree.
    · have hfailure : before ++ [node] <+: before ++ node :: after := ⟨after, by simp⟩
      obtain ⟨rest, hrest⟩ := List.prefix_of_prefix_length_le hfailure htree (by simp; omega)
      rw [List.append_assoc, List.singleton_append] at hrest
      exact .inl (htrees e List.mem_cons_self ⟨before, node, rest, hrest.symm, hbefore, hnode⟩)

/-- The first failure of a tree is that of its root. -/
theorem FirstFailure.unitOf_eq {root : Expr} {error : FilterError}
    (h : context.FirstFailure root error) : context.unitOf root = .error error := by
  induction root using Expr.induct with
  | step root ih =>
    obtain ⟨before, node, after, hroot, hbefore, hnode⟩ := h
    rw [Expr.postOrder_eq] at hroot
    rcases List.eq_nil_or_concat after with rfl | ⟨rest, last, rfl⟩
    -- The root is the last node of all.
    · obtain ⟨-, hlast⟩ := List.append_inj' hroot rfl
      obtain ⟨rfl, -⟩ := List.cons.inj hlast
      exact hnode
    · rw [List.concat_eq_append, ← List.cons_append, ← List.append_assoc] at hroot
      obtain ⟨hbelow, -⟩ := List.append_inj' hroot rfl
      exact unitOf_of_unitsOf_eq_error (unitsOf_eq_error_of_flatMap ih hbelow hbefore hnode)

/-- For a tree with distinct ids, the walk ends as the recursion at the root does. -/
theorem resolve_eq_error_iff {root : Expr} (hids : root.ids.Nodup) {error : FilterError} :
    context.resolve root = .error error ↔ context.unitOf root = .error error := by
  rcases resolve_spec context root with ⟨units, hok, hnoted⟩ | ⟨cause, hcause, hstop⟩
  · obtain ⟨unit, hunit, -⟩ := hnoted.unit root root.self_mem_postOrder
    rw [hok, hunit]
    constructor
    · intro h
      cases h
    · intro h
      cases h
  · rw [hcause, (hstop.firstFailure hids).unitOf_eq, Except.error.injEq, Except.error.injEq]

/-- For a tree with distinct ids, the unit of the root is the one that recursion gives. -/
theorem resolveRoot_eq_unitOf {root : Expr} (hids : root.ids.Nodup) :
    context.resolveRoot root = context.unitOf root := by
  rcases resolve_spec context root with ⟨units, hok, hnoted⟩ | ⟨cause, hcause, hstop⟩
  · rw [resolveRoot, hok, hnoted.unitOf_child root.self_mem_postOrder]
    rfl
  · rw [resolveRoot, hcause, (hstop.firstFailure hids).unitOf_eq]
    rfl

/-- A tree with distinct ids has the units of all its nodes if its root has one. -/
theorem exists_resolve_iff {root : Expr} (hids : root.ids.Nodup) :
    (∃ units, context.resolve root = .ok units) ↔ context.HasUnit root := by
  constructor
  · rintro ⟨units, hunits⟩
    obtain ⟨unit, hunit, -⟩ := (noted_of_resolve hunits).unit root root.self_mem_postOrder
    exact ⟨unit, hunit⟩
  · rintro ⟨unit, hunit⟩
    cases hresolve : context.resolve root with
    | ok units => exact ⟨units, rfl⟩
    | error error =>
      rw [resolve_eq_error_iff hids, hunit] at hresolve
      cases hresolve

/-! ## Failures of methods -/

/-- The first node without a unit is a call, and the rule of its method answers the units of the
    arguments with the failure. -/
def RuleFails (context : Context) (root : Expr) (error : FilterError) : Prop :=
  ∃ before id name arguments after rule units,
    root.postOrder = before ++ .call id name arguments :: after ∧
    (∀ earlier ∈ before, context.HasUnit earlier) ∧ context.methodRule name = some rule ∧
    context.unitsOf arguments = .ok units ∧ rule units = .error error

theorem RuleFails.firstFailure {root : Expr} {error : FilterError}
    (h : context.RuleFails root error) : context.FirstFailure root error := by
  obtain ⟨before, id, name, arguments, after, rule, units, hroot, hbefore, hrule, hunits,
    hanswer⟩ := h
  refine ⟨before, _, after, hroot, hbefore, ?_⟩
  rw [unitOf, hunits, hrule]
  exact hanswer

/-- A tree with distinct ids is refused for a repeated id just if the rule of a method answers
    so. -/
theorem resolve_eq_duplicateId_iff {root : Expr} (hids : root.ids.Nodup) {id : Nat} :
    context.resolve root = .error (.duplicateId id) ↔
      context.RuleFails root (.duplicateId id) := by
  constructor
  · intro h
    rcases resolve_spec context root with ⟨units, hok, -⟩ | ⟨error, herror, hstop⟩
    · rw [hok] at h
      cases h
    · rw [herror] at h
      cases h
      obtain ⟨before, node, after, unit, hroot, hbefore, hunits, hnode⟩ :=
        (hstop.firstFailure hids).exists_nodeUnit
      obtain ⟨call, name, arguments, rule, rfl, hrule, hanswer⟩ := exists_rule_of_nodeUnit hnode
      exact ⟨before, call, name, arguments, after, rule, _, hroot, hbefore, hrule,
        unitsOf_eq_map hunits, hanswer⟩
  · intro h
    exact (resolve_eq_error_iff hids).2 h.firstFailure.unitOf_eq

theorem StandardMethods.resolve_ne_duplicateId (h : context.StandardMethods) {root : Expr}
    (hids : root.ids.Nodup) (id : Nat) : context.resolve root ≠ .error (.duplicateId id) := by
  rw [ne_eq, resolve_eq_duplicateId_iff hids]
  rintro ⟨-, -, name, -, -, rule, units, -, -, hrule, -, hanswer⟩
  obtain ⟨method, -, rfl⟩ := h name rule hrule
  exact method.unit_ne_duplicateId units id hanswer

end Context

end UnitCheck
