import UnitCheck.Proofs.Parser.Numbering

/-!
  How many parts are open after a call.

  A part closes when its inside has been read; a failure inside leaves it open, and so every part
  around it. No part is closed twice, so a run that succeeds leaves the depth as it was
  (`Steps.depth_eq`), and one that fails does not lower it (`Steps.depth_le`). Since an expression
  is a part itself, a failure before its end raises the depth; only the failure behind a whole
  expression, where the text should end, leaves it alone (`depth_parse_eq_iff`). Inside of
  parentheses the depth is raised by two for each of them (`expression_eq_error_of_openings`).
-/

namespace UnitCheck.Parser

open UnitCheck.Action

variable {allowed : String → Bool} {α : Type} {p q : Parser} {error : FilterError}

/-! ## Runs -/

theorem Steps.depth {failure : Option FilterError} (h : Steps allowed p failure q) :
    p.depth ≤ q.depth ∧ (failure = none → q.depth = p.depth) := by
  induction h with
  | stay | make | read | number | quantity => exact ⟨Nat.le_refl _, fun _ => rfl⟩
  | refuseUnit | refuseToken | fail => exact ⟨Nat.le_refl _, nofun⟩
  | andThen _ _ ih ih' =>
    have hfirst := ih.2 rfl
    exact ⟨Nat.le_trans ih.1 ih'.1, fun hnone => (ih'.2 hnone).trans hfirst⟩
  | refusePart => exact ⟨Nat.le_succ _, nofun⟩
  | part _ ih =>
    -- What was opened is open still, so there is a part to close.
    have hinner := ih.2 rfl
    dsimp only at hinner ⊢
    omega
  | failInPart _ ih => exact ⟨Nat.le_of_succ_le ih.1, nofun⟩

theorem Steps.depth_le {failure : Option FilterError} (h : Steps allowed p failure q) :
    p.depth ≤ q.depth := h.depth.1

theorem Steps.depth_eq (h : Steps allowed p none q) : q.depth = p.depth := h.depth.2 rfl

theorem Stepwise.depth_eq {action : Action α} {a : α} (h : Stepwise allowed action p)
    (hrun : action.run p = (.ok a, q)) : q.depth = p.depth := by
  rw [Stepwise, hrun] at h
  exact Steps.depth_eq h

/-! ## Failures -/

/-- A part whose inside fails stays open. -/
theorem depth_lt_of_inPart_eq_error {x : Action α}
    (hx : Stepwise allowed x { p with depth := p.depth + 1 })
    (h : (inPart x).run p = (.error error, q)) : p.depth < q.depth := by
  rw [run_inPart, run_bind] at h
  rw [Stepwise] at hx
  cases hinner : x.run { p with depth := p.depth + 1 } with
  | mk result r =>
    rw [hinner] at h hx
    cases result with
    | error =>
      cases h
      exact hx.depth_le
    | ok a => cases h

/-- An expression that fails leaves a part open: itself at least. -/
theorem depth_lt_of_expression_eq_error {room : Nat}
    (h : (expression allowed room).run p = (.error error, q)) : p.depth < q.depth := by
  cases room with
  | zero =>
    rw [expression, run_refusePart] at h
    cases h
    exact Nat.lt_succ_self _
  | succ room =>
    rw [expression] at h
    have hchain : ∀ q, Stepwise allowed (chain allowed room levels) q := fun _ =>
      stepwise_chain matches_levels fun r _ => (stepwise_operand_expression allowed r).1
    exact depth_lt_of_inPart_eq_error (hchain _) h

/-! ## Failures inside parentheses -/

/-- A chain fails as its first operand does. -/
theorem chain_eq_error {room : Nat} (h : (signed allowed room).run p = (.error error, q))
    (levels : List Level) : (chain allowed room levels).run p = (.error error, q) := by
  induction levels with
  | nil =>
    rw [chain]
    exact h
  | cons level tighter ih =>
    rw [chain]
    exact run_bind_error ih

/-- An expression in parentheses that fails leaves two parts more open: the expression that starts
    with the parenthesis, and the operand that the parentheses are. -/
theorem expression_eq_error_of_opening {room : Nat} {opening : Token} {rest : List Token}
    (htokens : p.tokens = opening :: rest) (hopening : opening.kind = .symbol .openParen)
    (hnext : ∀ next ∈ rest.head?, next.kind ≠ .typeName)
    (h : (expression allowed room).run { p with tokens := rest, depth := p.depth + 2 } =
      (.error error, q)) :
    (expression allowed (room + 2)).run p = (.error error, q) := by
  rw [expression, run_inPart]
  refine run_bind_error (chain_eq_error ?_ levels)
  generalize hr : ({ p with depth := p.depth + 1 } : Parser) = r
  have hrest : r.tokens = opening :: rest := hr ▸ htokens
  have hcurrent : r.current = opening := current_of_cons hrest
  have hsign : sign? r.current.kind = none := by
    rw [hcurrent, hopening]
    rfl
  rw [signed, run_bind_ok (leadingOperator_run r), hsign]
  dsimp only
  rw [operand_succ, run_inPart]
  refine run_bind_error ?_
  have hrest' : ({ r with depth := r.depth + 1 } : Parser).tokens = opening :: rest := hrest
  have hliteral : literalValue? opening = none := by
    rw [literalValue?, hopening]
  rw [inside, run_bind_ok run_current, current_of_cons hrest', hliteral, hopening]
  dsimp only
  rw [run_bind_ok (run_advance hrest'), parenthesized, run_bind_ok (run_isNext _), if_neg ?_]
  · subst hr
    exact run_bind_error h
  -- What follows the parenthesis is no cast.
  · rw [decide_eq_true_eq]
    cases rest with
    | nil =>
      intro hkind
      cases hkind
    | cons next rest => exact hnext next rfl

/-- Each parenthesis before an expression that fails leaves two parts more open. -/
theorem expression_eq_error_of_openings {room : Nat} {openings rest : List Token}
    (htokens : p.tokens = openings ++ rest)
    (hopenings : ∀ opening ∈ openings, opening.kind = .symbol .openParen)
    (hnext : ∀ next ∈ rest.head?, next.kind ≠ .typeName)
    (h : (expression allowed room).run
        { p with tokens := rest, depth := p.depth + 2 * openings.length } = (.error error, q)) :
    (expression allowed (room + 2 * openings.length)).run p = (.error error, q) := by
  -- Induction on the parentheses: the first is followed by another or by what comes behind all of
  -- them.
  induction openings generalizing p with
  | nil =>
    rw [List.nil_append] at htokens
    subst htokens
    exact h
  | cons opening openings ih =>
    obtain ⟨hopening, hopenings⟩ := List.forall_mem_cons.1 hopenings
    rw [List.length_cons, Nat.mul_succ, ← Nat.add_assoc] at h ⊢
    refine expression_eq_error_of_opening htokens hopening ?_ ?_
    · cases openings with
      | nil => exact hnext
      | cons second openings =>
        intro next hsecond
        obtain rfl := Option.some.inj hsecond
        rw [hopenings _ List.mem_cons_self]
        exact nofun
    · refine ih rfl hopenings ?_
      rw [Nat.add_right_comm] at h
      exact h

/-! ## Calls -/

/-- A call reads an expression in full. Whether the text ends behind it is another question. -/
def ReadsExpression (p : Parser) (allowed : String → Bool) : Prop :=
  ∃ tree q, (expression allowed p.room).run p = (.ok tree, q)

theorem readsExpression_of_parse {tree : Expr} (h : p.parse allowed = (.ok tree, q)) :
    p.ReadsExpression allowed := by
  obtain ⟨e, r, hexpression, -⟩ := bind_eq_ok.1 h
  exact ⟨e, r, hexpression⟩

theorem depth_le_parse (allowed : String → Bool) (p : Parser) :
    p.depth ≤ (p.parse allowed).2.depth :=
  (steps_parse allowed p).depth_le

/-- A call leaves the depth as it was if it has read an expression, and only then. -/
theorem depth_parse_eq_iff (allowed : String → Bool) (p : Parser) :
    (p.parse allowed).2.depth = p.depth ↔ p.ReadsExpression allowed := by
  rw [parse, whole, run_bind]
  cases hexpression : (expression allowed p.room).run p with
  | mk result q =>
    cases result with
    | error error =>
      have hlt := depth_lt_of_expression_eq_error hexpression
      refine ⟨fun heq => absurd heq hlt.ne', ?_⟩
      rintro ⟨tree, r, hrun⟩
      rw [hexpression] at hrun
      cases hrun
    | ok tree =>
      -- The look at what follows leaves the depth alone, whatever it finds.
      have hend : ((isNext .eof >>= fun atEnd =>
          if atEnd then pure tree else unexpected .endOfInput).run q).2.depth = q.depth := by
        rw [run_bind_ok (run_isNext _)]
        split <;> rfl
      have hdepth : q.depth = p.depth :=
        ((stepwise_operand_expression allowed p.room).2 p).depth_eq hexpression
      exact ⟨fun _ => ⟨tree, q, hexpression⟩, fun _ => hend.trans hdepth⟩

/-! ## Calls one after the other -/

theorem parse_of_calls {validators : List (String → Bool)} {i : Nat} {call : Call}
    (h : (p.calls validators)[i]? = some call) (hallowed : validators[i]? = some allowed) :
    call.before.parse allowed = (call.result, call.after) := by
  induction validators generalizing p i with
  | nil => cases h
  | cons first more ih =>
    rw [calls] at h
    cases i with
    | zero =>
      obtain rfl := Option.some.inj h
      obtain rfl := Option.some.inj hallowed
      rfl
    | succ i => exact ih h hallowed

/-- How many parts the call left open. -/
def Call.leftOpen (call : Call) : Nat := call.after.depth - call.before.depth

/-- After a call those parts are open that were open before, and those that it left open. -/
theorem depth_after {validators : List (String → Bool)} {call : Call}
    (h : call ∈ p.calls validators) : call.after.depth = call.before.depth + call.leftOpen := by
  obtain ⟨allowed, hparse⟩ := exists_parse_of_mem_calls h
  have hle := depth_le_parse allowed call.before
  rw [hparse] at hle
  exact (Nat.add_sub_cancel' hle).symm

/-- Before a call as many parts are open as the calls before it left open. -/
theorem depth_before {validators : List (String → Bool)} {i : Nat} {call : Call}
    (h : (p.calls validators)[i]? = some call) :
    call.before.depth = p.depth + (((p.calls validators).take i).map Call.leftOpen).sum :=
  measure_before Parser.depth depth_le_parse h

end UnitCheck.Parser
