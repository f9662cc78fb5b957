import UnitCheck.Proofs.Parser.Nesting

/-!
  The discipline of the functions of the parser.

  What is noted of a run fits the room and is paid for (`Follows`), and the steps it is made of keep
  the depth (`KeepsDepth`). Together this is what each function is called disciplined for: its own
  result and depth, the calls nested in it, and the lowerings of the depth on the way.
-/

namespace UnitCheck.Parser

open UnitCheck.Action

variable {allowed : String → Bool} {p q : Parser}

/-! ## The depth after an action -/

/-- The depth is as it was where the action succeeds, and not below that where it fails. -/
def KeepsDepth {α : Type} (x : Action α) (p : Parser) : Prop :=
  p.depth ≤ (x.run p).2.depth ∧ (failure? (x.run p).1 = none → (x.run p).2.depth = p.depth)

section KeepsDepth

variable {α β : Type}

theorem Stepwise.keepsDepth {x : Action α} (h : Stepwise allowed x p) : KeepsDepth x p :=
  Steps.depth h

theorem KeepsDepth.of_eq {x : Action α} (h : (x.run p).2.depth = p.depth) : KeepsDepth x p :=
  ⟨h.ge, fun _ => h⟩

theorem KeepsDepth.bind {x : Action α} {f : α → Action β} (hx : KeepsDepth x p)
    (hf : ∀ a q, x.run p = (.ok a, q) → KeepsDepth (f a) q) : KeepsDepth (x >>= f) p := by
  rw [KeepsDepth] at hx ⊢
  cases hrun : x.run p with
  | mk result q =>
    rw [hrun] at hx
    cases result with
    | error cause =>
      rw [run_bind_error hrun]
      exact hx
    | ok a =>
      obtain ⟨hle, heq⟩ := hf a q hrun
      have hq : q.depth = p.depth := hx.2 rfl
      rw [run_bind_ok hrun]
      exact ⟨hq.ge.trans hle, fun hnone => (heq hnone).trans hq⟩

theorem keepsDepth_unitSymbol : KeepsDepth (unitSymbol allowed) p := by
  have hexpect : Stepwise allowed (expect .identifier) p := stepwise_expect noNumber_identifier
  refine hexpect.keepsDepth.bind fun token q _ => ?_
  split <;> exact .of_eq rfl

theorem keepsDepth_literal (value : Except SyntaxError Literal) :
    KeepsDepth (do advance; literal allowed value) p := by
  have hadvance : KeepsDepth advance p := .of_eq rfl
  refine hadvance.bind fun _ q _ => ?_
  cases value with
  | error cause => exact .of_eq rfl
  | ok value =>
    have hnext : KeepsDepth (isNext .identifier) q := .of_eq rfl
    refine hnext.bind fun isUnit r _ => ?_
    split
    · exact keepsDepth_unitSymbol.bind fun symbol s _ => .of_eq rfl
    · exact .of_eq rfl

end KeepsDepth

/-! ## Discipline -/

/-- From the parser on, the watched action does what the action does. Where it succeeds it leaves
    the depth as it was, and where it fails not below that. The depth is never lowered by more than
    it is. At any time no more calls of parts that there was room for are nested than there is room
    for, the other calls are bounded with them, and there is an end to the calls. -/
structure Disciplined {α : Type} (x : Watched α) (y : Action α) (p : Parser) : Prop where
  same : x.action.run p = y.run p
  depth_eq : ∀ a q, y.run p = (.ok a, q) → q.depth = p.depth
  depth_le : ∀ cause q, y.run p = (.error cause, q) → p.depth ≤ q.depth
  release_le : ∀ parts depth, .release parts depth ∈ x.events p → parts ≤ depth
  admitted_le : ∀ stack, .call stack ∈ x.events p → admitted stack ≤ p.room
  length_le : ∀ stack, .call stack ∈ x.events p → stack.length ≤ 14 * (p.room + 1)
  events_le : (x.events p).length ≤ 26 * (p.tokens.length + 1)

theorem Follows.disciplined {α : Type} {x : Watched α} {y : Action α} {extra : Nat}
    {won lost : Int} (h : Follows x y p p.room extra won lost)
    (hbounds : extra ≤ 14 ∧ won ≤ 26 ∧ lost ≤ 26) (hdepth : KeepsDepth y p) :
    Disciplined x y p where
  same := h.same
  depth_eq a q hrun := by
    rw [KeepsDepth, hrun] at hdepth
    exact hdepth.2 rfl
  depth_le cause q hrun := by
    rw [KeepsDepth, hrun] at hdepth
    exact hdepth.1
  release_le parts depth hevent := h.fits _ hevent
  admitted_le stack hevent := (h.fits _ hevent).1
  length_le stack hevent := by
    obtain ⟨hadmitted, hlength⟩ := h.fits _ hevent
    omega
  -- Every token that is read pays for its events, also if the run ends with a failure.
  events_le := by
    cases hrun : y.run p with
    | mk result q =>
      cases result with
      | error cause =>
        have hpaid := h.paidByFailure cause q hrun
        omega
      | ok a =>
        have hpaid := h.paid a q hrun
        omega

section Functions

variable (allowed) (p)

theorem disciplined_whole :
    Disciplined (Watched.whole allowed p.room) (whole allowed p.room) p :=
  follows_whole.disciplined (by decide) (steps_parse allowed p).depth

theorem disciplined_operand :
    Disciplined (Watched.operand allowed p.room) (operand allowed p.room) p :=
  (follows_operand allowed p.room p rfl).disciplined (by decide)
    ((stepwise_operand_expression allowed p.room).1 p).keepsDepth

theorem disciplined_expression :
    Disciplined (Watched.expression allowed p.room) (expression allowed p.room) p :=
  (follows_expression allowed p.room p rfl).disciplined (by decide)
    ((stepwise_operand_expression allowed p.room).2 p).keepsDepth

theorem disciplined_signed :
    Disciplined (Watched.signed allowed p.room) (signed allowed p.room) p :=
  (Follows.signed rfl (follows_operand allowed p.room)).disciplined (by decide)
    (stepwise_signed (stepwise_operand_expression allowed p.room).1).keepsDepth

theorem disciplined_inside :
    Disciplined
      (Watched.inside allowed (Watched.operand allowed p.room) (Watched.expression allowed p.room))
      (inside allowed p.room) p := by
  obtain ⟨hoperand, hexpression⟩ := stepwise_operand_expression allowed p.room
  have hinside := Follows.inside rfl (follows_operand allowed p.room)
    (follows_expression allowed p.room)
  exact hinside.disciplined (by decide) (stepwise_inside hoperand hexpression).keepsDepth

theorem disciplined_named :
    Disciplined (Watched.named (Watched.expression allowed p.room)) (named allowed p.room) p :=
  (Follows.named rfl (follows_expression allowed p.room)).disciplined (by decide)
    (stepwise_named (stepwise_operand_expression allowed p.room).2).keepsDepth

theorem disciplined_cast :
    Disciplined (Watched.cast (Watched.operand allowed p.room))
      (do
        let target ← castTarget
        let inner ← operand allowed p.room
        node (.cast · target inner)) p := by
  have hcast : Stepwise allowed (do
      let target ← castTarget
      let inner ← operand allowed p.room
      node (.cast · target inner)) p :=
    stepwise_castTarget.bind fun _ q _ =>
      ((stepwise_operand_expression allowed p.room).1 q).bind fun _ _ _ => stepwise_node _
  exact (Follows.cast rfl (follows_operand allowed p.room)).disciplined (by decide)
    hcast.keepsDepth

theorem disciplined_literal (value : Except SyntaxError Literal) :
    Disciplined (Watched.literal allowed value) (do advance; literal allowed value) p :=
  -- The token may be missing here, and then pays for nothing.
  have hadvance : Follows (Watched.ofAction advance) advance p p.room 1 0 0 :=
    Follows.ofAction advance p (Int.le_refl 0) (Int.le_refl 0)
  have hliteral : Follows (Watched.literal allowed value) (do advance; literal allowed value) p
      p.room 2 1 2 :=
    Follows.literal value hadvance (by decide) (by decide)
  hliteral.disciplined (by decide) (keepsDepth_literal value)

theorem disciplined_unit : Disciplined (Watched.unit allowed) (unitSymbol allowed) p :=
  Follows.unit.disciplined (by decide) keepsDepth_unitSymbol

theorem disciplined_level (n : Nat) :
    Disciplined (Watched.level allowed p.room (levels.drop n))
      (chain allowed p.room (levels.drop n)) p := by
  have hlevels := List.forall₂_drop n matches_levels
  have hlength : (levels.drop n).length ≤ 6 := by
    rw [List.length_drop]
    exact Nat.sub_le _ _
  have hlevel := Follows.level hlevels hlength (fun r _ => follows_operand allowed r)
    (p := p) rfl
  refine hlevel.disciplined (by omega) (stepwise_chain hlevels fun r _ => ?_).keepsDepth
  exact (stepwise_operand_expression allowed r).1

theorem disciplined_chain (n : Fin levels.length) :
    Disciplined (Watched.chain allowed levels[n] (levels.drop (n + 1)) p.room)
      (chain allowed p.room (levels.drop n)) p := by
  have hcons := List.drop_eq_getElem_cons n.isLt
  have hlevels := List.forall₂_drop n matches_levels
  rw [hcons] at hlevels ⊢
  obtain ⟨tier, tiers, hlevel, htighter, -⟩ := List.forall₂_cons_right_iff.1 hlevels
  have hlength : (levels.drop (n + 1)).length ≤ 5 := by
    rw [List.length_drop]
    exact Nat.sub_le_sub_left (Nat.le_add_left 1 n) 6
  -- Tighter chains leave the depth, and the loop around them is that of one level.
  have hoperands : ∀ r q, Stepwise allowed (chain allowed r (levels.drop (n + 1))) q := fun r _ =>
    stepwise_chain htighter fun s _ => (stepwise_operand_expression allowed s).1
  have hchain := Follows.chain hlevel (p := p)
    (fun r _ q hq => Follows.level htighter (by omega) (fun r _ => follows_operand allowed r) hq)
    hoperands (by omega) (by omega) rfl
  refine hchain.disciplined (by omega) ?_
  exact (stepwise_chain (.cons hlevel htighter) fun s _ =>
    (stepwise_operand_expression allowed s).1).keepsDepth

end Functions

/-- Every function of the parser is disciplined, from every parser on: whatever its tokens are and
    however deep it is. A parser that starts has room for 200 parts. -/
theorem calls_disciplined (allowed : String → Bool) (p : Parser) :
    Disciplined (Watched.whole allowed p.room) (whole allowed p.room) p ∧
    Disciplined (Watched.expression allowed p.room) (expression allowed p.room) p ∧
    (∀ n, Disciplined (Watched.level allowed p.room (levels.drop n))
      (chain allowed p.room (levels.drop n)) p) ∧
    (∀ n : Fin levels.length,
      Disciplined (Watched.chain allowed levels[n] (levels.drop (n + 1)) p.room)
        (chain allowed p.room (levels.drop n)) p) ∧
    Disciplined (Watched.signed allowed p.room) (signed allowed p.room) p ∧
    Disciplined (Watched.operand allowed p.room) (operand allowed p.room) p ∧
    Disciplined
      (Watched.inside allowed (Watched.operand allowed p.room) (Watched.expression allowed p.room))
      (inside allowed p.room) p ∧
    Disciplined (Watched.named (Watched.expression allowed p.room)) (named allowed p.room) p ∧
    Disciplined (Watched.cast (Watched.operand allowed p.room))
      (do
        let target ← castTarget
        let inner ← operand allowed p.room
        node (.cast · target inner)) p ∧
    (∀ value, Disciplined (Watched.literal allowed value) (do advance; literal allowed value) p) ∧
    Disciplined (Watched.unit allowed) (unitSymbol allowed) p ∧
    ∀ tokens finish builder stack,
      .call stack ∈ (Watched.whole allowed maxDepth).events ⟨tokens, finish, 0, builder⟩ →
        admitted stack ≤ 200 ∧ stack.length ≤ 14 * 201 := by
  refine ⟨disciplined_whole allowed p, disciplined_expression allowed p,
    disciplined_level allowed p, disciplined_chain allowed p, disciplined_signed allowed p,
    disciplined_operand allowed p, disciplined_inside allowed p, disciplined_named allowed p,
    disciplined_cast allowed p, disciplined_literal allowed p, disciplined_unit allowed p, ?_⟩
  intro tokens finish builder stack hstack
  have hfresh := disciplined_whole allowed ⟨tokens, finish, 0, builder⟩
  exact ⟨hfresh.admitted_le stack hstack, hfresh.length_le stack hstack⟩

-- With room for one part more, an operand that opens a parenthesis has no room for what is in it.
example : (Watched.operand (fun _ => true) 1).events
    ⟨[⟨.symbol .openParen, "(", .start⟩], ⟨1, 1, 2⟩, 199, .new⟩ =
      [.call [⟨.operand, 199⟩], .call [⟨.inside, 200⟩, ⟨.operand, 199⟩],
        .call [⟨.expression, 200⟩, ⟨.inside, 200⟩, ⟨.operand, 199⟩]] := by
  cbv

end UnitCheck.Parser
