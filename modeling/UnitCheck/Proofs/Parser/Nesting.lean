import UnitCheck.Proofs.Parser.Watched

/-!
  How deep the calls of the parser nest.

  `Watched.whole` and the functions below it are the parser with notes of its calls. Recursion goes
  by the room as it does without notes, but nothing is decided by it: what fails for want of room
  fails at the guard, which asks the depth. A chain counts its links and closes them at its end, all
  at once.

  Each function follows the action without notes (`Follows`), given that the functions it calls do
  so with the room they have; the circle closes by induction on the room
  (`follows_operand_expression`). A function may call another without reading a token, so tokens
  alone do not bound the calls. But between a call of a part and the next token there are 26 events
  at most, so what is noted is paid for by the tokens that are read.
-/

namespace UnitCheck.Parser

open UnitCheck.Action

/-! ## The parser under watch -/

namespace Watched

/-- The unit after a number. -/
def unit (allowed : String → Bool) : Watched String :=
  call .unit do
    let token ← ofAction (expect .identifier)
    if allowed token.value then return token.value
    else ofAction (fail (.invalidUnit token.value token.place))

/-- A literal with its token, and with the unit that may follow a number. -/
def literal (allowed : String → Bool) (value : Except SyntaxError Literal) : Watched Expr :=
  call .literal do
    ofAction advance
    match value with
    | .error cause => ofAction (fail (.parse cause))
    | .ok value =>
      let named ← ofAction (isNext .identifier)
      if value.isNumeric && named then
        let symbol ← unit allowed
        ofAction (node (.literal · value (some symbol)))
      else ofAction (node (.literal · value none))

/-- A name, as a field or with its arguments as a call. -/
def named (expression : Watched Expr) : Watched Expr :=
  call .named do
    let name ← ofAction qualifiedName
    if ← ofAction (isNext (.symbol .openParen)) then
      ofAction advance
      if ← ofAction (isNext (.symbol .closeParen)) then
        ofAction advance
        ofAction (node (.call · name []))
      else
        let arguments ← separated expression (.symbol .comma)
        let _ ← ofAction (expect (.symbol .closeParen))
        ofAction (node (.call · name arguments))
    else ofAction (node (.field · name))

/-- A cast, after its opening parenthesis. -/
def cast (operand : Watched Expr) : Watched Expr :=
  call .cast do
    let target ← ofAction castTarget
    let inner ← operand
    ofAction (node (.cast · target inner))

/-- The inside of an operand. -/
def inside (allowed : String → Bool) (operand expression : Watched Expr) : Watched Expr :=
  call .inside do
    let token ← ofAction Action.current
    match literalValue? token with
    | some value => literal allowed value
    | none =>
      match token.kind with
      | .identifier => named expression
      | .symbol .openParen =>
        ofAction advance
        if ← ofAction (isNext .typeName) then cast operand
        else
          let inner ← expression
          let _ ← ofAction (expect (.symbol .closeParen))
          return inner
      | _ => ofAction (unexpected .operand)

mutual
/-- An expression. -/
def expression (allowed : String → Bool) : Nat → Watched Expr
  | 0 => guarded .expression (ofAction (fail (.parse .tooDeep)))
  | room + 1 => guarded .expression (level allowed room levels)
termination_by room => (room, 0)

/-- Operands joined by the operators of the first level, or an operand where there is no level. -/
def level (allowed : String → Bool) (room : Nat) : List Level → Watched Expr
  | [] => signed allowed room
  | operators :: tighter => call (.level tighter.length) (chain allowed operators tighter room)
termination_by levels => (room, 2 * levels.length + 2)

/-- Operands joined by operators, each operand being an expression of the tighter levels. -/
def chain (allowed : String → Bool) (operators : Level) (tighter : List Level) (room : Nat) :
    Watched Expr :=
  call (.chain tighter.length) do
    let left ← level allowed room tighter
    links allowed operators tighter left 0 room
termination_by (room, 2 * tighter.length + 3)

/-- What follows so many links of a chain. The parts that they are close where the chain ends. -/
def links (allowed : String → Bool) (operators : Level) (tighter : List Level) (left : Expr)
    (count room : Nat) : Watched Expr := do
  match ← ofAction (operatorOf operators) with
  | none =>
    release count
    return left
  | some op =>
    ofAction advance
    guard
    match room with
    | 0 => ofAction (fail (.parse .tooDeep))
    | room + 1 =>
      let right ← level allowed room tighter
      let node ← ofAction (node (.binary · op left right))
      links allowed operators tighter node (count + 1) room
termination_by (room, 0)

/-- An operand, maybe with an operator before it. -/
def signed (allowed : String → Bool) (room : Nat) : Watched Expr :=
  call .signed do
    match ← ofAction leadingOperator with
    | none => operand allowed room
    | some op =>
      ofAction advance
      let inner ← operand allowed room
      ofAction (node (.unary · op inner))
termination_by (room, 1)

/-- An operand. -/
def operand (allowed : String → Bool) : Nat → Watched Expr
  | 0 => guarded .operand (ofAction (fail (.parse .tooDeep)))
  | room + 1 =>
    guarded .operand (inside allowed (operand allowed room) (expression allowed room))
termination_by room => (room, 0)
end

/-- An expression that is followed by the end of the text. -/
def whole (allowed : String → Bool) (room : Nat) : Watched Expr :=
  call .whole do
    let expr ← expression allowed room
    if ← ofAction (isNext .eof) then return expr else ofAction (unexpected .endOfInput)

end Watched

/-! ## What is read on the way -/

variable {allowed : String → Bool} {p q : Parser} {room : Nat}

theorem room_eq (h : q.depth = p.depth) : q.room = p.room := by
  rw [Parser.room, Parser.room, h]

theorem Consumes.length_lt {words : List Word} {nodes : Nat} (h : p.Consumes q words nodes)
    (hwords : words ≠ []) : q.tokens.length < p.tokens.length := by
  obtain ⟨read, htokens, rfl, -⟩ := h
  rw [htokens, List.length_append]
  exact Nat.lt_add_of_pos_left (List.length_pos_iff.2 fun hnil => hwords (by rw [hnil]; rfl))

theorem length_lt_of_expect {kind : Token.Kind} {token : Token} (hkind : kind ≠ .eof)
    (h : (expect kind).run p = (.ok token, q)) : q.tokens.length < p.tokens.length :=
  (expect_eq_ok hkind h).2.length_lt (List.cons_ne_nil _ _)

/-- A name has a part at least. -/
theorem length_lt_of_qualifiedName {name : String} (h : qualifiedName.run p = (.ok name, q)) :
    q.tokens.length < p.tokens.length := by
  obtain ⟨words, parts, hparts, -, hread⟩ := qualifiedName_eq_ok h
  refine hread.length_lt ?_
  rintro rfl
  cases hparts

/-- There is a parenthesis behind the target of a cast at least. -/
theorem length_lt_of_castTarget {target : CastType} (h : castTarget.run p = (.ok target, q)) :
    q.tokens.length < p.tokens.length := by
  obtain ⟨words, closing, -, -, hread⟩ := castTarget_eq_ok h
  exact hread.length_lt (List.append_ne_nil_of_right_ne_nil words (List.cons_ne_nil _ _))

/-! ## Chains that close their links at once -/

/-- An action, and some parts that close behind it. -/
def closing {α : Type} (count : Nat) (x : Action α) : Action α := do
  let a ← x
  closeParts count
  return a

/-- A part and some more are closed at once. -/
theorem closePart_bind {α : Type} (count : Nat) (f : Unit → Action α) :
    (do closePart; closeParts count >>= f) = closeParts (count + 1) >>= f := by
  refine Action.ext fun p => ?_
  change (f ()).run { p with depth := p.depth - 1 - count } = (f ()).run _
  rw [Nat.sub_sub, Nat.add_comm 1]

theorem refusePart_bind {α β : Type} (f : α → Action β) :
    (refusePart >>= f : Action β) = refusePart :=
  Action.ext fun _ => run_bind_error run_refusePart

theorem closing_zero {α : Type} (x : Action α) : closing 0 x = x := bind_pure x

theorem closing_links_zero (operators : Level) (tighter : List Level) (left : Expr) (count : Nat) :
    closing count (links allowed operators tighter left 0) = (do
      match ← operatorOf operators with
      | none =>
        closeParts count
        return left
      | some _ =>
        advance
        refusePart) := by
  rw [closing, links, bind_assoc]
  refine congrArg _ (funext fun op => ?_)
  cases op with
  | none => rw [pure_bind]
  | some op => rw [bind_assoc, funext fun _ => refusePart_bind _]

theorem closing_links_succ (operators : Level) (tighter : List Level) (left : Expr)
    (count room : Nat) :
    closing count (links allowed operators tighter left (room + 1)) = (do
      match ← operatorOf operators with
      | none =>
        closeParts count
        return left
      | some op =>
        advance
        openPart
        let right ← chain allowed room tighter
        let node ← node (.binary · op left right)
        closing (count + 1) (links allowed operators tighter node room)) := by
  rw [closing, links, bind_assoc]
  refine congrArg _ (funext fun op => ?_)
  cases op with
  | none => rw [pure_bind]
  | some op => simp only [closing, inPart, bind_assoc, pure_bind, closePart_bind]

/-! ## What the parser does under watch -/

/-- Under watch does what an operand does, from every parser on that has so much room. -/
def FollowsOperand (allowed : String → Bool) (room : Nat) (x : Watched Expr) : Prop :=
  ∀ p : Parser, p.room = room → Follows x (operand allowed room) p room 1 (-22) 3

/-- Under watch does what an expression does, from every parser on that has so much room. -/
def FollowsExpression (allowed : String → Bool) (room : Nat) (x : Watched Expr) : Prop :=
  ∀ p : Parser, p.room = room → Follows x (expression allowed room) p room 1 (-1) 17

namespace Follows

theorem unit : Follows (Watched.unit allowed) (unitSymbol allowed) p room 1 (-25) 1 := by
  refine call rfl ?_
  refine ofAction_bind_of_lt (fun _ _ hrun => length_lt_of_expect (by simp) hrun) (by omega)
    fun token q _ => ?_
  split
  · exact pure _ _ (by omega)
  · exact ofAction_of_error rfl (by omega)

/-- A literal, where its token is read and where the text is at its end. -/
theorem literal {spent lost : Int} (value : Except SyntaxError Literal)
    (hadvance : Follows (Watched.ofAction Action.advance) Action.advance p room 1 spent 0)
    (hlost : 1 ≤ lost) (hspent : spent + 2 ≤ lost) :
    Follows (Watched.literal allowed value) (do Action.advance; Parser.literal allowed value) p
      room 2 (spent + 1) lost := by
  refine call rfl ?_
  refine hadvance.bind (Nat.le_refl _) (by omega) fun _ q _ => ?_
  cases value with
  | error cause => exact ofAction_of_error rfl (by omega)
  | ok value =>
    refine ofAction_bind (by omega) fun isUnit r _ => ?_
    split
    · exact unit.bind (Nat.le_refl _) (by omega) fun symbol s _ =>
        ofAction _ s (by omega) (by omega)
    · exact ofAction _ r (by omega) (by omega)

variable {x : Watched Expr}

theorem named (hp : p.room = room)
    (hexpression : FollowsExpression allowed room x) :
    Follows (Watched.named x) (named allowed room) p room 2 (-25) 1 := by
  refine call rfl ?_
  refine ofAction_bind_of_lt (fun _ _ hrun => length_lt_of_qualifiedName hrun) (by omega)
    fun name q hname => ?_
  have hname' : Stepwise allowed qualifiedName p := stepwise_qualifiedName
  -- The name leaves the depth, so the arguments have the room of the whole.
  have hq : q.room = room := (room_eq (hname'.depth_eq hname)).trans hp
  refine ofAction_bind (by omega) fun isCall r hr => ?_
  cases hr
  split
  · next hopening =>
    rw [decide_eq_true_eq] at hopening
    refine advance_bind (by simp [hopening]) (by omega) fun rest hrest => ?_
    refine ofAction_bind (by omega) fun isEmpty s hs => ?_
    cases hs
    split
    · next hclosing =>
      rw [decide_eq_true_eq] at hclosing
      exact advance_bind (by simp [hclosing]) (by omega) fun rest' _ =>
        ofAction _ _ (by omega) (by omega)
    · have harguments : Follows (Watched.separated x (.symbol .comma))
          (Action.separated (expression allowed room) (.symbol .comma)) (q.past rest 0) room 1 (-1)
          17 :=
        separated (by simp) (fun s hs => hexpression s ((room_eq hs).trans hq))
          (fun s _ _ hrun => ((stepwise_operand_expression allowed room).2 s).depth_eq hrun)
          (by omega) (by omega)
      refine harguments.bind (by omega) (by omega) fun arguments s _ => ?_
      exact ofAction_bind_of_lt (fun _ _ hrun => length_lt_of_expect (by simp) hrun) (by omega)
        fun _ t _ => ofAction _ t (by omega) (by omega)
  · exact ofAction _ _ (by omega) (by omega)

theorem cast (hp : p.room = room)
    (hoperand : FollowsOperand allowed room x) :
    Follows (Watched.cast x)
      (do let target ← castTarget; let inner ← operand allowed room; node (.cast · target inner))
      p room 2 (-47) 1 := by
  refine call rfl ?_
  refine ofAction_bind_of_lt (fun _ _ hrun => length_lt_of_castTarget hrun) (by omega)
    fun target q htarget => ?_
  have htarget' : Stepwise allowed castTarget p := stepwise_castTarget
  have hq : q.room = room := (room_eq (htarget'.depth_eq htarget)).trans hp
  exact (hoperand q hq).bind (Nat.le_refl _) (by omega) fun inner r _ =>
    ofAction _ r (by omega) (by omega)

theorem inside {y : Watched Expr} (hp : p.room = room)
    (hoperand : FollowsOperand allowed room x) (hexpression : FollowsExpression allowed room y) :
    Follows (Watched.inside allowed x y) (inside allowed room) p room 3 (-24) 2 := by
  refine call rfl ?_
  refine ofAction_bind (by omega) fun token q hcurrent => ?_
  cases hcurrent
  -- The kind of the next token decides: a literal, a name, a parenthesis, or a failure.
  cases hvalue : literalValue? p.current with
  | some value =>
    have hkind := ne_eof_of_literalValue? hvalue
    exact literal value (advance hkind (Int.le_refl (-26)) (Int.le_refl _)) (by omega) (by omega)
  | none =>
    dsimp only
    cases hkind : p.current.kind with
    | identifier =>
      exact (named hp hexpression).mono (Nat.le_refl _) (Nat.le_refl _) (by omega) (by omega)
    | symbol symbol =>
      cases symbol with
      | openParen =>
        refine advance_bind (by simp [hkind]) (by omega) fun rest hrest => ?_
        refine ofAction_bind (by omega) fun isCast r hr => ?_
        cases hr
        have hrest' : (p.past rest 0).room = room := hp
        split
        · exact (cast hrest' hoperand).mono (Nat.le_refl _) (Nat.le_refl _) (by omega) (by omega)
        · refine (hexpression _ hrest').bind (by omega) (by omega) fun inner s _ => ?_
          exact ofAction_bind_of_lt (fun _ _ hrun => length_lt_of_expect (by simp) hrun) (by omega)
            fun _ t _ => pure _ t (by omega)
      | _ => exact ofAction_of_error rfl (by omega)
    | _ => exact ofAction_of_error rfl (by omega)

/-- An operand, given what its parts do with room for one part less. -/
theorem operand_succ (hoperand : FollowsOperand allowed room (Watched.operand allowed room))
    (hexpression : FollowsExpression allowed room (Watched.expression allowed room)) :
    FollowsOperand allowed (room + 1) (Watched.operand allowed (room + 1)) := by
  intro p hp
  rw [Parser.room] at hp
  have hinside : Follows _ (Parser.inside allowed room) { p with depth := p.depth + 1 } room 3 (-24)
      2 := inside (by rw [Parser.room]; dsimp only; omega) hoperand hexpression
  have hkeeps := stepwise_operand_expression allowed room
  rw [Watched.operand, Parser.operand_succ]
  refine (guarded rfl (by omega) (hinside.mono (Nat.le_refl _) (by omega) (Int.le_refl _)
    (Int.le_refl _)) (by omega) fun e q hrun => ?_).mono (Nat.le_refl _) (Nat.le_refl _)
    (by omega) (by omega)
  exact (stepwise_inside hkeeps.1 hkeeps.2).depth_eq hrun

theorem signed (hp : p.room = room)
    (hoperand : FollowsOperand allowed room (Watched.operand allowed room)) :
    Follows (Watched.signed allowed room) (signed allowed room) p room 2 (-21) 4 := by
  rw [Watched.signed, Parser.signed]
  refine call rfl ?_
  refine ofAction_bind (by omega) fun sign q hsign => ?_
  rw [leadingOperator_run] at hsign
  cases hsign
  cases hop : sign? p.current.kind with
  | none =>
    exact (hoperand p hp).mono (Nat.le_refl _) (Nat.le_refl _) (by omega) (by omega)
  | some op =>
    refine advance_bind (ne_eof_of_sign? hop) (by omega) fun rest _ => ?_
    exact (hoperand (p.past rest 0) hp).bind (Nat.le_refl _) (by omega) fun inner r _ =>
      ofAction _ r (by omega) (by omega)

/-! ### Chains -/

section Chains

variable {tier : Tier} {operators : Level} {tighter : List Level} {extra : Nat} {spent cost : Int}

theorem links (hlevel : Matches tier operators)
    (hright : ∀ r < room, ∀ q, q.room = r →
      Follows (Watched.level allowed r tighter) (chain allowed r tighter) q r extra spent cost)
    (hkeeps : ∀ r q, Stepwise allowed (chain allowed r tighter) q) (hspent : spent ≤ 26)
    (hcost : cost ≤ 26) (hp : p.room = room) (left : Expr) {count : Nat}
    (hcount : count ≤ p.depth) :
    Follows (Watched.links allowed operators tighter left count room)
      (closing count (links allowed operators tighter left room)) p room extra 1 0 := by
  -- Induction on the room, for each operator opens a part that is only released behind the last
  -- one.
  induction room generalizing left count p with
  | zero =>
    rw [Parser.room] at hp
    rw [Watched.links, closing_links_zero]
    refine ofAction_bind (by omega) fun op q hrun => ?_
    rw [operatorOf_run hlevel] at hrun
    cases hrun
    cases hop : tier.operator? p.current.kind with
    | none => exact release_bind left hcount (by omega)
    | some op =>
      refine advance_bind (ne_eof_of_operator? hop) (by omega) fun rest _ => ?_
      -- Without room the guard refuses the part of the operator.
      have hdepth : maxDepth ≤ (p.past rest 0).depth := Nat.le_of_sub_eq_zero hp
      exact guard_bind_of_le hdepth _ (by omega)
  | succ room ih =>
    rw [Parser.room] at hp
    rw [Watched.links, closing_links_succ]
    refine ofAction_bind (by omega) fun op q hrun => ?_
    rw [operatorOf_run hlevel] at hrun
    cases hrun
    cases hop : tier.operator? p.current.kind with
    | none => exact release_bind left hcount (by omega)
    | some op =>
      refine advance_bind (ne_eof_of_operator? hop) (by omega) fun rest _ => ?_
      have hdepth : (p.past rest 0).depth < maxDepth := by
        change p.depth < maxDepth
        omega
      refine (guard_of_lt hdepth (by omega)).bind (Nat.le_refl _) (Int.le_refl _)
        fun _ q hopened => ?_
      cases hopened
      have hroom : Parser.room { p.past rest 0 with depth := p.depth + 1 } = room := by
        change maxDepth - (p.depth + 1) = room
        omega
      have hfirst := (hright room (Nat.lt_succ_self _) _ hroom).mono (Nat.le_succ _)
        (Nat.le_refl _) (Int.le_refl _) hcost
      refine hfirst.bind (Nat.le_refl _) (by omega) fun right r hrun => ?_
      -- The right operand leaves the depth, and the rounds to come release one part more.
      have hdepth' : r.depth = p.depth + 1 := (hkeeps room _).depth_eq hrun
      refine ofAction_bind (by omega) fun made s hmade => ?_
      cases hmade
      have hroom' : (r.past r.tokens 1).room = room := (room_eq hdepth').trans hroom
      have hcount' : count + 1 ≤ (r.past r.tokens 1).depth :=
        hdepth' ▸ Nat.succ_le_succ hcount
      have hmore := ih (fun s hs => hright s (Nat.lt_succ_of_lt hs)) hroom'
        (.binary r.builder.count op left right) hcount'
      exact hmore.mono (Nat.le_succ _) (Nat.le_refl _) (by omega) (by omega)

/-- A chain, given what its operands do. -/
theorem chain (hlevel : Matches tier operators)
    (hoperand : ∀ r ≤ room, ∀ q, q.room = r →
      Follows (Watched.level allowed r tighter) (chain allowed r tighter) q r extra spent cost)
    (hkeeps : ∀ r q, Stepwise allowed (Parser.chain allowed r tighter) q) (hspent : spent ≤ cost)
    (hcost : cost ≤ 26) (hp : p.room = room) :
    Follows (Watched.chain allowed operators tighter room)
      (Parser.chain allowed room (operators :: tighter)) p room (extra + 1) (spent + 2) (cost + 1)
      := by
  rw [Watched.chain, Parser.chain]
  refine call rfl ?_
  refine (hoperand room (Nat.le_refl _) p hp).bind (Nat.le_refl _) (by omega) fun left q hrun => ?_
  have hlinks := links hlevel (fun r hr => hoperand r (Nat.le_of_lt hr)) hkeeps (by omega) hcost
    ((room_eq ((hkeeps room p).depth_eq hrun)).trans hp) left (Nat.zero_le _)
  rw [closing_zero] at hlinks
  exact hlinks.mono (Nat.le_refl _) (Nat.le_refl _) (by omega) (by omega)

theorem level {tiers : List Tier} {levels : List Level}
    (hlevels : List.Forall₂ Matches tiers levels) (hlength : levels.length ≤ 6)
    (hoperand : ∀ r ≤ room, FollowsOperand allowed r (Watched.operand allowed r))
    (hp : p.room = room) :
    Follows (Watched.level allowed room levels) (Parser.chain allowed room levels) p room
      (2 * levels.length + 2) (3 * levels.length - 21) (2 * levels.length + 4) := by
  induction hlevels generalizing room p with
  | nil =>
    rw [Watched.level, Parser.chain]
    exact signed hp (hoperand room (Nat.le_refl _))
  | cons hlevel htighter ih =>
    rw [List.length_cons] at hlength ⊢
    rw [Watched.level]
    refine call rfl ?_
    have hchain := chain hlevel (fun r hr q => ih (by omega) (fun s hs => hoperand s (by omega)))
      (fun r q => stepwise_chain htighter fun s _ => (stepwise_operand_expression allowed s).1)
      (by omega) (by omega) hp
    exact hchain.mono (Nat.le_refl _) (by omega) (by omega) (by omega)

/-- An expression, given what operands do with less room. A chain may have used up any part of the
    room when it comes to an operand. -/
theorem expression_succ
    (hoperand : ∀ r ≤ room, FollowsOperand allowed r (Watched.operand allowed r)) :
    FollowsExpression allowed (room + 1) (Watched.expression allowed (room + 1)) := by
  intro p hp
  rw [Parser.room] at hp
  have hinner : Follows (Watched.level allowed room levels) (Parser.chain allowed room levels)
      { p with depth := p.depth + 1 } room 14 (-3) 16 :=
    level matches_levels (by decide) hoperand (by rw [Parser.room]; dsimp only; omega)
  rw [Watched.expression, expression]
  refine (guarded rfl (by omega) hinner (by omega) fun e q hrun => ?_).mono (Nat.le_refl _)
    (Nat.le_refl _) (by omega) (by omega)
  exact (stepwise_chain matches_levels fun r _ =>
    (stepwise_operand_expression allowed r).1).depth_eq hrun

end Chains

end Follows

/-- By induction on the room: each part leaves less of it. -/
theorem follows_operand_expression (allowed : String → Bool) (room : Nat) :
    FollowsOperand allowed room (Watched.operand allowed room) ∧
      FollowsExpression allowed room (Watched.expression allowed room) := by
  induction room using Nat.strongRecOn with
  | ind room ih =>
    cases room with
    | zero =>
      -- Without room both are refused at the guard.
      have hdepth : ∀ {p : Parser}, p.room = 0 → maxDepth ≤ p.depth := Nat.le_of_sub_eq_zero
      rw [FollowsOperand, FollowsExpression, Watched.operand, operand, Watched.expression,
        expression]
      exact ⟨fun p hp => (Follows.guarded_of_le (hdepth hp) _).mono (Nat.le_refl _)
          (Nat.le_refl _) (Int.le_refl _) (by omega),
        fun p hp => (Follows.guarded_of_le (hdepth hp) _).mono (Nat.le_refl _)
          (Nat.le_refl _) (Int.le_refl _) (by omega)⟩
    | succ room =>
      obtain ⟨hoperand, hexpression⟩ := ih room (Nat.lt_succ_self _)
      exact ⟨Follows.operand_succ hoperand hexpression,
        Follows.expression_succ fun r hr => (ih r (Nat.lt_succ_of_le hr)).1⟩

theorem follows_operand (allowed : String → Bool) (room : Nat) :
    FollowsOperand allowed room (Watched.operand allowed room) :=
  (follows_operand_expression allowed room).1

theorem follows_expression (allowed : String → Bool) (room : Nat) :
    FollowsExpression allowed room (Watched.expression allowed room) :=
  (follows_operand_expression allowed room).2

theorem follows_whole : Follows (Watched.whole allowed p.room) (whole allowed p.room) p p.room 2 0
    18 := by
  refine Follows.call rfl ?_
  refine (follows_expression allowed p.room p rfl).bind (Nat.le_refl _) (by omega) fun e q _ => ?_
  refine Follows.ofAction_bind (by omega) fun atEnd r _ => ?_
  split
  · exact Follows.pure e r (by omega)
  · exact Follows.ofAction_of_error rfl (by omega)

end UnitCheck.Parser
