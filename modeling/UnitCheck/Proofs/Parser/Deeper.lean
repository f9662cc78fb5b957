import UnitCheck.Proofs.Parser.Depth

/-!
  The same tokens, read at another depth and from another count of nodes.

  What a parser reads does not depend on the depth, except that there may be no room for a part,
  and its nodes depend on the count by their ids only. `Action.Shadows` says both of two actions
  in one piece, and composes like the actions do: one lemma for each way to build an action, then
  one for each function of the parser, the recursive ones by induction on the room. So for the
  tokens that are left there is a number of parts that they need (`exists_needs`): at a depth that
  leaves room for as many, the parser answers as a fresh one would, up to a shift of ids, and at
  any greater depth it answers that the text is too deeply nested. A failure inside of many
  parentheses (`parse_eq_error_of_openings`) leaves no room for what a fresh parser reads.
-/

namespace UnitCheck

/-! ## Shifts of ids -/

namespace Expr

mutual
/-- The tree with all ids raised by a constant. -/
def shift (nodes : Nat) : Expr → Expr
  | field id name => field (id + nodes) name
  | literal id value unit => literal (id + nodes) value unit
  | cast id target operand => cast (id + nodes) target (operand.shift nodes)
  | call id name arguments => call (id + nodes) name (shiftAll nodes arguments)
  | binary id op left right => binary (id + nodes) op (left.shift nodes) (right.shift nodes)
  | unary id op operand => unary (id + nodes) op (operand.shift nodes)

/-- The trees with all ids raised by a constant. -/
def shiftAll (nodes : Nat) : List Expr → List Expr
  | [] => []
  | e :: es => e.shift nodes :: shiftAll nodes es
end

theorem shiftAll_eq_map (nodes : Nat) (es : List Expr) :
    shiftAll nodes es = es.map (shift nodes) := by
  induction es with
  | nil => rfl
  | cons e es ih => rw [shiftAll, ih, List.map_cons]

end Expr

namespace Parser

/-- The parser with more parts open and more nodes counted. -/
def deeper (p : Parser) (parts nodes : Nat) : Parser :=
  { p with depth := p.depth + parts, builder := ⟨p.builder.count + nodes⟩ }

/-- The parser with no part open and no node counted, as one that starts at the tokens left. -/
def fresh (p : Parser) : Parser := { p with depth := 0, builder := .new }

theorem deeper_deeper (p : Parser) (parts parts' nodes nodes' : Nat) :
    (p.deeper parts nodes).deeper parts' nodes' = p.deeper (parts + parts') (nodes + nodes') := by
  simp only [deeper, Nat.add_assoc]

/-- A parser is the fresh one at its depth and its count. -/
theorem deeper_fresh (p : Parser) : p.fresh.deeper p.depth p.builder.count = p := by
  simp only [deeper, fresh, ExprBuilder.new, Nat.zero_add]

end Parser

/-! ## Actions -/

namespace Action

open UnitCheck.Parser (Stepwise)

variable {α β : Type} {short : Prop} {parts nodes : Nat}

/-- From a parser with more parts open and more nodes counted, the second action does what the
    first does from the parser itself, with its value changed. If it is short of room, it may
    fail for that instead. -/
def Shadows (short : Prop) (parts nodes : Nat) (change : α → α) (x x' : Action α) : Prop :=
  ∀ p : Parser,
    x'.run (p.deeper parts nodes) = ((x.run p).1.map change, (x.run p).2.deeper parts nodes) ∨
      short ∧ (x'.run (p.deeper parts nodes)).1 = .error (.parse .tooDeep)

/-- A failure ends what it stands at the start of. -/
theorem fst_run_bind_of_error {x : Action α} {f : α → Action β} {p : Parser} {e : FilterError}
    (h : (x.run p).1 = .error e) : ((x >>= f).run p).1 = .error e := by
  rw [run_bind]
  cases hrun : x.run p with
  | mk result q =>
    rw [hrun] at h
    obtain rfl := h
    rfl

theorem shadows_pure {change : α → α} {a a' : α} (h : a' = change a) :
    Shadows short parts nodes change (pure a) (pure a') := fun _ => .inl (by rw [h]; rfl)

theorem Shadows.bind {x x' : Action α} {f f' : α → Action β} {change : α → α}
    {change' : β → β} (hx : Shadows short parts nodes change x x')
    (hf : ∀ a, Shadows short parts nodes change' (f a) (f' (change a))) :
    Shadows short parts nodes change' (x >>= f) (x' >>= f') := by
  intro p
  rcases hx p with hx | ⟨hshort, hx⟩
  · rw [run_bind, run_bind, hx]
    cases x.run p with
    | mk result q =>
      cases result with
      | error e => exact .inl rfl
      | ok a => exact hf a q
  -- Without room for a part of the first action the second is not reached.
  · exact .inr ⟨hshort, fst_run_bind_of_error hx⟩

/-- Actions after one whose value is the same from either parser. -/
theorem Shadows.bind_same {x x' : Action α} {f f' : α → Action β} {change : β → β}
    (hx : Shadows short parts nodes id x x')
    (hf : ∀ a, Shadows short parts nodes change (f a) (f' a)) :
    Shadows short parts nodes change (x >>= f) (x' >>= f') := hx.bind hf

theorem shadows_current : Shadows short parts nodes id current current := fun _ => .inl rfl

theorem shadows_isNext (kind : Token.Kind) :
    Shadows short parts nodes id (isNext kind) (isNext kind) := fun _ => .inl rfl

theorem shadows_advance : Shadows short parts nodes id advance advance := fun _ => .inl rfl

theorem shadows_fail (change : α → α) (error : FilterError) :
    Shadows short parts nodes change (fail error) (fail error) := fun _ => .inl rfl

theorem shadows_unexpected (change : α → α) (expected : Expected) :
    Shadows short parts nodes change (unexpected expected) (unexpected expected) :=
  fun _ => .inl rfl

theorem shadows_expect (kind : Token.Kind) :
    Shadows short parts nodes id (expect kind) (expect kind) := by
  rw [expect]
  refine shadows_current.bind_same fun token => ?_
  split
  · exact shadows_advance.bind_same fun _ => shadows_pure rfl
  · exact shadows_unexpected _ _

theorem shadows_node {make make' : Nat → Expr}
    (h : ∀ id, make' (id + nodes) = (make id).shift nodes) :
    Shadows short parts nodes (Expr.shift nodes) (node make) (node make') := by
  intro p
  left
  rw [run_node, run_node]
  change (Except.ok (make' (p.builder.count + nodes)), _) = _
  rw [h, Parser.deeper, Parser.deeper, Parser.past, Parser.past]
  simp only [Except.map, Nat.add_right_comm]

/-! ### Parts -/

theorem shadows_refusePart (change : α → α) :
    Shadows short parts nodes change refusePart refusePart := by
  intro p
  left
  rw [run_refusePart, run_refusePart]
  simp only [Parser.deeper, Nat.add_right_comm, Except.map]

/-- Without room for a part that the other action has room for. -/
theorem shadows_refusePart_of_short (h : short) (change : α → α) (x : Action α) :
    Shadows short parts nodes change x refusePart := fun _ => .inr ⟨h, rfl⟩

theorem Shadows.inPart {allowed : String → Bool} {change : α → α} {x x' : Action α}
    (h : Shadows short parts nodes change x x') (hsteps : ∀ p, Stepwise allowed x p) :
    Shadows short parts nodes change (inPart x) (inPart x') := by
  intro p
  have hopen : ({ p.deeper parts nodes with depth := (p.deeper parts nodes).depth + 1 } : Parser) =
      ({ p with depth := p.depth + 1 } : Parser).deeper parts nodes := by
    simp only [Parser.deeper, Nat.add_right_comm]
  rw [run_inPart, run_inPart, hopen]
  rcases h { p with depth := p.depth + 1 } with h | ⟨hshort, h⟩
  · left
    rw [run_bind, run_bind, h]
    cases hx : x.run { p with depth := p.depth + 1 } with
    | mk result q =>
      cases result with
      | error e => rfl
      | ok a =>
        -- The part is open still, so closing it takes one from the depth of either parser.
        have hdepth : q.depth = p.depth + 1 := (hsteps _).depth_eq hx
        have hclose : q.depth + parts - 1 = q.depth - 1 + parts := by omega
        change (Except.ok (change a), ({ q.deeper parts nodes with
          depth := q.depth + parts - 1 } : Parser)) = _
        rw [hclose]
        rfl
  · exact .inr ⟨hshort, fst_run_bind_of_error h⟩

/-! ### Loops -/

theorem Shadows.separated {change : α → α} {item item' : Action α}
    (h : Shadows short parts nodes change item item') (separator : Token.Kind) :
    Shadows short parts nodes (List.map change) (separated item separator)
      (separated item' separator) := by
  intro p
  induction p using @round_induct α item with
  | round p ih =>
    rcases h p with hfirst | ⟨hshort, hfirst⟩
    · cases hrun : item.run p with
      | mk result q =>
        rw [hrun] at hfirst
        cases result with
        | error e =>
          left
          rw [run_separated_error hrun, run_separated_error hfirst]
          rfl
        | ok a =>
          rcases separator_or_last q separator with ⟨token, rest, htokens, hkind⟩ | hlast
          · have hpast : (q.deeper parts nodes).past rest 0 =
                (q.past rest 0).deeper parts nodes := rfl
            rw [run_separated_more hrun htokens hkind, run_separated_more hfirst htokens hkind,
              hpast]
            rcases ih a q token rest hrun htokens with hmore | ⟨hshort, hmore⟩
            · left
              rw [hmore]
              cases hrest : (Action.separated item separator).run (q.past rest 0) with
              | mk result r => cases result <;> rfl
            · refine .inr ⟨hshort, ?_⟩
              cases hrest : (Action.separated item' separator).run
                  ((q.past rest 0).deeper parts nodes) with
              | mk result r =>
                rw [hrest] at hmore
                obtain rfl := hmore
                rfl
          · left
            rw [run_separated_last hrun hlast, run_separated_last hfirst hlast]
            rfl
    -- Without room in its first item the loop ends there.
    · refine .inr ⟨hshort, ?_⟩
      cases hrun : item'.run (p.deeper parts nodes) with
      | mk result q =>
        rw [hrun] at hfirst
        obtain rfl := hfirst
        rw [run_separated_error hrun]

end Action

namespace Parser

open UnitCheck.Action

variable {allowed : String → Bool} {short : Prop} {parts nodes : Nat}

/-! ## Operands without expressions inside -/

theorem shadows_literal (value : Except SyntaxError Literal) :
    Shadows short parts nodes (Expr.shift nodes) (literal allowed value)
      (literal allowed value) := by
  cases value with
  | error cause => exact shadows_fail _ _
  | ok value =>
    rw [literal]
    refine (shadows_isNext _).bind_same fun named => ?_
    split
    · have hunit : Shadows short parts nodes id (unitSymbol allowed) (unitSymbol allowed) := by
        rw [unitSymbol]
        refine (shadows_expect _).bind_same fun token => ?_
        split
        · exact shadows_pure rfl
        · exact shadows_fail _ _
      exact hunit.bind_same fun _ => shadows_node fun _ => rfl
    · exact shadows_node fun _ => rfl

theorem shadows_qualifiedName : Shadows short parts nodes id qualifiedName qualifiedName := by
  have hname : Shadows short parts nodes id (expect .identifier) (expect .identifier) :=
    shadows_expect _
  have hnames := hname.separated (.symbol .dot)
  rw [List.map_id_fun] at hnames
  rw [qualifiedName]
  exact hnames.bind_same fun _ => shadows_pure rfl

theorem shadows_castTarget : Shadows short parts nodes id castTarget castTarget := by
  rw [castTarget]
  refine (shadows_expect _).bind_same fun token => ?_
  split
  · exact shadows_fail _ _
  · refine (shadows_isNext _).bind_same fun mark => ?_
    dsimp only
    split
    · exact shadows_advance.bind_same fun _ =>
        (shadows_expect _).bind_same fun _ => shadows_pure rfl
    · exact (shadows_expect _).bind_same fun _ => shadows_pure rfl

/-! ## Expressions -/

theorem shadows_operatorOf (level : Level) :
    Shadows short parts nodes id (operatorOf level) (operatorOf level) := by
  rw [operatorOf]
  exact shadows_current.bind_same fun _ => shadows_pure rfl

theorem shadows_leadingOperator : Shadows short parts nodes id leadingOperator leadingOperator := by
  intro p
  left
  rw [leadingOperator_run, leadingOperator_run]
  rfl

/-- The action with less room, or with as much, shadows the action with more. -/
def ShadowsBelow (short : Prop) (parts nodes : Nat) (action : Nat → Action Expr)
    (room : Nat) : Prop :=
  ∀ room' ≤ room, (room' < room → short) →
    Shadows short parts nodes (Expr.shift nodes) (action room) (action room')

theorem shadowsBelow_links {tier : Tier} {level : Level} {tiers : List Tier} {levels : List Level}
    (hlevel : Matches tier level) (hlevels : List.Forall₂ Matches tiers levels) {room : Nat}
    (hchain : ∀ r < room, ShadowsBelow short parts nodes (chain allowed · levels) r)
    (left : Expr) {room' : Nat} (hroom : room' ≤ room) (hshort : room' < room → short) :
    Shadows short parts nodes (Expr.shift nodes) (links allowed level levels left room)
      (links allowed level levels (left.shift nodes) room') := by
  -- By induction on the room: each link of the chain takes some of it.
  induction room generalizing left room' with
  | zero =>
    obtain rfl := Nat.le_zero.1 hroom
    rw [links, links]
    refine (shadows_operatorOf _).bind_same fun op => ?_
    cases op with
    | none => exact shadows_pure rfl
    | some op => exact shadows_advance.bind_same fun _ => shadows_refusePart _
  | succ room ih =>
    rw [links, links]
    refine (shadows_operatorOf _).bind_same fun op => ?_
    cases op with
    | none => exact shadows_pure rfl
    | some op =>
      refine shadows_advance.bind_same fun _ => ?_
      cases room' with
      | zero => exact shadows_refusePart_of_short (hshort (Nat.succ_pos _)) _ _
      | succ room' =>
        have hroom := Nat.le_of_succ_le_succ hroom
        have hshort : room' < room → short := fun h => hshort (Nat.succ_lt_succ h)
        have hsteps : ∀ r p, Stepwise allowed (chain allowed r levels) p := fun _ _ =>
          stepwise_chain hlevels fun s _ => (stepwise_operand_expression allowed s).1
        refine Shadows.inPart ?_ fun p => (?_ : Stepwise allowed _ p)
        · refine (hchain room (Nat.lt_succ_self _) room' hroom hshort).bind fun right => ?_
          exact (shadows_node fun _ => rfl).bind fun node =>
            ih (fun r hr => hchain r (Nat.lt_succ_of_lt hr)) node hroom hshort
        · refine (hsteps room p).bind fun _ _ _ => (stepwise_node _).bind fun node _ _ => ?_
          exact stepwise_links hlevel (fun r _ p => hsteps r p) node

theorem shadowsBelow_signed {room : Nat}
    (h : ShadowsBelow short parts nodes (operand allowed) room) :
    ShadowsBelow short parts nodes (signed allowed) room := by
  intro room' hroom hshort
  have hoperand := h room' hroom hshort
  rw [signed, signed]
  refine shadows_leadingOperator.bind_same fun op => ?_
  cases op with
  | none => exact hoperand
  | some op =>
    exact shadows_advance.bind_same fun _ => hoperand.bind fun _ => shadows_node fun _ => rfl

/-- A chain with less room shadows, if operands do. -/
theorem shadowsBelow_chain {tiers : List Tier} {levels : List Level}
    (hlevels : List.Forall₂ Matches tiers levels) {room : Nat}
    (h : ∀ r ≤ room, ShadowsBelow short parts nodes (operand allowed) r) :
    ShadowsBelow short parts nodes (chain allowed · levels) room := by
  -- Induction on the levels, as the chain calls the tighter ones.
  induction hlevels generalizing room with
  | nil =>
    intro room' hroom hshort
    have hsigned := shadowsBelow_signed (h room (Nat.le_refl _)) room' hroom hshort
    dsimp only
    rw [chain, chain]
    exact hsigned
  | cons hlevel hlevels ih =>
    intro room' hroom hshort
    dsimp only
    rw [chain, chain]
    refine (ih h room' hroom hshort).bind fun left => ?_
    exact shadowsBelow_links hlevel hlevels (fun r hr => ih fun s hs => h s (by omega)) left
      hroom hshort

theorem shadowsBelow_named {room : Nat}
    (h : ShadowsBelow short parts nodes (expression allowed) room) :
    ShadowsBelow short parts nodes (named allowed) room := by
  intro room' hroom hshort
  have hexpression := h room' hroom hshort
  rw [named, named]
  refine shadows_qualifiedName.bind_same fun name => ?_
  refine (shadows_isNext _).bind_same fun opening => ?_
  split
  · refine shadows_advance.bind_same fun _ => (shadows_isNext _).bind_same fun closing => ?_
    split
    · exact shadows_advance.bind_same fun _ => shadows_node fun _ => rfl
    · refine (hexpression.separated _).bind fun arguments => ?_
      refine (shadows_expect _).bind_same fun _ => shadows_node fun _ => ?_
      rw [Expr.shift, Expr.shiftAll_eq_map]
  · exact shadows_node fun _ => rfl

theorem shadowsBelow_parenthesized {room : Nat}
    (hoperand : ShadowsBelow short parts nodes (operand allowed) room)
    (hexpression : ShadowsBelow short parts nodes (expression allowed) room) :
    ShadowsBelow short parts nodes (parenthesized allowed) room := by
  intro room' hroom hshort
  rw [parenthesized, parenthesized]
  refine (shadows_isNext _).bind_same fun isCast => ?_
  split
  · refine shadows_castTarget.bind_same fun target => ?_
    exact (hoperand room' hroom hshort).bind fun _ => shadows_node fun _ => rfl
  · refine (hexpression room' hroom hshort).bind fun _ => ?_
    exact (shadows_expect _).bind_same fun _ => shadows_pure rfl

/-- The inside of an operand with less room shadows, if its parts do. -/
theorem shadowsBelow_inside {room : Nat}
    (hoperand : ShadowsBelow short parts nodes (operand allowed) room)
    (hexpression : ShadowsBelow short parts nodes (expression allowed) room) :
    ShadowsBelow short parts nodes (inside allowed) room := by
  intro room' hroom hshort
  rw [inside, inside]
  refine shadows_current.bind_same fun token => ?_
  split
  · exact shadows_advance.bind_same fun _ => shadows_literal _
  · split
    · exact shadowsBelow_named hexpression room' hroom hshort
    · exact shadows_advance.bind_same fun _ =>
        shadowsBelow_parenthesized hoperand hexpression room' hroom hshort
    · exact shadows_unexpected _ _

/-- A part with less room shadows, if its inside does with room for one part less. -/
theorem shadowsBelow_part {action inner : Nat → Action Expr} {room : Nat}
    (hzero : action 0 = refusePart) (hsucc : ∀ r, action (r + 1) = inPart (inner r))
    (hsteps : ∀ r p, Stepwise allowed (inner r) p)
    (h : ∀ r < room, ShadowsBelow short parts nodes inner r) :
    ShadowsBelow short parts nodes action room := by
  intro room' hroom hshort
  -- Without room a part is refused on both sides, or on the short side only.
  cases room' with
  | zero =>
    rw [hzero]
    cases room with
    | zero =>
      rw [hzero]
      exact shadows_refusePart _
    | succ room => exact shadows_refusePart_of_short (hshort (Nat.succ_pos _)) _ _
  | succ room' =>
    cases room with
    | zero => exact absurd hroom (Nat.not_succ_le_zero _)
    | succ room =>
      rw [hsucc, hsucc]
      refine Shadows.inPart ?_ (hsteps room)
      exact h room (Nat.lt_succ_self _) room' (Nat.le_of_succ_le_succ hroom)
        fun hlt => hshort (Nat.succ_lt_succ hlt)

theorem shadowsBelow_operand_expression (allowed : String → Bool) (short : Prop)
    (parts nodes room : Nat) :
    ShadowsBelow short parts nodes (operand allowed) room ∧
      ShadowsBelow short parts nodes (expression allowed) room := by
  induction room using Nat.strongRecOn with
  | ind room ih =>
    have hsteps := stepwise_operand_expression allowed
    have hinside : ∀ r p, Stepwise allowed (inside allowed r) p := fun r _ =>
      stepwise_inside (hsteps r).1 (hsteps r).2
    have hchain : ∀ r p, Stepwise allowed (chain allowed r levels) p := fun _ _ =>
      stepwise_chain matches_levels fun s _ => (hsteps s).1
    have hsucc : ∀ r, expression allowed (r + 1) = inPart (chain allowed r levels) := fun r => by
      rw [expression]
    constructor
    · exact shadowsBelow_part (by rw [operand]) (operand_succ allowed) hinside
        fun r hr => shadowsBelow_inside (ih r hr).1 (ih r hr).2
    -- A chain may have used up any part of the room when it comes to an operand.
    · exact shadowsBelow_part (by rw [expression]) hsucc hchain
        fun r hr => shadowsBelow_chain matches_levels fun s hs => (ih s (hs.trans_lt hr)).1

/-! ## Calls -/

/-- A parser that is deeper answers with the same up to the ids, or has no room. -/
theorem parse_deeper (allowed : String → Bool) (p : Parser) (parts nodes : Nat) :
    (p.deeper parts nodes).parse allowed =
        ((p.parse allowed).1.map (Expr.shift nodes), (p.parse allowed).2.deeper parts nodes) ∨
      0 < parts ∧ ((p.deeper parts nodes).parse allowed).1 = .error (.parse .tooDeep) := by
  have hroom : (p.deeper parts nodes).room = p.room - parts := Nat.sub_add_eq _ _ _
  have hshadows := (shadowsBelow_operand_expression allowed (0 < parts) parts nodes p.room).2
    (p.room - parts) (Nat.sub_le _ _) fun h => by omega
  rw [parse, parse, hroom, whole, whole]
  refine (hshadows.bind fun e => ?_) p
  refine (shadows_isNext _).bind_same fun atEnd => ?_
  split
  · exact shadows_pure rfl
  · exact shadows_unexpected _ _

/-- The count changes the ids and nothing else. -/
theorem parse_deeper_zero (allowed : String → Bool) (p : Parser) (nodes : Nat) :
    (p.deeper 0 nodes).parse allowed =
      ((p.parse allowed).1.map (Expr.shift nodes), (p.parse allowed).2.deeper 0 nodes) :=
  (parse_deeper allowed p 0 nodes).resolve_right fun h => Nat.lt_irrefl 0 h.1

theorem tooDeep_deeper_zero_iff (allowed : String → Bool) (p : Parser) (nodes : Nat) :
    ((p.deeper 0 nodes).parse allowed).1 = .error (.parse .tooDeep) ↔
      (p.parse allowed).1 = .error (.parse .tooDeep) := by
  rw [parse_deeper_zero]
  cases (p.parse allowed).1 with
  | error e => exact Iff.rfl
  | ok e => exact ⟨nofun, nofun⟩

/-- What is too deep at some depth is so at every greater one. -/
theorem tooDeep_deeper {allowed : String → Bool} {p : Parser}
    (h : (p.parse allowed).1 = .error (.parse .tooDeep)) (parts nodes : Nat) :
    ((p.deeper parts nodes).parse allowed).1 = .error (.parse .tooDeep) := by
  rcases parse_deeper allowed p parts nodes with hsame | ⟨-, hrefused⟩
  · rw [hsame]
    dsimp only
    rw [h]
    rfl
  · exact hrefused

theorem tooDeep_of_room_eq_zero {p : Parser} (h : p.room = 0) (allowed : String → Bool) :
    (p.parse allowed).1 = .error (.parse .tooDeep) := by
  rw [parse, whole, h, expression]
  exact fst_run_bind_of_error rfl

/-- The tokens that are left need so many parts: with room for these, a parser answers as a fresh
    one up to the ids, and without it the answer is that the text is too deeply nested. -/
def Needs (p : Parser) (allowed : String → Bool) (need : Nat) : Prop :=
  ∀ q : Parser, q.fresh = p.fresh →
    (q.depth + need ≤ maxDepth →
      q.parse allowed = ((p.fresh.parse allowed).1.map (Expr.shift q.builder.count),
        (p.fresh.parse allowed).2.deeper q.depth q.builder.count)) ∧
    (maxDepth < q.depth + need → (q.parse allowed).1 = .error (.parse .tooDeep))

theorem exists_needs (p : Parser) (allowed : String → Bool) :
    ∃ need, 0 < need ∧ p.Needs allowed need := by
  classical
  let refused (depth : Nat) : Prop :=
    ((p.fresh.deeper depth 0).parse allowed).1 = .error (.parse .tooDeep)
  have hall : ∃ depth, depth ≤ maxDepth ∧ refused depth := by
    refine ⟨maxDepth, Nat.le_refl _, tooDeep_of_room_eq_zero ?_ allowed⟩
    simp [room, deeper, fresh]
  -- The least depth at which the tokens are refused leaves room for one part less than they need.
  obtain ⟨hleast, hrefused⟩ := Nat.find_spec hall
  refine ⟨maxDepth + 1 - Nat.find hall, by omega, fun q hq => ?_⟩
  have hq : q = p.fresh.deeper q.depth q.builder.count := by
    rw [← hq, deeper_fresh]
  have hcount : q = (p.fresh.deeper q.depth 0).deeper 0 q.builder.count := by
    rw [deeper_deeper, Nat.zero_add]
    exact hq
  constructor
  · intro hroom
    have hnot : ¬ refused q.depth := fun h => Nat.find_min hall (by omega) ⟨by omega, h⟩
    have hdeeper := parse_deeper allowed p.fresh q.depth q.builder.count
    rw [← hq] at hdeeper
    refine hdeeper.resolve_right fun h => hnot ?_
    rw [hcount, tooDeep_deeper_zero_iff] at h
    exact h.2
  · intro hroom
    obtain ⟨more, hmore⟩ := Nat.exists_eq_add_of_le (show Nat.find hall ≤ q.depth by omega)
    have hdeeper := tooDeep_deeper hrefused more q.builder.count
    rw [deeper_deeper, ← hmore, Nat.zero_add, ← hq] at hdeeper
    exact hdeeper

end Parser

/-- **Calls of a parser and the depth.** However often a parser is called on a text, a call finds
    as many parts open as the calls before it left open, and leaves none open itself exactly if it
    has read an expression in full, as every call does that succeeds. The tokens left before a call
    need a number of parts: with room for these the call answers as a fresh parser of these tokens,
    up to a shift of the ids, and otherwise that the text is too deeply nested. So if no call
    before it left a part open, a call answers as a fresh parser. -/
theorem Parser.calls_at_depth (text : String) (validators : List (String → Bool)) :
    let calls := (Parser.ofText text).calls validators
    ∀ i call allowed, calls[i]? = some call → validators[i]? = some allowed →
      call.before.parse allowed = (call.result, call.after) ∧
      call.before.depth = ((calls.take i).map Call.leftOpen).sum ∧
      call.after.depth = call.before.depth + call.leftOpen ∧
      (call.leftOpen = 0 ↔ call.before.ReadsExpression allowed) ∧
      (∀ tree, call.result = .ok tree → call.leftOpen = 0) ∧
      (∃ need, 0 < need ∧ call.before.Needs allowed need) ∧
      ((∀ earlier ∈ calls.take i, earlier.leftOpen = 0) →
        call.result =
          (call.before.fresh.parse allowed).1.map (Expr.shift call.before.builder.count)) := by
  intro calls i call allowed hcall hallowed
  have hparse := parse_of_calls hcall hallowed
  have hbefore : call.before.depth = ((calls.take i).map Call.leftOpen).sum :=
    (depth_before hcall).trans (Nat.zero_add _)
  have hafter := depth_after (List.mem_of_getElem? hcall)
  have hopen : call.leftOpen = 0 ↔ call.before.ReadsExpression allowed := by
    rw [← depth_parse_eq_iff, hparse, hafter]
    exact Nat.add_eq_left.symm
  refine ⟨hparse, hbefore, hafter, hopen, fun tree htree => ?_, exists_needs _ _, ?_⟩
  · rw [htree] at hparse
    exact hopen.2 (readsExpression_of_parse hparse)
  · intro hclosed
    -- With no part left open the call stands where a fresh parser stands.
    have hzero : call.before.depth = 0 := by
      rw [hbefore, List.sum_eq_zero (List.forall_mem_map.2 hclosed)]
    have hfresh := deeper_fresh call.before
    rw [hzero] at hfresh
    have hresult := parse_deeper_zero allowed call.before.fresh call.before.builder.count
    rw [hfresh, hparse] at hresult
    exact (Prod.mk.inj hresult).1

/-- The first call stops at `2` inside the parentheses, with two parts open. The second call
    still has room, and reads the number that is left. -/
theorem Parser.calls_at_depth_stopped :
    let calls := (Parser.ofText "(1 2").calls [fun _ => true, fun _ => true]
    ∃ (call : Call) (need : Nat), calls[1]? = some call ∧ call.before.depth = 2 ∧
      call.result = .ok (.literal 1 (.int 2) none) ∧
      ((calls.take 1).map Call.leftOpen).sum = 2 ∧ call.leftOpen = 0 ∧
      call.before.ReadsExpression (fun _ => true) ∧
      0 < need ∧ call.before.Needs (fun _ => true) need := by
  intro calls
  -- The two calls, run.
  have hsecond : calls[1]?.map (fun call : Call =>
      (call.before.depth, call.result, call.leftOpen)) =
        some (2, .ok (.literal 1 (.int 2) none), 0) := by cbv
  obtain ⟨call, hcall, heq⟩ := Option.map_eq_some_iff.1 hsecond
  obtain ⟨hdepth, hresult, hclosed⟩ : call.before.depth = 2 ∧
      call.result = .ok (.literal 1 (.int 2) none) ∧ call.leftOpen = 0 := by simpa using heq
  obtain ⟨-, hsum, -, hreads, -, ⟨need, hneed, hneeds⟩, -⟩ :=
    Parser.calls_at_depth _ _ 1 call _ hcall rfl
  exact ⟨call, need, hcall, hdepth, hresult, hsum ▸ hdepth, hclosed, hreads.1 hclosed, hneed,
    hneeds⟩

/-! ## Many parentheses -/

open UnitCheck.Action (run_bind_error)

open UnitCheck.Parser (expression expression_eq_error_of_openings)

/-- Opening parentheses on a line, without spaces between them. -/
def Token.openings : Nat → Place → List Token
  | 0, _ => []
  | n + 1, place => ⟨.symbol .openParen, "(", place⟩ :: openings n (place.after '(')

theorem Token.kind_of_mem_openings {n : Nat} {place : Place} {opening : Token}
    (h : opening ∈ openings n place) : opening.kind = .symbol .openParen := by
  induction n generalizing place with
  | zero => cases h
  | succ n ih =>
    rcases List.mem_cons.1 h with rfl | h
    · rfl
    · exact ih h

theorem Token.length_openings (n : Nat) (place : Place) : (openings n place).length = n := by
  induction n generalizing place with
  | zero => rfl
  | succ n ih => rw [openings, List.length_cons, ih]

theorem Cursor.next_openParen (cs : List Char) (place : Place) :
    (⟨'(' :: cs, place⟩ : Cursor).next =
      (⟨.symbol .openParen, "(", place⟩, ⟨cs, place.after '('⟩) := rfl

theorem Cursor.scan_openings {n : Nat} {cs : List Char} {place finish : Place}
    {tokens : List Token}
    (h : (⟨cs, (List.replicate n '(').foldl Place.after place⟩ : Cursor).scan = (tokens, finish)) :
    (⟨List.replicate n '(' ++ cs, place⟩ : Cursor).scan =
      (Token.openings n place ++ tokens, finish) := by
  induction n generalizing place with
  | zero => exact h
  | succ n ih =>
    have hskip : Text.skipBlanks ('(' :: (List.replicate n '(' ++ cs)) ≠ [] := nofun
    rw [List.replicate_succ, List.cons_append, Cursor.scan, dif_neg hskip, Cursor.next_openParen]
    dsimp only
    rw [ih h]
    rfl

/-- A text that begins with many parentheses fails as the expression inside of them, whose run
    starts at the depth that they raise. -/
theorem Parser.parse_eq_error_of_openings {allowed : String → Bool} {n room : Nat} {cs : List Char}
    {tokens : List Token} {finish : Place} {error : FilterError} {q : Parser}
    (hroom : room + 2 * n = maxDepth)
    (hscan : (⟨cs, (List.replicate n '(').foldl Place.after .start⟩ : Cursor).scan =
      (tokens, finish))
    (hnext : ∀ next ∈ tokens.head?, next.kind ≠ .typeName)
    (h : (expression allowed room).run ⟨tokens, finish, 2 * n, .new⟩ = (.error error, q)) :
    (Parser.ofText (String.ofList (List.replicate n '(' ++ cs))).parse allowed =
      (.error error, q) := by
  have hstart : Parser.ofText (String.ofList (List.replicate n '(' ++ cs)) =
      ⟨Token.openings n .start ++ tokens, finish, 0, .new⟩ := by
    rw [Parser.ofText, String.toList_ofList, Cursor.start, Cursor.scan_openings hscan]
  have hlength := Token.length_openings n .start
  have hall := expression_eq_error_of_openings (congrArg Parser.tokens hstart)
    (fun _ => Token.kind_of_mem_openings) hnext
    (by rw [hlength, hstart, Nat.zero_add]; exact h)
  rw [hlength, hroom] at hall
  have hfull : (Parser.ofText (String.ofList (List.replicate n '(' ++ cs))).room = maxDepth := by
    rw [hstart]
    rfl
  rw [parse, whole, hfull]
  exact run_bind_error hall

/-- After 99 parentheses the first call stops inside of them and leaves 198 parts open. The second
    call finds no room for the parentheses around `2`, which a fresh parser reads. -/
theorem Parser.shallow_too_deep_after_failure :
    let text := String.ofList (List.replicate 98 '(' ++ "(1 (2)".toList)
    let calls := (Parser.ofText text).calls [fun _ => true, fun _ => true]
    ∃ call : Call, calls[1]? = some call ∧ call.before.depth = 198 ∧
      call.result = .error (.parse .tooDeep) ∧
      (call.before.fresh.parse fun _ => true).1 = .ok (.literal 0 (.int 2) none) := by
  intro text calls
  let second : Token := ⟨.symbol .openParen, "(", ⟨101, 1, 102⟩⟩
  let left : List Token := [second, ⟨.intLiteral, "2", ⟨102, 1, 103⟩⟩,
    ⟨.symbol .closeParen, ")", ⟨103, 1, 104⟩⟩]
  let innermost : List Token := ⟨.symbol .openParen, "(", ⟨98, 1, 99⟩⟩ ::
    ⟨.intLiteral, "1", ⟨99, 1, 100⟩⟩ :: left
  let stopped : Parser := ⟨left, ⟨104, 1, 105⟩, 198, ⟨1⟩⟩
  -- Only the innermost parentheses are run; those around them fail with them.
  obtain ⟨hscan, hinner, hrefused, hread⟩ :
      (⟨"(1 (2)".toList, (List.replicate 98 '(').foldl Place.after .start⟩ : Cursor).scan =
        (innermost, ⟨104, 1, 105⟩) ∧
      (expression (fun _ => true) 4).run ⟨innermost, ⟨104, 1, 105⟩, 2 * 98, .new⟩ =
        (.error (.parse (.unexpected (.kind (.symbol .closeParen)) second)), stopped) ∧
      (stopped.parse fun _ => true).1 = .error (.parse .tooDeep) ∧
      (stopped.fresh.parse fun _ => true).1 = .ok (.literal 0 (.int 2) none) :=
    ⟨by cbv, by cbv, by cbv, by cbv⟩
  have hfirst := Parser.parse_eq_error_of_openings rfl hscan (by decide) hinner
  refine ⟨⟨stopped, _, (stopped.parse fun _ => true).2⟩, ?_, rfl, hrefused, hread⟩
  change some _ = some _
  rw [hfirst]

end UnitCheck
