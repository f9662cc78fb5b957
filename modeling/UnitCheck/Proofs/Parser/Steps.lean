import UnitCheck.Proofs.Parser.Soundness

/-!
  What a run of the parser is made of, whichever way it ends.

  `parse_sound` tells what a successful run has read. A failed run has read tokens and made nodes
  as well, and it leaves the parser where it stopped. `Steps` lists all that a run can do, and
  every run is made of it (`steps_parse`); what a single step does to a parser is then enough to
  know what any run does, by induction on the steps.
-/

namespace UnitCheck

/-- A token that is a number. -/
def Token.IsNumber (token : Token) : Prop :=
  token.kind = .intLiteral ∨ token.kind = .realLiteral

namespace Parser

open UnitCheck.Action

/-- The failure says that another token, or the name of another type, should stand there. -/
inductive Misplaced : SyntaxError → Prop where
  | unexpected (expected : Expected) (token : Token) : Misplaced (.unexpected expected token)
  | unknownType (name : String) : Misplaced (.unknownType name)

/-- From one parser to another, with the failure that the run ended in, if it failed. Numbers
    have steps of their own, since an identifier right after a number is its unit. -/
inductive Steps (allowed : String → Bool) : Parser → Option FilterError → Parser → Prop where
  | stay {p : Parser} : Steps allowed p none p
  | andThen {p q r : Parser} {failure : Option FilterError} :
      Steps allowed p none q → Steps allowed q failure r → Steps allowed p failure r
  | make {p : Parser} : Steps allowed p none (p.past p.tokens 1)
  | read {p : Parser} {token : Token} {rest : List Token} :
      p.tokens = token :: rest → ¬ token.IsNumber → Steps allowed p none (p.past rest 0)
  | number {p : Parser} {token : Token} {rest : List Token} :
      p.tokens = token :: rest → (∀ next ∈ rest.head?, next.kind ≠ .identifier) →
      Steps allowed p none (p.past rest 0)
  | quantity {p : Parser} {token unit : Token} {rest : List Token} :
      p.tokens = token :: unit :: rest → unit.kind = .identifier → allowed unit.value = true →
      Steps allowed p none (p.past rest 0)
  | refuseUnit {p : Parser} {token unit : Token} {rest : List Token} :
      p.tokens = token :: unit :: rest → token.IsNumber → unit.kind = .identifier →
      allowed unit.value = false →
      Steps allowed p (some (.invalidUnit unit.value unit.place)) (p.past rest 0)
  | refuseToken {p : Parser} {token : Token} {rest : List Token} {cause : SyntaxError} :
      p.tokens = token :: rest → literalValue? token = some (.error cause) →
      Steps allowed p (some (.parse cause)) (p.past rest 0)
  | fail {p : Parser} {cause : SyntaxError} :
      Misplaced cause → Steps allowed p (some (.parse cause)) p
  | refusePart {p : Parser} :
      Steps allowed p (some (.parse .tooDeep)) { p with depth := p.depth + 1 }
  | part {p q : Parser} :
      Steps allowed { p with depth := p.depth + 1 } none q →
      Steps allowed p none { q with depth := q.depth - 1 }
  | failInPart {p q : Parser} {error : FilterError} :
      Steps allowed { p with depth := p.depth + 1 } (some error) q →
      Steps allowed p (some error) q

/-- The failure that a result is, if it is one. -/
def failure? {α : Type} : Except FilterError α → Option FilterError
  | .error error => some error
  | .ok _ => none

/-- The run of an action from a parser on is made of steps. -/
def Stepwise (allowed : String → Bool) {α : Type} (action : Action α) (p : Parser) : Prop :=
  Steps allowed p (failure? (action.run p).1) (action.run p).2

variable {allowed : String → Bool} {α β : Type} {p : Parser}

/-! ## Actions -/

theorem Stepwise.bind {x : Action α} {f : α → Action β} (hx : Stepwise allowed x p)
    (hf : ∀ a q, x.run p = (.ok a, q) → Stepwise allowed (f a) q) :
    Stepwise allowed (x >>= f) p := by
  rw [Stepwise] at hx ⊢
  rw [run_bind]
  cases hrun : x.run p with
  | mk result q =>
    rw [hrun] at hx
    cases result with
    | error error => exact hx
    | ok a => exact hx.andThen (hf a q hrun)

theorem stepwise_pure (a : α) : Stepwise allowed (pure a) p := .stay

theorem stepwise_current : Stepwise allowed Action.current p := .stay

theorem stepwise_isNext (kind : Token.Kind) : Stepwise allowed (isNext kind) p := .stay

theorem stepwise_node (make : Nat → Expr) : Stepwise allowed (node make) p := .make

theorem stepwise_unexpected (expected : Expected) :
    Stepwise allowed (unexpected expected : Action α) p := .fail (.unexpected _ _)

theorem stepwise_refusePart : Stepwise allowed (refusePart : Action α) p := .refusePart

/-- A token that is no number is read in one step; at the end nothing is read. -/
theorem stepwise_advance (h : ¬ p.current.IsNumber) : Stepwise allowed advance p := by
  cases htokens : p.tokens with
  | nil =>
    have hstay : advance.run p = (.ok (), p) := by
      simp only [advance, htokens, List.tail_nil]
      rw [← htokens]
    rw [Stepwise, hstay]
    exact .stay
  | cons token rest =>
    rw [Stepwise, run_advance htokens]
    rw [current_of_cons htokens] at h
    exact .read htokens h

/-- A kind of tokens that are no numbers. -/
def NoNumber (kind : Token.Kind) : Prop := kind ≠ .intLiteral ∧ kind ≠ .realLiteral

theorem noNumber_symbol (symbol : Symbol) : NoNumber (.symbol symbol) := by simp [NoNumber]

theorem noNumber_identifier : NoNumber .identifier := by simp [NoNumber]

theorem noNumber_typeName : NoNumber .typeName := by simp [NoNumber]

theorem not_isNumber {token : Token} {kind : Token.Kind} (hkind : token.kind = kind)
    (h : NoNumber kind) : ¬ token.IsNumber := by
  rw [← hkind] at h
  exact not_or.2 h

theorem stepwise_advance_of_kind {kind : Token.Kind} (hkind : p.current.kind = kind)
    (h : NoNumber kind) : Stepwise allowed advance p :=
  stepwise_advance (not_isNumber hkind h)

theorem stepwise_expect {kind : Token.Kind} (h : NoNumber kind) :
    Stepwise allowed (expect kind) p := by
  rw [expect]
  refine stepwise_current.bind fun token q hcurrent => ?_
  cases hcurrent
  split
  · next hkind =>
    exact (stepwise_advance_of_kind hkind h).bind fun _ _ _ => stepwise_pure _
  · exact stepwise_unexpected _

theorem stepwise_inPart {x : Action α} (h : Stepwise allowed x { p with depth := p.depth + 1 }) :
    Stepwise allowed (inPart x) p := by
  rw [Stepwise] at h ⊢
  rw [run_inPart, run_bind]
  -- The part is closed only after a run that succeeds.
  cases hx : x.run { p with depth := p.depth + 1 } with
  | mk result q =>
    rw [hx] at h
    cases result with
    | error error => exact .failInPart h
    | ok a => exact .part h

/-- A loop over items, given that each item is read in steps. -/
theorem stepwise_separated {item : Action α} {separator : Token.Kind}
    (hitem : ∀ p, Stepwise allowed item p) (h : NoNumber separator) :
    Stepwise allowed (separated item separator) p := by
  induction p using @round_induct α item with
  | round p ih =>
    have hfirst := hitem p
    rw [Stepwise] at hfirst
    cases hrun : item.run p with
    | mk result q =>
      rw [hrun] at hfirst
      cases result with
      | error error =>
        rw [Stepwise, run_separated_error hrun]
        exact hfirst
      | ok a =>
        -- The loop goes on where a separator follows, and ends after the item otherwise.
        rcases separator_or_last q separator with ⟨token, rest, htokens, hkind⟩ | hlast
        · have hrest := ih a q token rest hrun htokens
          have hread : Steps allowed q none (q.past rest 0) :=
            .read htokens (not_isNumber hkind h)
          rw [Stepwise] at hrest ⊢
          rw [run_separated_more hrun htokens hkind]
          cases hmore : (separated item separator).run (q.past rest 0) with
          | mk result r =>
            rw [hmore] at hrest
            cases result with
            | error error => exact hfirst.andThen (hread.andThen hrest)
            | ok as => exact hfirst.andThen (hread.andThen hrest)
        · rw [Stepwise, run_separated_last hrun hlast]
          exact hfirst

/-! ## Operands without expressions inside -/

/-- A literal with its token, and with the unit that follows a number. -/
theorem stepwise_literal {token : Token} {rest : List Token}
    {value : Except SyntaxError Literal} (htokens : p.tokens = token :: rest)
    (hvalue : literalValue? token = some value) :
    Stepwise allowed (advance >>= fun _ => literal allowed value) p := by
  rw [Stepwise, run_bind_ok (run_advance htokens)]
  cases value with
  | error cause => exact .refuseToken htokens hvalue
  | ok v =>
    have hword : token.word.literal? = some (.ok v) := hvalue
    have hnumber : v.isNumeric = true ↔ token.IsNumber := isNumeric_iff hword
    rw [literal, run_bind_ok (run_isNext _)]
    split
    -- a number before an identifier
    · next h =>
      simp only [Bool.and_eq_true, decide_eq_true_eq] at h
      obtain ⟨rest', hrest⟩ := tokens_of_current (p := p.past rest 0) (by simp [h.2])
      -- The unit is read before it is known to be allowed, so a refusal is past it, too.
      generalize (p.past rest 0).current = unit at h hrest
      rw [tokens_past] at hrest
      subst hrest
      have hexpect := run_expect (p := p.past (unit :: rest') 0) rfl h.2
      rw [past_past] at hexpect
      cases hallowed : allowed unit.value with
      | true =>
        have hunit : (unitSymbol allowed).run (p.past (unit :: rest') 0) =
            (.ok unit.value, p.past rest' 0) := by
          rw [unitSymbol, run_bind_ok hexpect, if_pos hallowed, run_pure]
        rw [run_bind_ok hunit, run_node]
        exact (Steps.quantity htokens h.2 hallowed).andThen .make
      | false =>
        have hunit : (unitSymbol allowed).run (p.past (unit :: rest') 0) =
            (.error (.invalidUnit unit.value unit.place), p.past rest' 0) := by
          rw [unitSymbol, run_bind_ok hexpect, if_neg (by simp [hallowed])]
          rfl
        rw [run_bind, hunit]
        exact .refuseUnit htokens (hnumber.1 h.1) h.2 hallowed
    -- any other literal is read alone
    · next h =>
      rw [run_node]
      refine Steps.andThen ?_ .make
      by_cases hv : token.IsNumber
      · refine .number htokens fun next hnext hkind => h ?_
        obtain ⟨rest', rfl⟩ := List.head?_eq_some_iff.1 hnext
        rw [hnumber.2 hv, Bool.true_and, decide_eq_true_eq]
        exact hkind
      · exact .read htokens hv

theorem stepwise_qualifiedName : Stepwise allowed qualifiedName p := by
  rw [qualifiedName]
  exact (stepwise_separated (fun _ => stepwise_expect noNumber_identifier) (noNumber_symbol _)).bind
    fun _ _ _ => stepwise_pure _

theorem stepwise_castTarget : Stepwise allowed castTarget p := by
  rw [castTarget]
  refine (stepwise_expect noNumber_typeName).bind fun token q _ => ?_
  split
  · exact .fail (.unknownType _)
  · next type _ =>
    refine (stepwise_isNext _).bind fun mark r hmark => ?_
    cases hmark
    -- The parenthesis is read in either case; only a type that can be null has a mark before it.
    have hclose {s : Parser} {nullable : Bool} :
        Stepwise allowed (do
          let _ ← expect (.symbol .closeParen)
          return (⟨type, nullable⟩ : CastType)) s :=
      (stepwise_expect (noNumber_symbol _)).bind fun _ _ _ => stepwise_pure _
    dsimp only
    split
    · next h =>
      simp only [Bool.and_eq_true, decide_eq_true_eq] at h
      refine Stepwise.bind ?_ fun _ _ _ => hclose
      exact stepwise_advance_of_kind h.2 (noNumber_symbol _)
    · exact hclose

/-! ## Expressions -/

/-- An operator is no number. -/
theorem noNumber_of_operator? {tier : Tier} {kind : Token.Kind} {op : BinaryOp}
    (h : tier.operator? kind = some op) : NoNumber kind := by
  constructor <;>
  · rintro rfl
    cases tier <;> cases h

theorem noNumber_of_sign? {kind : Token.Kind} {op : UnaryOp} (h : sign? kind = some op) :
    NoNumber kind := by
  constructor <;>
  · rintro rfl
    cases h

theorem stepwise_links {tier : Tier} {level : Level} {levels : List Level}
    (hlevel : Matches tier level) {room : Nat}
    (hchain : ∀ r < room, ∀ p, Stepwise allowed (chain allowed r levels) p) (left : Expr) :
    Stepwise allowed (links allowed level levels left room) p := by
  -- By induction on the room: each link of the chain takes some of it.
  induction room generalizing left p with
  | zero =>
    rw [links, Stepwise, run_bind_ok (operatorOf_run hlevel p)]
    split
    · exact stepwise_pure _
    · next op hop =>
      exact (stepwise_advance_of_kind rfl (noNumber_of_operator? hop)).bind
        fun _ _ _ => stepwise_refusePart
  | succ room ih =>
    rw [links, Stepwise, run_bind_ok (operatorOf_run hlevel p)]
    split
    · exact stepwise_pure _
    · next op hop =>
      refine (stepwise_advance_of_kind rfl (noNumber_of_operator? hop)).bind fun _ _ _ => ?_
      refine stepwise_inPart ((hchain room (Nat.lt_succ_self _) _).bind fun _ _ _ => ?_)
      exact (stepwise_node _).bind fun node _ _ => ih (fun r hr => hchain r (by omega)) node

theorem stepwise_signed {room : Nat} (h : ∀ p, Stepwise allowed (operand allowed room) p) :
    Stepwise allowed (signed allowed room) p := by
  rw [signed, Stepwise, run_bind_ok (leadingOperator_run p)]
  split
  · exact h p
  · next op hop =>
    exact (stepwise_advance_of_kind rfl (noNumber_of_sign? hop)).bind fun _ _ _ =>
      (h _).bind fun _ _ _ => stepwise_node _

/-- A chain, given that operands are read in steps. -/
theorem stepwise_chain {tiers : List Tier} {levels : List Level}
    (hlevels : List.Forall₂ Matches tiers levels) {room : Nat}
    (h : ∀ r ≤ room, ∀ p, Stepwise allowed (operand allowed r) p) :
    Stepwise allowed (chain allowed room levels) p := by
  induction hlevels generalizing room p with
  | nil =>
    rw [chain]
    exact stepwise_signed (h room (Nat.le_refl _))
  | cons hlevel _ ih =>
    rw [chain]
    refine (ih h).bind fun left _ _ => ?_
    exact stepwise_links hlevel (fun r hr p => ih fun s hs => h s (by omega)) left

theorem stepwise_named {room : Nat} (h : ∀ p, Stepwise allowed (expression allowed room) p) :
    Stepwise allowed (named allowed room) p := by
  rw [named]
  refine stepwise_qualifiedName.bind fun name q _ => ?_
  refine (stepwise_isNext _).bind fun opening r hopening => ?_
  cases hopening
  split
  · next hopening =>
    rw [decide_eq_true_eq] at hopening
    refine (stepwise_advance_of_kind hopening (noNumber_symbol _)).bind fun _ s _ => ?_
    refine (stepwise_isNext _).bind fun closing t hclosing => ?_
    cases hclosing
    split
    · next hclosing =>
      rw [decide_eq_true_eq] at hclosing
      exact (stepwise_advance_of_kind hclosing (noNumber_symbol _)).bind
        fun _ _ _ => stepwise_node _
    · refine (stepwise_separated h (noNumber_symbol _)).bind fun _ _ _ => ?_
      exact (stepwise_expect (noNumber_symbol _)).bind fun _ _ _ => stepwise_node _
  · exact stepwise_node _

theorem stepwise_parenthesized {room : Nat}
    (hoperand : ∀ p, Stepwise allowed (operand allowed room) p)
    (hexpression : ∀ p, Stepwise allowed (expression allowed room) p) :
    Stepwise allowed (parenthesized allowed room) p := by
  rw [parenthesized]
  refine (stepwise_isNext _).bind fun isCast q _ => ?_
  split
  · exact stepwise_castTarget.bind fun _ _ _ => (hoperand _).bind fun _ _ _ => stepwise_node _
  · exact (hexpression _).bind fun _ _ _ =>
      (stepwise_expect (noNumber_symbol _)).bind fun _ _ _ => stepwise_pure _

/-- The inside of an operand, given that its parts are read in steps. -/
theorem stepwise_inside {room : Nat} (hoperand : ∀ p, Stepwise allowed (operand allowed room) p)
    (hexpression : ∀ p, Stepwise allowed (expression allowed room) p) :
    Stepwise allowed (inside allowed room) p := by
  rw [inside]
  refine stepwise_current.bind fun token q hcurrent => ?_
  cases hcurrent
  split
  · next value hvalue =>
    obtain ⟨rest, hrest⟩ := tokens_of_current (ne_eof_of_literalValue? hvalue)
    exact stepwise_literal hrest hvalue
  · split
    · exact stepwise_named hexpression
    · next hopening =>
      exact (stepwise_advance_of_kind hopening (noNumber_symbol _)).bind fun _ _ _ =>
        stepwise_parenthesized hoperand hexpression
    · exact stepwise_unexpected _

theorem stepwise_operand_expression (allowed : String → Bool) (room : Nat) :
    (∀ p, Stepwise allowed (operand allowed room) p) ∧
      ∀ p, Stepwise allowed (expression allowed room) p := by
  induction room using Nat.strongRecOn with
  | ind room ih =>
    cases room with
    | zero =>
      -- Without room both are refused at once.
      rw [operand, expression]
      exact ⟨fun _ => stepwise_refusePart, fun _ => stepwise_refusePart⟩
    | succ room =>
      obtain ⟨hoperand, hexpression⟩ := ih room (Nat.lt_succ_self _)
      -- A chain may have used up any part of the room when it comes to an operand.
      rw [operand_succ, expression]
      refine ⟨fun p => stepwise_inPart (stepwise_inside hoperand hexpression), fun p => ?_⟩
      exact stepwise_inPart (stepwise_chain matches_levels fun r hr => (ih r (by omega)).1)

/-- A call of the parser is made of steps, whether it succeeds or fails. -/
theorem steps_parse (allowed : String → Bool) (p : Parser) :
    Steps allowed p (failure? (p.parse allowed).1) (p.parse allowed).2 := by
  change Stepwise allowed (whole allowed p.room) p
  rw [whole]
  refine ((stepwise_operand_expression allowed p.room).2 p).bind fun e q _ => ?_
  refine (stepwise_isNext _).bind fun atEnd r _ => ?_
  split
  · exact stepwise_pure _
  · exact stepwise_unexpected _

/-! ## What steps keep -/

/-- No token is put back. -/
theorem Steps.tokens_suffix {q : Parser} {failure : Option FilterError}
    (h : Steps allowed p failure q) : q.tokens <:+ p.tokens := by
  induction h with
  | stay | make | fail | refusePart => exact List.suffix_refl _
  | andThen _ _ ih ih' => exact ih'.trans ih
  | part _ ih | failInPart _ ih => exact ih
  | @read _ token rest h | @number _ token rest h | @refuseToken _ token rest _ h =>
    exact h ▸ List.suffix_cons token rest
  | @quantity _ token unit rest h | @refuseUnit _ token unit rest h =>
    exact h ▸ (List.suffix_cons unit rest).trans (List.suffix_cons token _)

/-- What the syntax is refused for: for what stands where, for the depth, or for a literal that
    has no value. -/
theorem Steps.cause {q : Parser} {cause : SyntaxError}
    (h : Steps allowed p (some (.parse cause)) q) :
    Misplaced cause ∨ cause = .tooDeep ∨
      ∃ token ∈ p.tokens, literalValue? token = some (.error cause) := by
  generalize hfailure : some (FilterError.parse cause) = failure at h
  induction h with
  | stay | make | read | number | quantity | part => cases hfailure
  | andThen hfirst _ _ ih =>
    -- The token that is refused was there before the first of the two runs.
    rcases ih hfailure with h | h | ⟨token, hmem, hvalue⟩
    · exact .inl h
    · exact .inr (.inl h)
    · exact .inr (.inr ⟨token, hfirst.tokens_suffix.subset hmem, hvalue⟩)
  | refuseUnit => cases hfailure
  | refuseToken htokens hvalue =>
    cases hfailure
    exact .inr (.inr ⟨_, htokens ▸ List.mem_cons_self, hvalue⟩)
  | fail h =>
    cases hfailure
    exact .inl h
  | refusePart =>
    cases hfailure
    exact .inr (.inl rfl)
  | failInPart _ ih => exact ih hfailure

/-- Nodes are made and none is taken back. -/
theorem Steps.count_le {q : Parser} {failure : Option FilterError}
    (h : Steps allowed p failure q) : p.builder.count ≤ q.builder.count := by
  induction h with
  | andThen _ _ ih ih' => exact Nat.le_trans ih ih'
  | part _ ih => exact ih
  | failInPart _ ih => exact ih
  | _ => simp

end Parser

end UnitCheck
