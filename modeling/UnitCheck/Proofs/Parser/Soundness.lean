import Mathlib.Data.List.Forall2
import UnitCheck.Parser.Expression
import UnitCheck.Proofs.Grammar
import UnitCheck.Proofs.Parser.Action
import UnitCheck.Proofs.Parser.Literal

/-!
  What the parser reads is a sentence.

  A successful run of `expression`, `chain`, `signed` or `operand` has read words that the grammar
  derives, with no more parts open at once than there was room for, and its result is the
  expression that the derivation denotes, numbered from the builder's count on (`Yields`). The
  proof goes by induction on the room, as the recursion of the parser does; within one room a
  chain goes by induction on the tiers.
-/

namespace UnitCheck.Parser

open UnitCheck.Action

/-! ## What a run reads -/

/-- From one parser to another an expression was read that the grammar derives. -/
def Yields (allowed : String → Bool) (reading : Phrase → Reading) (room : Nat) (p : Parser)
    (e : Expr) (q : Parser) : Prop :=
  ∃ phrase words n, Derives (reading phrase) words n ∧ n ≤ room ∧
    p.Consumes q words phrase.size ∧ phrase.build p.builder.count = .ok e ∧
    ∀ unit ∈ phrase.units, allowed unit = true

/-- A successful run of the action reads what the grammar derives. -/
def Sound (allowed : String → Bool) (reading : Phrase → Reading) (room : Nat)
    (action : Action Expr) : Prop :=
  ∀ p e q, action.run p = (.ok e, q) → Yields allowed reading room p e q

theorem sound_refusePart (allowed : String → Bool) (reading : Phrase → Reading) (room : Nat) :
    Sound allowed reading room refusePart :=
  fun _ _ _ h => absurd h refusePart_ne_ok

/-- The inside of a part has room for one part less. -/
theorem sound_inPart {allowed : String → Bool} {inner reading : Phrase → Reading} {room : Nat}
    {action : Action Expr} (h : Sound allowed inner room action)
    (hreading : ∀ {phrase words n}, Derives (inner phrase) words n →
      Derives (reading phrase) words (n + 1)) :
    Sound allowed reading (room + 1) (inPart action) := by
  intro p e q hrun
  obtain ⟨r, hinner, rfl⟩ := inPart_eq_ok hrun
  obtain ⟨phrase, words, n, hderives, hn, hconsumes, hbuild, hunits⟩ := h _ _ _ hinner
  exact ⟨phrase, words, n + 1, hreading hderives, Nat.succ_le_succ hn,
    consumes_inPart hconsumes, hbuild, hunits⟩

variable {allowed : String → Bool}

/-- A literal, without a unit or with one that is allowed. -/
theorem literal_eq_ok {token : Token} {value : Except SyntaxError Literal} {p q : Parser}
    {e : Expr} (hvalue : token.word.literal? = some value)
    (h : (literal allowed value).run p = (.ok e, q)) :
    ∃ unit words, Derives (.operand (.literal value unit)) (token.word :: words) 1 ∧
      p.Consumes q words 1 ∧ (Phrase.literal value unit).build p.builder.count = .ok e ∧
      ∀ symbol ∈ unit, allowed symbol = true := by
  cases value with
  | error cause => cases h
  | ok v =>
    rw [literal, run_bind_ok (run_isNext _)] at h
    split at h
    -- a number before an identifier: the identifier is its unit
    · next hnumber =>
      simp only [Bool.and_eq_true, decide_eq_true_eq] at hnumber
      obtain ⟨symbol, r, hsymbol, h⟩ := bind_eq_ok.1 h
      obtain ⟨unit, s, hunit, hsymbol⟩ := bind_eq_ok.1 hsymbol
      obtain ⟨hkind, hconsumes⟩ := expect_eq_ok (by simp) hunit
      split at hsymbol
      · next hallowed =>
        obtain ⟨rfl, rfl⟩ := pure_eq_ok.1 hsymbol
        rw [run_node] at h
        cases h
        refine ⟨some unit.value, [unit.word], ?_, ?_, ?_, ?_⟩
        · exact .quantity hvalue ((isNumeric_iff hvalue).1 hnumber.1) hkind
        · exact hconsumes.trans (consumes_node _ 1)
        · rw [hconsumes.count]
          rfl
        · simpa using hallowed
      · cases hsymbol
    -- any other literal is read alone
    · rw [run_node] at h
      cases h
      exact ⟨none, [], .literal hvalue, consumes_node p 1, rfl, by simp⟩

/-! ## Names and types -/

theorem qualifiedName_eq_ok {p q : Parser} {name : String}
    (h : qualifiedName.run p = (.ok name, q)) :
    ∃ words parts, QualifiedName words parts ∧ name = ".".intercalate parts ∧
      p.Consumes q words 0 := by
  obtain ⟨tokens, r, hrun, h⟩ := bind_eq_ok.1 h
  obtain ⟨rfl, rfl⟩ := pure_eq_ok.1 h
  suffices ∃ words, QualifiedName words (tokens.map Token.value) ∧ p.Consumes r words 0 by
    obtain ⟨words, hwords, hconsumes⟩ := this
    exact ⟨words, _, hwords, rfl, hconsumes⟩
  -- Induction on the rounds of the loop, each of which reads a part of the name.
  refine separated_induct (motive := fun p tokens q =>
    ∃ words, QualifiedName words (tokens.map Token.value) ∧ p.Consumes q words 0) ?_ ?_ hrun
  · intro p token q h
    obtain ⟨hkind, hconsumes⟩ := expect_eq_ok (by simp) h
    exact ⟨_, .last hkind, hconsumes⟩
  · intro p token r dot rest tokens q h hr hdot ⟨words, hwords, hrest⟩
    obtain ⟨hkind, hconsumes⟩ := expect_eq_ok (by simp) h
    rw [← Token.kind_word] at hdot
    exact ⟨_, .more hkind hdot hwords,
      (hconsumes.trans (consumes_cons hr)).trans hrest⟩

theorem castTarget_eq_ok {p q : Parser} {target : CastType}
    (h : castTarget.run p = (.ok target, q)) :
    ∃ words closing, CastWords words target ∧ closing.kind = .symbol .closeParen ∧
      p.Consumes q (words ++ [closing]) 0 := by
  obtain ⟨token, r, hrun, h⟩ := bind_eq_ok.1 h
  obtain ⟨hkind, htoken⟩ := expect_eq_ok (by simp) hrun
  split at h
  · cases h
  · next type htype =>
    rw [run_bind_ok (run_isNext _)] at h
    dsimp only at h
    split at h
    -- a question mark on a type that takes one
    · next hmark =>
      simp only [Bool.and_eq_true, decide_eq_true_eq] at hmark
      obtain ⟨rest, hrest⟩ := tokens_of_current (p := r) (by simp [hmark.2])
      rw [run_bind_ok (run_advance hrest)] at h
      obtain ⟨closing, s, hclosing, h⟩ := bind_eq_ok.1 h
      obtain ⟨hclosingKind, hclosing⟩ := expect_eq_ok (by simp) hclosing
      obtain ⟨rfl, rfl⟩ := pure_eq_ok.1 h
      refine ⟨[token.word, r.current.word], closing.word, ?_, hclosingKind,
        (htoken.trans (consumes_cons hrest)).trans hclosing⟩
      simp only [hmark, decide_true, Bool.and_self]
      exact .nullable hkind htype hmark.1 hmark.2
    -- otherwise the parenthesis has to follow at once
    · next hmark =>
      obtain ⟨closing, s, hclosing, h⟩ := bind_eq_ok.1 h
      obtain ⟨hclosingKind, hclosing⟩ := expect_eq_ok (by simp) hclosing
      obtain ⟨rfl, rfl⟩ := pure_eq_ok.1 h
      refine ⟨[token.word], closing.word, ?_, hclosingKind, htoken.trans hclosing⟩
      rw [Bool.not_eq_true] at hmark
      rw [hmark]
      exact .plain hkind htype

/-! ## Chains -/

/-- The parser's level of operators is the tier of the grammar. -/
def Matches (tier : Tier) (level : Level) : Prop :=
  ∀ kind : Token.Kind, level.lookup kind = tier.operator? kind

/-- The levels of the parser are the tiers of the grammar, in the same order. -/
theorem matches_levels : List.Forall₂ Matches Tier.all levels := by
  refine .cons ?_ (.cons ?_ (.cons ?_ (.cons ?_ (.cons ?_ (.cons ?_ .nil))))) <;>
  · intro kind
    cases kind with
    | keyword word => cases word <;> rfl
    | symbol symbol => cases symbol <;> rfl
    | _ => rfl

theorem operatorOf_run {tier : Tier} {level : Level} (h : Matches tier level) (p : Parser) :
    (operatorOf level).run p = (.ok (tier.operator? p.current.kind), p) := by
  rw [operatorOf, run_bind_ok run_current, run_pure, h]

theorem leadingOperator_run (p : Parser) :
    leadingOperator.run p = (.ok (sign? p.current.kind), p) := by
  rw [leadingOperator, run_bind_ok run_current]
  unfold sign?
  split <;> simp_all

/-- A word that is an operator is not the end of the text. -/
theorem ne_eof_of_operator? {tier : Tier} {kind : Token.Kind} {op : BinaryOp}
    (h : tier.operator? kind = some op) : kind ≠ .eof := by
  rintro rfl
  cases tier <;> cases h

theorem ne_eof_of_literalValue? {token : Token} {value : Except SyntaxError Literal}
    (h : literalValue? token = some value) : token.kind ≠ .eof := by
  intro hkind
  rw [literalValue?, hkind] at h
  cases h

theorem ne_eof_of_sign? {kind : Token.Kind} {op : UnaryOp} (h : sign? kind = some op) :
    kind ≠ .eof := by
  rintro rfl
  cases h

/-- The rest of a chain, after operands that were read as `left`. -/
theorem links_sound {tier : Tier} {level : Level} {tighter : List Tier} {levels : List Level}
    (hlevel : Matches tier level) {room : Nat}
    (hchain : ∀ r < room, Sound allowed (.chain tighter) r (chain allowed r levels))
    {left : Phrase} {l e : Expr} {p q : Parser} {start : Nat} (hleft : left.build start = .ok l)
    (hcount : p.builder.count = start + left.size)
    (hunits : ∀ unit ∈ left.units, allowed unit = true)
    (h : (links allowed level levels l room).run p = (.ok e, q)) :
    ∃ phrase words n nodes, Derives (.links tier tighter left phrase) words n ∧ n ≤ room ∧
      p.Consumes q words nodes ∧ phrase.size = left.size + nodes ∧
      phrase.build start = .ok e ∧ ∀ unit ∈ phrase.units, allowed unit = true := by
  induction room generalizing left l p q with
  | zero =>
    rw [links, run_bind_ok (operatorOf_run hlevel p)] at h
    split at h
    · cases h
      exact ⟨left, [], 0, 0, .unlinked, Nat.le_refl _, .refl _, rfl, hleft, hunits⟩
    -- an operator without room for its right side is refused
    · next op hop =>
      obtain ⟨rest, hrest⟩ := tokens_of_current (ne_eof_of_operator? hop)
      rw [run_bind_ok (run_advance hrest)] at h
      exact absurd h refusePart_ne_ok
  | succ room ih =>
    rw [links, run_bind_ok (operatorOf_run hlevel p)] at h
    split at h
    · cases h
      exact ⟨left, [], 0, 0, .unlinked, Nat.zero_le _, .refl _, rfl, hleft, hunits⟩
    · next op hop =>
      -- The right side is a chain of the tighter levels.
      obtain ⟨rest, hrest⟩ := tokens_of_current (ne_eof_of_operator? hop)
      rw [run_bind_ok (run_advance hrest)] at h
      obtain ⟨s, hinner, rfl⟩ := inPart_eq_ok h
      obtain ⟨r, p₁, hnext, hlast⟩ := bind_eq_ok.1 hinner
      obtain ⟨right, next, m, hnextDerives, hm, hnextConsumes, hright, hrightUnits⟩ :=
        hchain room (Nat.lt_succ_self _) _ _ _ hnext
      rw [run_bind_ok (run_node _)] at hlast
      change right.build p.builder.count = .ok r at hright
      have hp₁ : p₁.builder.count = start + left.size + right.size := by
        rw [← hcount]
        exact hnextConsumes.count
      -- The operator's node comes right after those of its operands.
      have hbuild : (Phrase.binary op left right).build start =
          .ok (.binary p₁.builder.count op l r) := by
        rw [hp₁]
        exact Phrase.build_binary hleft (hcount ▸ hright)
      have hcount' : (p₁.past p₁.tokens 1).builder.count =
          start + (Phrase.binary op left right).size := by
        rw [count_past, hp₁, Phrase.size]
        omega
      have hunits' : ∀ unit ∈ (Phrase.binary op left right).units, allowed unit = true := by
        rw [Phrase.units]
        exact List.forall_mem_append.2 ⟨hunits, hrightUnits⟩
      -- What follows goes on from the operation as its left side.
      obtain ⟨phrase, more, n, nodes, hderives, hn, hconsumes, hsize, hphrase, hphraseUnits⟩ :=
        ih (fun r hr => hchain r (Nat.lt_succ_of_lt hr)) hbuild hcount' hunits' hlast
      refine ⟨phrase, p.current.word :: (next ++ more), max m n + 1, right.size + 1 + nodes,
        .link hop hnextDerives hderives, by omega, ?_, ?_, hphrase, hphraseUnits⟩
      · have hinside : Consumes { p.past rest 0 with depth := (p.past rest 0).depth + 1 } s
            (next ++ more) (right.size + 1 + nodes) := by
          have := (hnextConsumes.trans (consumes_node p₁ 1)).trans hconsumes
          rwa [List.append_nil] at this
        have := (consumes_cons hrest).trans (consumes_inPart hinside)
        rwa [Nat.zero_add] at this
      · rw [hsize, Phrase.size]
        omega

theorem signed_sound {room : Nat} (h : Sound allowed .operand room (operand allowed room)) :
    Sound allowed .signed room (signed allowed room) := by
  intro p e q hrun
  rw [signed, run_bind_ok (leadingOperator_run p)] at hrun
  split at hrun
  · obtain ⟨phrase, words, n, hderives, hrest⟩ := h p e q hrun
    exact ⟨phrase, words, n, .unsigned hderives, hrest⟩
  · next op hop =>
    -- The sign is one word more, and the node is made behind the operand.
    obtain ⟨rest, hrest⟩ := tokens_of_current (ne_eof_of_sign? hop)
    rw [run_bind_ok (run_advance hrest)] at hrun
    obtain ⟨inner, r, hinner, hrun⟩ := bind_eq_ok.1 hrun
    obtain ⟨phrase, words, n, hderives, hn, hconsumes, hbuild, hunits⟩ := h _ _ _ hinner
    rw [run_node] at hrun
    cases hrun
    refine ⟨.unary op phrase, p.current.word :: words, n,
      .signed hop hderives, hn, ?_, ?_, hunits⟩
    · have := ((consumes_cons hrest).trans hconsumes).trans (consumes_node r 1)
      rwa [Nat.zero_add, List.append_nil] at this
    · rw [hconsumes.count]
      exact Phrase.build_unary hbuild

/-- A chain, given that operands are sound. -/
theorem chain_sound {tiers : List Tier} {levels : List Level}
    (hlevels : List.Forall₂ Matches tiers levels) {room : Nat}
    (h : ∀ r ≤ room, Sound allowed .operand r (operand allowed r)) :
    Sound allowed (.chain tiers) room (chain allowed room levels) := by
  -- Induction on the levels, the tightest last: the left operand of a chain is a tighter chain.
  induction hlevels generalizing room with
  | nil =>
    intro p e q hrun
    rw [chain] at hrun
    obtain ⟨phrase, words, n, hderives, hrest⟩ := signed_sound (h room (Nat.le_refl _)) p e q hrun
    exact ⟨phrase, words, n, .tightest hderives, hrest⟩
  | cons hlevel _ ih =>
    intro p e q hrun
    rw [chain] at hrun
    obtain ⟨l, r, hfirst, hrun⟩ := bind_eq_ok.1 hrun
    obtain ⟨left, first, m, hleftDerives, hm, hleftConsumes, hleft, hleftUnits⟩ :=
      ih h p l r hfirst
    obtain ⟨phrase, rest, n, nodes, hderives, hn, hconsumes, hsize, hbuild, hunits⟩ :=
      links_sound hlevel (fun s hs => ih fun r hr => h r (by omega)) hleft hleftConsumes.count
        hleftUnits hrun
    refine ⟨phrase, first ++ rest, max m n, .chain hleftDerives hderives, by omega, ?_, hbuild,
      hunits⟩
    rw [hsize]
    exact hleftConsumes.trans hconsumes

/-! ## Operands and expressions -/

theorem arguments_sound {room : Nat}
    (h : Sound allowed .expression room (expression allowed room)) {p q : Parser} {es : List Expr}
    (hrun : (separated (expression allowed room) (.symbol .comma)).run p = (.ok es, q)) :
    ∃ phrases words n, Derives (.arguments phrases) words n ∧ n ≤ room ∧
      p.Consumes q words (Phrase.sizes phrases) ∧
      Phrase.buildAll phrases p.builder.count = .ok es ∧
      ∀ unit ∈ Phrase.unitsOfAll phrases, allowed unit = true := by
  -- Induction on the arguments, which are numbered one after the other.
  refine separated_induct (motive := fun p es q => ∃ phrases words n,
    Derives (.arguments phrases) words n ∧ n ≤ room ∧
      p.Consumes q words (Phrase.sizes phrases) ∧
      Phrase.buildAll phrases p.builder.count = .ok es ∧
      ∀ unit ∈ Phrase.unitsOfAll phrases, allowed unit = true) ?_ ?_ hrun
  · intro p e q hlast
    obtain ⟨phrase, words, n, hderives, hn, hconsumes, hbuild, hunits⟩ := h p e q hlast
    refine ⟨[phrase], words, n, .lastArgument hderives, hn, hconsumes,
      Phrase.buildAll_cons hbuild rfl, ?_⟩
    intro unit hunit
    rw [Phrase.unitsOfAll, Phrase.unitsOfAll, List.append_nil] at hunit
    exact hunits unit hunit
  · intro p e r comma rest es q hfirst hr hcomma ih
    obtain ⟨phrase, words, m, hderives, hm, hconsumes, hbuild, hunits⟩ := h p e r hfirst
    obtain ⟨phrases, more, n, hmore, hn, hmoreConsumes, hbuilt, hmoreUnits⟩ := ih
    refine ⟨phrase :: phrases, words ++ comma.word :: more, max m n,
      .moreArguments hderives hcomma hmore, by omega, ?_, ?_, ?_⟩
    · have := (hconsumes.trans (consumes_cons hr)).trans hmoreConsumes
      rwa [List.append_assoc] at this
    · rw [count_past, hconsumes.count] at hbuilt
      exact Phrase.buildAll_cons hbuild hbuilt
    · rw [Phrase.unitsOfAll]
      exact List.forall_mem_append.2 ⟨hunits, hmoreUnits⟩

/-- A name, as a field or with its arguments as a call. -/
def named (allowed : String → Bool) (room : Nat) : Action Expr := do
  let name ← qualifiedName
  if ← isNext (.symbol .openParen) then
    advance
    if ← isNext (.symbol .closeParen) then
      advance
      node (.call · name [])
    else
      let arguments ← separated (expression allowed room) (.symbol .comma)
      let _ ← expect (.symbol .closeParen)
      node (.call · name arguments)
  else node (.field · name)

/-- A cast or an expression in parentheses, after the opening parenthesis. -/
def parenthesized (allowed : String → Bool) (room : Nat) : Action Expr := do
  if ← isNext .typeName then
    let target ← castTarget
    let inner ← operand allowed room
    node (.cast · target inner)
  else
    let inner ← expression allowed room
    let _ ← expect (.symbol .closeParen)
    return inner

/-- The inside of an operand. -/
def inside (allowed : String → Bool) (room : Nat) : Action Expr := do
  let token ← Action.current
  match literalValue? token with
  | some value =>
    advance
    literal allowed value
  | none =>
    match token.kind with
    | .identifier => named allowed room
    | .symbol .openParen =>
      advance
      parenthesized allowed room
    | _ => unexpected .operand

theorem operand_succ (allowed : String → Bool) (room : Nat) :
    operand allowed (room + 1) = inPart (inside allowed room) := by
  rw [operand]
  rfl

/-- What the inside of an operand reads. -/
def YieldsOperand (allowed : String → Bool) (room : Nat) (p : Parser) (e : Expr) (q : Parser) :
    Prop :=
  ∃ phrase words n, Derives (.operand phrase) words (n + 1) ∧ n ≤ room ∧
    p.Consumes q words phrase.size ∧ phrase.build p.builder.count = .ok e ∧
    ∀ unit ∈ phrase.units, allowed unit = true

theorem named_sound {room : Nat} (h : Sound allowed .expression room (expression allowed room))
    {p q : Parser} {e : Expr} (hrun : (named allowed room).run p = (.ok e, q)) :
    YieldsOperand allowed room p e q := by
  obtain ⟨name, r, hname, hrun⟩ := bind_eq_ok.1 hrun
  obtain ⟨words, parts, hparts, rfl, hread⟩ := qualifiedName_eq_ok hname
  rw [run_bind_ok (run_isNext _)] at hrun
  split at hrun
  · next hopening =>
    rw [decide_eq_true_eq] at hopening
    obtain ⟨rest, hrest⟩ := tokens_of_current (p := r) (by simp [hopening])
    rw [run_bind_ok (run_advance hrest), run_bind_ok (run_isNext _)] at hrun
    rw [← Token.kind_word] at hopening
    have hread := hread.trans (consumes_cons hrest)
    split at hrun
    -- a call without arguments
    · next hclosing =>
      rw [decide_eq_true_eq] at hclosing
      obtain ⟨rest', hrest'⟩ := tokens_of_current (p := r.past rest 0) (by simp [hclosing])
      rw [run_bind_ok (run_advance hrest'), run_node] at hrun
      rw [← Token.kind_word] at hclosing
      cases hrun
      have hread := hread.trans (consumes_cons hrest')
      refine ⟨_, _, 0, .emptyCall hparts hopening hclosing, Nat.zero_le _, ?_, ?_,
        by simp [Phrase.units, Phrase.unitsOfAll]⟩
      · simpa [Phrase.size, Phrase.sizes] using hread.trans (consumes_node _ 1)
      · rw [Phrase.build_call rfl, hread.count]
        rfl
    -- a call with arguments
    · obtain ⟨es, s, hes, hrun⟩ := bind_eq_ok.1 hrun
      obtain ⟨phrases, inner, n, hderives, hn, hconsumes, hbuilt, hunits⟩ := arguments_sound h hes
      obtain ⟨closing, t, hclosing, hrun⟩ := bind_eq_ok.1 hrun
      obtain ⟨hclosing, hlast⟩ := expect_eq_ok (by simp) hclosing
      rw [run_node] at hrun
      cases hrun
      have hclosed := (hread.trans hconsumes).trans hlast
      refine ⟨_, _, n, .call hparts hopening hderives hclosing, hn, ?_, ?_, hunits⟩
      · simpa [Phrase.size] using hclosed.trans (consumes_node _ 1)
      · rw [hread.count, Nat.add_zero] at hbuilt
        rw [Phrase.build_call hbuilt, hclosed.count]
        simp
  -- a field
  · rw [run_node] at hrun
    cases hrun
    refine ⟨_, words, 0, .field hparts, Nat.zero_le _, ?_, ?_, by simp [Phrase.units]⟩
    · simpa [Phrase.size] using hread.trans (consumes_node _ 1)
    · rw [hread.count]
      rfl

theorem parenthesized_sound {room : Nat}
    (hoperand : Sound allowed .operand room (operand allowed room))
    (hexpression : Sound allowed .expression room (expression allowed room)) {p q : Parser}
    {opening : Token} {rest : List Token} {e : Expr} (hrest : p.tokens = opening :: rest)
    (hopening : opening.kind = .symbol .openParen)
    (hrun : (parenthesized allowed room).run (p.past rest 0) = (.ok e, q)) :
    YieldsOperand allowed room p e q := by
  rw [parenthesized, run_bind_ok (run_isNext _)] at hrun
  rw [← Token.kind_word] at hopening
  have hread := consumes_cons hrest
  split at hrun
  -- a cast
  · obtain ⟨target, r, htarget, hrun⟩ := bind_eq_ok.1 hrun
    obtain ⟨words, closing, hwords, hclosing, htargetRead⟩ := castTarget_eq_ok htarget
    obtain ⟨inner, s, hinner, hrun⟩ := bind_eq_ok.1 hrun
    obtain ⟨phrase, more, n, hderives, hn, hconsumes, hbuild, hunits⟩ := hoperand _ _ _ hinner
    rw [run_node] at hrun
    cases hrun
    have hread := hread.trans htargetRead
    refine ⟨.cast target phrase, _, n, .cast hopening hwords hclosing hderives, hn, ?_, ?_,
      hunits⟩
    · simpa [Phrase.size] using (hread.trans hconsumes).trans (consumes_node _ 1)
    · rw [hread.count, Nat.add_zero] at hbuild
      rw [Phrase.build_cast hbuild, (hread.trans hconsumes).count]
      simp
  -- an expression in parentheses
  · obtain ⟨inner, r, hinner, hrun⟩ := bind_eq_ok.1 hrun
    obtain ⟨phrase, words, n, hderives, hn, hconsumes, hbuild, hunits⟩ := hexpression _ _ _ hinner
    obtain ⟨closing, s, hclosing, hrun⟩ := bind_eq_ok.1 hrun
    obtain ⟨hclosing, hlast⟩ := expect_eq_ok (by simp) hclosing
    obtain ⟨rfl, rfl⟩ := pure_eq_ok.1 hrun
    refine ⟨phrase, _, n, .group hopening hderives hclosing, hn, ?_, hbuild, hunits⟩
    simpa using (hread.trans hconsumes).trans hlast

/-- An operand, given what its parts read with room for one part less. -/
theorem operand_sound_succ {room : Nat}
    (hoperand : Sound allowed .operand room (operand allowed room))
    (hexpression : Sound allowed .expression room (expression allowed room)) :
    Sound allowed .operand (room + 1) (operand allowed (room + 1)) := by
  intro p e q hrun
  rw [operand_succ] at hrun
  obtain ⟨r, hinner, rfl⟩ := inPart_eq_ok hrun
  suffices YieldsOperand allowed room { p with depth := p.depth + 1 } e r by
    obtain ⟨phrase, words, n, hderives, hn, hconsumes, hbuild, hunits⟩ := this
    exact ⟨phrase, words, n + 1, hderives, Nat.succ_le_succ hn, consumes_inPart hconsumes, hbuild,
      hunits⟩
  -- What is read does not depend on the depth.
  revert hinner
  generalize { p with depth := p.depth + 1 } = p
  intro hinner
  rw [inside, run_bind_ok run_current] at hinner
  split at hinner
  · next value hvalue =>
    obtain ⟨rest, hrest⟩ := tokens_of_current (ne_eof_of_literalValue? hvalue)
    rw [run_bind_ok (run_advance hrest)] at hinner
    obtain ⟨unit, words, hderives, hconsumes, hbuild, hunits⟩ := literal_eq_ok hvalue hinner
    refine ⟨.literal value unit, _, 0, hderives, Nat.zero_le _, ?_, hbuild, ?_⟩
    · simpa [Phrase.size] using (consumes_cons hrest).trans hconsumes
    · simpa [Phrase.units] using hunits
  · split at hinner
    · exact named_sound hexpression hinner
    · next hopening =>
      obtain ⟨rest, hrest⟩ := tokens_of_current (p := p) (by simp [hopening])
      rw [run_bind_ok (run_advance hrest)] at hinner
      exact parenthesized_sound hoperand hexpression hrest hopening hinner
    · cases hinner

theorem operand_expression_sound (allowed : String → Bool) (room : Nat) :
    Sound allowed .operand room (operand allowed room) ∧
      Sound allowed .expression room (expression allowed room) := by
  induction room using Nat.strongRecOn with
  | ind room ih =>
    cases room with
    | zero =>
      rw [operand, expression]
      exact ⟨sound_refusePart allowed _ _, sound_refusePart allowed _ _⟩
    | succ room =>
      obtain ⟨hoperand, hexpression⟩ := ih room (Nat.lt_succ_self _)
      refine ⟨operand_sound_succ hoperand hexpression, ?_⟩
      rw [expression]
      apply sound_inPart (chain_sound matches_levels fun r hr => ?_) .expression
      exact (ih r (Nat.lt_succ_of_le hr)).1

/-- A successful run of `expression` has read what the grammar derives as an expression. -/
theorem expression_sound (allowed : String → Bool) (room : Nat) :
    Sound allowed .expression room (expression allowed room) :=
  (operand_expression_sound allowed room).2

/-- What a parser accepts is a sentence with its end. -/
theorem parse_sound {p : Parser} {e : Expr} {q : Parser} (h : p.parse allowed = (.ok e, q)) :
    ∃ phrase words n, Derives (.expression phrase) words n ∧ n ≤ p.room ∧
      p.Consumes q words phrase.size ∧ phrase.build p.builder.count = .ok e ∧
      (∀ unit ∈ phrase.units, allowed unit = true) ∧ q.current.kind = .eof := by
  rw [parse, whole] at h
  obtain ⟨e', r, hexpression, h⟩ := bind_eq_ok.1 h
  obtain ⟨phrase, words, n, hderives, hn, hconsumes, hbuild, hunits⟩ :=
    expression_sound allowed p.room p e' r hexpression
  rw [run_bind_ok (run_isNext _)] at h
  split at h
  · next heof =>
    obtain ⟨rfl, rfl⟩ := pure_eq_ok.1 h
    exact ⟨phrase, words, n, hderives, hn, hconsumes, hbuild, hunits, by simpa using heof⟩
  · cases h

end UnitCheck.Parser
