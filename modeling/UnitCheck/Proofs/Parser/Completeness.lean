import UnitCheck.Proofs.Parser.Soundness

/-!
  What the grammar derives, the parser reads.

  On the words of a derivation a run gives the expression that the derivation denotes, unless one
  of its literals does not convert or there is less room than the derivation needs; `Answers`
  says so, exactly. Greedy as the parser is, it stops where the derivation stops if the next word
  does not go on with what was read (`Ends`).
-/

namespace UnitCheck

/-! ## Words ahead -/

/-- The tokens are the given words with other tokens after them. -/
def Spells (tokens : List Token) (words : List Word) (rest : List Token) : Prop :=
  ∃ read, tokens = read ++ rest ∧ read.map Token.word = words

theorem Spells.eq_of_nil {tokens rest : List Token} (h : Spells tokens [] rest) :
    tokens = rest := by
  obtain ⟨read, rfl, hread⟩ := h
  rw [List.map_eq_nil_iff.1 hread, List.nil_append]

theorem Spells.cons {tokens rest : List Token} {word : Word} {words : List Word}
    (h : Spells tokens (word :: words) rest) :
    ∃ token more, tokens = token :: more ∧ token.word = word ∧ Spells more words rest := by
  obtain ⟨read, rfl, hread⟩ := h
  obtain ⟨token, read, rfl, htoken, hread⟩ := List.map_eq_cons_iff.1 hread
  exact ⟨token, read ++ rest, rfl, htoken, read, rfl, hread⟩

theorem Spells.append {tokens rest : List Token} {words more : List Word}
    (h : Spells tokens (words ++ more) rest) :
    ∃ middle, Spells tokens words middle ∧ Spells middle more rest := by
  obtain ⟨read, rfl, hread⟩ := h
  obtain ⟨first, second, rfl, hfirst, hsecond⟩ := List.map_eq_append_iff.1 hread
  exact ⟨second ++ rest, ⟨first, List.append_assoc .., hfirst⟩, second, rfl, hsecond⟩

/-- The kind of the first of some tokens. -/
def nextKind : List Token → Token.Kind
  | [] => .eof
  | token :: _ => token.kind

@[simp] theorem nextKind_cons (token : Token) (tokens : List Token) :
    nextKind (token :: tokens) = token.kind := rfl

theorem Parser.kind_current (p : Parser) : p.current.kind = nextKind p.tokens := by
  unfold Parser.current nextKind
  cases p.tokens <;> rfl

/-- The first token is the first of the words. -/
theorem Spells.kind_ne {tokens rest : List Token} {words : List Word}
    (hstarts : ∃ word more, words = word :: more ∧ (sign? word.kind ≠ none ∨ word.StartsOperand))
    (h : Spells tokens words rest) :
    nextKind tokens ≠ .typeName ∧ nextKind tokens ≠ .symbol .closeParen := by
  obtain ⟨word, more, rfl, hword⟩ := hstarts
  obtain ⟨token, _, rfl, rfl, -⟩ := h.cons
  exact Word.kind_ne_of_starts hword

/-- A word of the kind goes on with no operand, and with no chain of the tiers. -/
structure Ends (tiers : List Tier) (kind : Token.Kind) : Prop where
  ne_identifier : kind ≠ .identifier
  ne_dot : kind ≠ .symbol .dot
  ne_openParen : kind ≠ .symbol .openParen
  operator? : ∀ tier ∈ tiers, tier.operator? kind = none

theorem Ends.of_subset {tiers more : List Tier} {kind : Token.Kind} (h : Ends more kind)
    (hsubset : tiers ⊆ more) : Ends tiers kind :=
  ⟨h.1, h.2, h.3, fun tier htier => h.4 tier (hsubset htier)⟩

/-- An operator ends the chains of the other tiers. -/
theorem Ends.of_operator? {tier : Tier} {tiers : List Tier} {kind : Token.Kind} {op : BinaryOp}
    (hop : tier.operator? kind = some op) (htier : tier ∉ tiers) : Ends tiers kind where
  ne_identifier := by rintro rfl; cases tier <;> cases hop
  ne_dot := by rintro rfl; cases tier <;> cases hop
  ne_openParen := by rintro rfl; cases tier <;> cases hop
  operator? other hother := by
    by_contra hne
    exact htier (Tier.eq_of_operator? hop hne ▸ hother)

theorem ends_closeParen (tiers : List Tier) : Ends tiers (.symbol .closeParen) :=
  ⟨by simp, by simp, by simp, fun tier _ => by cases tier <;> rfl⟩

theorem ends_comma (tiers : List Tier) : Ends tiers (.symbol .comma) :=
  ⟨by simp, by simp, by simp, fun tier _ => by cases tier <;> rfl⟩

theorem ends_eof (tiers : List Tier) : Ends tiers .eof :=
  ⟨by simp, by simp, by simp, fun tier _ => by cases tier <;> rfl⟩

/-- Where links start, the chain before them ends. -/
theorem Ends.of_links {tier : Tier} {tighter : List Tier} {left phrase : Phrase}
    {words : List Word} {n : Nat} {tokens rest : List Token}
    (hderives : Derives (.links tier tighter left phrase) words n)
    (hspells : Spells tokens words rest) (hrest : Ends (tier :: tighter) (nextKind rest))
    (htier : tier ∉ tighter) : Ends tighter (nextKind tokens) := by
  cases words with
  | nil =>
    rw [hspells.eq_of_nil]
    exact hrest.of_subset (List.subset_cons_self _ _)
  | cons word words =>
    obtain ⟨token, more, rfl, rfl, -⟩ := hspells.cons
    obtain ⟨op, hop⟩ := Option.ne_none_iff_exists'.1 (hderives.starts token.word rfl)
    exact .of_operator? hop htier

/-! ## Answers -/

/-- The outcomes of a run over words that need room for `n` parts and denote `built`: the value,
    with all the words read, or a failure for one of the two reasons there can be. -/
inductive Answers {α : Type} (n room : Nat) (built : Except SyntaxError α) (after : Parser) :
    Outcome α → Prop where
  | done {a : α} (hroom : n ≤ room) (h : built = .ok a) : Answers n room built after (.ok a, after)
  | unread {cause : SyntaxError} {q : Parser} (h : built = .error cause) :
      Answers n room built after (.error (.parse cause), q)
  | tooDeep {q : Parser} (hroom : room < n) :
      Answers n room built after (.error (.parse .tooDeep), q)

namespace Answers

open UnitCheck.Action

variable {α β : Type} {room m n : Nat} {built : Except SyntaxError α}
  {built' : Except SyntaxError β} {p r after : Parser} {x : Action α} {f : α → Action β}

theorem bind (hx : Answers m room built r (x.run p))
    (hf : ∀ a, built = .ok a → Answers n room built' after ((f a).run r))
    (herror : ∀ cause, built = .error cause → built' = .error cause) :
    Answers (max m n) room built' after ((x >>= f).run p) := by
  rw [run_bind]
  generalize x.run p = outcome at hx ⊢
  cases hx with
  | done hroom h =>
    dsimp only
    generalize (f _).run r = outcome, hf _ h = hf
    cases hf with
    | done hroom' h' => exact .done (by omega) h'
    | unread h' => exact .unread h'
    | tooDeep hroom' => exact .tooDeep (by omega)
  | unread h => exact .unread (herror _ h)
  | tooDeep hroom => exact .tooDeep (by omega)

/-- An action that succeeds afterwards. -/
theorem andThen (hx : Answers n room built r (x.run p))
    (hf : ∀ a, built = .ok a → ∃ b, built' = .ok b ∧ (f a).run r = (.ok b, after))
    (herror : ∀ cause, built = .error cause → built' = .error cause) :
    Answers n room built' after ((x >>= f).run p) := by
  have : Answers (max n 0) room built' after ((x >>= f).run p) := bind hx ?_ herror
  · rwa [Nat.max_zero] at this
  · intro a ha
    obtain ⟨b, hb, hrun⟩ := hf a ha
    rw [hrun]
    exact .done (Nat.zero_le _) hb

/-- A part around words takes room for one part more. -/
theorem inPart {rest : List Token} {nodes : Nat}
    (h : Answers n room built ({ p with depth := p.depth + 1 }.past rest nodes)
      (x.run { p with depth := p.depth + 1 })) :
    Answers (n + 1) (room + 1) built (p.past rest nodes) ((Action.inPart x).run p) := by
  have hopen : openPart.run p = (.ok (), { p with depth := p.depth + 1 }) := rfl
  rw [Action.inPart, run_bind_ok hopen, run_bind]
  generalize x.run { p with depth := p.depth + 1 } = outcome at h ⊢
  cases h with
  | done hroom h => exact .done (Nat.succ_le_succ hroom) h
  | unread h => exact .unread h
  | tooDeep hroom => exact .tooDeep (Nat.succ_lt_succ hroom)

/-- There is no room for a part. -/
theorem refused : Answers (n + 1) 0 built after (refusePart.run p) :=
  .tooDeep (Nat.succ_pos _)

end Answers

namespace Parser

open UnitCheck.Action

variable {allowed : String → Bool}

/-! ## Names and types -/

theorem kind_head?_ne {p : Parser} {rest : List Token} {nodes : Nat} {kind : Token.Kind}
    (h : nextKind rest ≠ kind) : ∀ token ∈ (p.past rest nodes).tokens.head?, token.kind ≠ kind := by
  intro token htoken
  obtain ⟨after, rfl⟩ := List.head?_eq_some_iff.1 htoken
  exact h

theorem qualifiedName_answer {words : List Word} {parts : List String}
    (h : QualifiedName words parts) {p : Parser} {rest : List Token}
    (hspells : Spells p.tokens words rest) (hrest : nextKind rest ≠ .symbol .dot) :
    qualifiedName.run p = (.ok (".".intercalate parts), p.past rest 0) := by
  suffices ∃ tokens : List Token, tokens.map Token.value = parts ∧
      (separated (expect .identifier) (.symbol .dot)).run p = (.ok tokens, p.past rest 0) by
    obtain ⟨tokens, rfl, hrun⟩ := this
    rw [qualifiedName, run_bind_ok hrun, run_pure]
  -- Induction on the parts of the name: the loop goes on just behind a dot.
  induction h generalizing p with
  | last hkind =>
    obtain ⟨token, more, hp, rfl, hmore⟩ := hspells.cons
    obtain rfl := hmore.eq_of_nil
    exact ⟨[token], rfl, run_separated_last (run_expect hp hkind) (kind_head?_ne hrest)⟩
  | more hkind hdot _ ih =>
    obtain ⟨token, middle, hp, rfl, hmiddle⟩ := hspells.cons
    obtain ⟨dot, more, rfl, rfl, hmore⟩ := hmiddle.cons
    obtain ⟨tokens, hparts, hrun⟩ := ih (p := (p.past (dot :: more) 0).past more 0) hmore
    refine ⟨token :: tokens, by rw [List.map_cons, hparts]; rfl, ?_⟩
    rw [run_separated_more (run_expect hp hkind) rfl hdot, hrun]
    rfl

theorem castTarget_answer {words : List Word} {closing : Word} {target : CastType}
    (h : CastWords words target) (hclosing : closing.kind = .symbol .closeParen) {p : Parser}
    {rest : List Token} (hspells : Spells p.tokens (words ++ [closing]) rest) :
    castTarget.run p = (.ok target, p.past rest 0) := by
  cases h with
  -- The name of the type is followed by the parenthesis at once, or by the mark of a nullable type.
  | plain hkind htype =>
    obtain ⟨token, middle, hp, rfl, hmiddle⟩ := hspells.cons
    obtain ⟨close, more, rfl, rfl, hmore⟩ := hmiddle.cons
    obtain rfl := hmore.eq_of_nil
    rw [castTarget, run_bind_ok (run_expect hp hkind), ← Token.value_word, htype,
      run_bind_ok (run_isNext _)]
    have hmark : (p.past (close :: more) 0).current.kind ≠ .symbol .question := by
      rw [current_of_cons (tokens_past ..), ← Token.kind_word, hclosing]
      simp
    simp only [hmark, decide_false, Bool.and_false, Bool.false_eq_true, if_false]
    rw [run_bind_ok (run_expect rfl hclosing), run_pure]
    rfl
  | nullable hkind htype hnullable hquestion =>
    obtain ⟨token, middle, hp, rfl, hmiddle⟩ := hspells.cons
    obtain ⟨question, middle', rfl, rfl, hmiddle'⟩ := hmiddle.cons
    obtain ⟨close, more, rfl, rfl, hmore⟩ := hmiddle'.cons
    obtain rfl := hmore.eq_of_nil
    rw [castTarget, run_bind_ok (run_expect hp hkind), ← Token.value_word, htype,
      run_bind_ok (run_isNext _)]
    have hmark : (p.past (question :: close :: more) 0).current.kind = .symbol .question := by
      rw [current_of_cons (tokens_past ..), ← Token.kind_word, hquestion]
    simp only [hmark, hnullable, decide_true, Bool.and_true, if_true]
    rw [run_bind_ok (run_advance rfl), run_bind_ok (run_expect rfl hclosing), run_pure]
    rfl

/-! ## What a run answers -/

/-- On words that denote the phrase, before a word that ends it, the action answers. -/
def Answered (allowed : String → Bool) (tiers : List Tier) (action : Nat → Action Expr)
    (phrase : Phrase) (words : List Word) (n : Nat) : Prop :=
  ∀ room p rest, Spells p.tokens words rest → Ends tiers (nextKind rest) →
    (∀ unit ∈ phrase.units, allowed unit = true) →
      Answers n room (phrase.build p.builder.count) (p.past rest phrase.size)
        ((action room).run p)

/-- The parser answers on words that are read so. -/
def Complete (allowed : String → Bool) : Reading → List Word → Nat → Prop
  | .expression phrase, words, n =>
    Answered allowed Tier.all (expression allowed) phrase words n
  | .chain tiers phrase, words, n =>
    ∀ levels, List.Forall₂ Matches tiers levels → tiers.Nodup →
      Answered allowed tiers (chain allowed · levels) phrase words n
  | .links tier tighter left phrase, words, n =>
    ∀ level levels, Matches tier level → List.Forall₂ Matches tighter levels →
      (tier :: tighter).Nodup → ∀ room p rest start l, Spells p.tokens words rest →
        Ends (tier :: tighter) (nextKind rest) → (∀ unit ∈ phrase.units, allowed unit = true) →
          left.build start = .ok l → p.builder.count = start + left.size →
            Answers n room (phrase.build start) (p.past rest (phrase.size - left.size))
              ((links allowed level levels l room).run p)
  | .signed phrase, words, n => Answered allowed [] (signed allowed) phrase words n
  | .operand phrase, words, n => Answered allowed [] (operand allowed) phrase words n
  | .arguments phrases, words, n =>
    ∀ room p rest, Spells p.tokens words rest → Ends Tier.all (nextKind rest) →
      nextKind rest ≠ .symbol .comma →
        (∀ unit ∈ Phrase.unitsOfAll phrases, allowed unit = true) →
          Answers n room (Phrase.buildAll phrases p.builder.count)
            (p.past rest (Phrase.sizes phrases))
            ((separated (expression allowed room) (.symbol .comma)).run p)

/-! ## Chains -/

theorem expression_complete {phrase : Phrase} {words : List Word} {n : Nat}
    (h : Complete allowed (.chain Tier.all phrase) words n) :
    Complete allowed (.expression phrase) words (n + 1) := by
  intro room p rest hspells hrest hunits
  cases room with
  | zero =>
    rw [expression]
    exact .refused
  | succ room =>
    rw [expression]
    exact .inPart (h levels matches_levels (by decide) room { p with depth := p.depth + 1 } rest
      hspells hrest hunits)

theorem tightest_complete {phrase : Phrase} {words : List Word} {n : Nat}
    (h : Complete allowed (.signed phrase) words n) :
    Complete allowed (.chain [] phrase) words n := by
  intro levels hlevels _ room p rest hspells hrest hunits
  cases hlevels
  dsimp only
  rw [chain]
  exact h room p rest hspells hrest hunits

theorem chain_complete {tier : Tier} {tighter : List Tier} {left phrase : Phrase}
    {first rest : List Word} {m n : Nat} (hlinks : Derives (.links tier tighter left phrase) rest n)
    (hfirst : Complete allowed (.chain tighter left) first m)
    (hrest : Complete allowed (.links tier tighter left phrase) rest n) :
    Complete allowed (.chain (tier :: tighter) phrase) (first ++ rest) (max m n) := by
  intro levels hlevels hnodup room p after hspells hafter hunits
  cases hlevels with
  | cons hlevel htighter =>
    have hextends : phrase.Extends left := hlinks.extends
    obtain ⟨middle, hleft, hright⟩ := hspells.append
    obtain ⟨htier, htighterNodup⟩ := List.nodup_cons.1 hnodup
    have hmiddle := Ends.of_links hlinks hright hafter htier
    dsimp only
    rw [chain]
    -- the first operand, then the links from it on
    refine .bind (hfirst _ htighter htighterNodup room p middle hleft hmiddle ?_) ?_ ?_
    · exact fun unit hunit => hunits unit (hextends.units_subset hunit)
    · intro l hl
      have := hrest _ _ hlevel htighter hnodup room (p.past middle left.size) after _ l hright
        hafter hunits hl rfl
      rwa [past_past, Nat.add_sub_cancel' hextends.size_le] at this
    · exact fun cause => hextends.build_error

theorem unlinked_complete {tier : Tier} {tighter : List Tier} {left : Phrase} :
    Complete allowed (.links tier tighter left left) [] 0 := by
  intro level levels hlevel _ _ room p rest start l hspells hrest _ hl _
  obtain rfl := hspells.eq_of_nil
  rw [links, run_bind_ok (operatorOf_run hlevel p), kind_current,
    hrest.operator? tier (List.mem_cons_self ..)]
  dsimp only
  rw [run_pure, Nat.sub_self]
  exact .done (Nat.zero_le _) hl

theorem link_complete {tier : Tier} {tighter : List Tier} {left right phrase : Phrase}
    {word : Word} {op : BinaryOp} {next rest : List Word} {m n : Nat}
    (hop : tier.operator? word.kind = some op)
    (hlinks : Derives (.links tier tighter (.binary op left right) phrase) rest n)
    (hnext : Complete allowed (.chain tighter right) next m)
    (hrest : Complete allowed (.links tier tighter (.binary op left right) phrase) rest n) :
    Complete allowed (.links tier tighter left phrase) (word :: (next ++ rest)) (max m n + 1) := by
  intro level levels hlevel htighter hnodup room p after start l hspells hafter hunits hl hcount
  obtain ⟨token, more, hp, rfl, hmore⟩ := hspells.cons
  rw [links, run_bind_ok (operatorOf_run hlevel p), current_of_cons hp, ← Token.kind_word, hop]
  dsimp only
  rw [run_bind_ok (run_advance hp)]
  cases room with
  | zero => exact .refused
  | succ room =>
    have hextends : phrase.Extends (.binary op left right) := hlinks.extends
    obtain ⟨middle, hright, hlast⟩ := hmore.append
    obtain ⟨htier, htighterNodup⟩ := List.nodup_cons.1 hnodup
    have hmiddle := Ends.of_links hlinks hlast hafter htier
    -- What the inside of this part makes is what the phrase has more than `left`.
    have hsize := hextends.size_le
    rw [Phrase.size] at hsize
    have hnodes : right.size + 1 + (phrase.size - (Phrase.binary op left right).size) =
        phrase.size - left.size := by
      rw [Phrase.size]
      omega
    rw [← hnodes, ← Nat.zero_add (right.size + 1 + _), ← past_past p more]
    -- the right side, then the rest of the chain with the operation as its left side
    refine .inPart (.bind (r := { p.past more 0 with depth := p.depth + 1 }.past middle right.size)
      (hnext levels htighter htighterNodup room _ middle hright hmiddle ?_) ?_ ?_)
    · exact fun unit hunit => hunits unit (hextends.units_subset (List.mem_append_right _ hunit))
    · intro r hr
      change right.build p.builder.count = _ at hr
      rw [run_bind_ok (run_node _), past_past]
      have hbuild : (Phrase.binary op left right).build start =
          .ok (.binary (p.builder.count + right.size) op l r) := by
        rw [hcount] at hr ⊢
        exact Phrase.build_binary hl hr
      have := hrest level levels hlevel htighter hnodup room
        ({ p.past more 0 with depth := p.depth + 1 }.past middle (right.size + 1)) after start _
        hlast hafter hunits hbuild (by rw [Phrase.size]; change p.builder.count + _ = _; omega)
      rwa [past_past] at this
    · intro cause hcause
      apply hextends.build_error
      change right.build p.builder.count = _ at hcause
      rw [hcount] at hcause
      exact Phrase.build_binary_error_right hl hcause op

theorem unsigned_complete {phrase : Phrase} {words : List Word} {n : Nat}
    (hderives : Derives (.operand phrase) words n)
    (h : Complete allowed (.operand phrase) words n) :
    Complete allowed (.signed phrase) words n := by
  intro room p rest hspells hrest hunits
  obtain ⟨word, words, rfl, hword⟩ := hderives.starts
  obtain ⟨token, more, hp, rfl, -⟩ := hspells.cons
  rw [signed, run_bind_ok (leadingOperator_run p), current_of_cons hp, ← Token.kind_word,
    hword.kind_ne.1]
  exact h room p rest hspells hrest hunits

theorem signed_complete {phrase : Phrase} {word : Word} {op : UnaryOp} {words : List Word}
    {n : Nat} (hop : sign? word.kind = some op) (h : Complete allowed (.operand phrase) words n) :
    Complete allowed (.signed (.unary op phrase)) (word :: words) n := by
  intro room p rest hspells hrest hunits
  obtain ⟨token, more, hp, rfl, hmore⟩ := hspells.cons
  rw [signed, run_bind_ok (leadingOperator_run p), current_of_cons hp, ← Token.kind_word, hop]
  dsimp only
  rw [run_bind_ok (run_advance hp)]
  refine .andThen (h room (p.past more 0) rest hmore hrest hunits) ?_ ?_
  · intro e he
    refine ⟨_, Phrase.build_unary he, ?_⟩
    rw [run_node, past_past, past_past]
    simp [Phrase.size]
  · intro cause hcause
    exact Phrase.build_unary_error hcause _

/-! ## Operands -/

/-- The inside of an operand may be answered instead. -/
theorem operand_complete {phrase : Phrase} {words : List Word} {n : Nat}
    (h : Answered allowed [] (inside allowed) phrase words n) :
    Complete allowed (.operand phrase) words (n + 1) := by
  intro room p rest hspells hrest hunits
  cases room with
  | zero =>
    rw [operand]
    exact .refused
  | succ room =>
    rw [operand_succ]
    exact .inPart (h room { p with depth := p.depth + 1 } rest hspells hrest hunits)

/-- An operand that starts with a literal goes on as `literal` does. -/
theorem inside_literal (allowed : String → Bool) (room : Nat) {word : Word}
    {value : Except SyntaxError Literal} (h : word.literal? = some value) {p : Parser}
    {words : List Word} {rest : List Token} (hspells : Spells p.tokens (word :: words) rest) :
    ∃ more, Spells more words rest ∧
      (inside allowed room).run p = (literal allowed value).run (p.past more 0) := by
  obtain ⟨token, more, hp, rfl, hmore⟩ := hspells.cons
  refine ⟨more, hmore, ?_⟩
  rw [inside, run_bind_ok run_current, current_of_cons hp, ← Token.literal?_word, h]
  dsimp only
  rw [run_bind_ok (run_advance hp)]

theorem literal_complete {word : Word} {value : Except SyntaxError Literal}
    (h : word.literal? = some value) :
    Complete allowed (.operand (.literal value none)) [word] 1 := by
  apply operand_complete
  intro room p rest hspells hrest _
  obtain ⟨more, hmore, hrun⟩ := inside_literal allowed room h hspells
  obtain rfl := hmore.eq_of_nil
  rw [hrun]
  cases value with
  | error cause => exact .unread rfl
  | ok value =>
    -- No unit follows, for the word after an operand is no identifier.
    have hnext : (p.past more 0).current.kind ≠ .identifier := by
      rw [kind_current]
      exact hrest.ne_identifier
    rw [literal, run_bind_ok (run_isNext _)]
    simp only [hnext, decide_false, Bool.and_false, Bool.false_eq_true, if_false]
    rw [run_node, past_past]
    exact .done (Nat.zero_le _) rfl

theorem quantity_complete {word unit : Word} {value : Except SyntaxError Literal}
    (h : word.literal? = some value)
    (hnumber : word.kind = .intLiteral ∨ word.kind = .realLiteral)
    (hunit : unit.kind = .identifier) :
    Complete allowed (.operand (.literal value (some unit.value))) [word, unit] 1 := by
  apply operand_complete
  intro room p rest hspells hrest hunits
  obtain ⟨more, hmore, hrun⟩ := inside_literal allowed room h hspells
  obtain ⟨symbol, after, rfl, rfl, hafter⟩ := hmore.cons
  obtain rfl := hafter.eq_of_nil
  rw [hrun]
  cases value with
  -- A literal that does not convert ends the call before its unit is read.
  | error cause => exact .unread rfl
  | ok value =>
    have hnext : (p.past (symbol :: after) 0).current.kind = .identifier := by
      rw [kind_current]
      exact hunit
    have hallowed : allowed symbol.value = true := hunits _ (by simp [Phrase.units])
    have hsymbol : (unitSymbol allowed).run (p.past (symbol :: after) 0) =
        (.ok symbol.value, (p.past (symbol :: after) 0).past after 0) := by
      rw [unitSymbol, run_bind_ok (run_expect rfl hunit), if_pos hallowed, run_pure]
    rw [literal, run_bind_ok (run_isNext _)]
    simp only [hnext, (isNumeric_iff h).2 hnumber, decide_true, Bool.and_true, if_true]
    rw [run_bind_ok hsymbol, run_node, past_past, past_past]
    exact .done (Nat.zero_le _) rfl

/-- An operand that starts with a name is a field or a call. -/
theorem inside_named {words : List Word} {parts : List String} (h : QualifiedName words parts)
    {room : Nat} {p : Parser} {more : List Word} {rest : List Token}
    (hspells : Spells p.tokens (words ++ more) rest) :
    (inside allowed room).run p = (named allowed room).run p := by
  obtain ⟨word, words, rfl, hword⟩ := h.starts
  obtain ⟨token, _, hp, rfl, -⟩ := hspells.cons
  rw [Token.kind_word] at hword
  have hliteral : literalValue? token = none := by
    rw [literalValue?, hword]
  rw [inside, run_bind_ok run_current, current_of_cons hp, hliteral, hword]

theorem field_complete {words : List Word} {parts : List String}
    (h : QualifiedName words parts) :
    Complete allowed (.operand (.field (".".intercalate parts))) words 1 := by
  apply operand_complete
  intro room p rest hspells hrest _
  have hspells' : Spells p.tokens (words ++ []) rest := by rwa [List.append_nil]
  rw [inside_named h hspells', named,
    run_bind_ok (qualifiedName_answer h hspells hrest.ne_dot), run_bind_ok (run_isNext _)]
  have hnext : (p.past rest 0).current.kind ≠ .symbol .openParen := by
    rw [kind_current]
    exact hrest.ne_openParen
  simp only [hnext, decide_false, Bool.false_eq_true, if_false]
  rw [run_node, past_past]
  exact .done (Nat.zero_le _) rfl

/-- A name with an opening parenthesis after it is a call. -/
theorem named_opening (allowed : String → Bool) (room : Nat) {words : List Word}
    {parts : List String} {opening : Word} (h : QualifiedName words parts)
    (hopening : opening.kind = .symbol .openParen) {p : Parser} {more : List Word}
    {rest : List Token}
    (hspells : Spells p.tokens (words ++ opening :: more) rest) :
    ∃ after, Spells after more rest ∧ (named allowed room).run p =
      (do
        if ← isNext (.symbol .closeParen) then
          advance
          node (.call · (".".intercalate parts) [])
        else
          let arguments ← separated (expression allowed room) (.symbol .comma)
          let _ ← expect (.symbol .closeParen)
          node (.call · (".".intercalate parts) arguments) : Action Expr).run (p.past after 0) := by
  obtain ⟨middle, hname, hmiddle⟩ := hspells.append
  obtain ⟨token, after, rfl, rfl, hafter⟩ := hmiddle.cons
  rw [Token.kind_word] at hopening
  refine ⟨after, hafter, ?_⟩
  rw [named, run_bind_ok (qualifiedName_answer h hname (by simp [hopening])),
    run_bind_ok (run_isNext _)]
  have hnext : (p.past (token :: after) 0).current.kind = .symbol .openParen := by
    rw [kind_current]
    exact hopening
  simp only [hnext, decide_true, if_true]
  rw [run_bind_ok (run_advance rfl), past_past]

theorem emptyCall_complete {words : List Word} {parts : List String} {opening closing : Word}
    (h : QualifiedName words parts) (hopening : opening.kind = .symbol .openParen)
    (hclosing : closing.kind = .symbol .closeParen) :
    Complete allowed (.operand (.call (".".intercalate parts) [])) (words ++ [opening, closing])
      1 := by
  apply operand_complete
  intro room p rest hspells _ _
  obtain ⟨after, hafter, hrun⟩ :=
    named_opening allowed room h hopening hspells
  obtain ⟨close, more, rfl, rfl, hmore⟩ := hafter.cons
  obtain rfl := hmore.eq_of_nil
  have hnext : (p.past (close :: more) 0).current.kind = .symbol .closeParen := by
    rw [kind_current]
    exact hclosing
  rw [inside_named h hspells, hrun, run_bind_ok (run_isNext _)]
  simp only [hnext, decide_true, if_true]
  rw [run_bind_ok (run_advance rfl), run_node, past_past, past_past]
  exact .done (Nat.zero_le _) rfl

theorem call_complete {words inner : List Word} {parts : List String} {opening closing : Word}
    {arguments : List Phrase} {n : Nat} (h : QualifiedName words parts)
    (hopening : opening.kind = .symbol .openParen)
    (hderives : Derives (.arguments arguments) inner n)
    (harguments : Complete allowed (.arguments arguments) inner n)
    (hclosing : closing.kind = .symbol .closeParen) :
    Complete allowed (.operand (.call (".".intercalate parts) arguments))
      (words ++ opening :: (inner ++ [closing])) (n + 1) := by
  apply operand_complete
  intro room p rest hspells _ hunits
  obtain ⟨after, hafter, hrun⟩ :=
    named_opening allowed room h hopening hspells
  obtain ⟨middle, hinner, hmiddle⟩ := hafter.append
  obtain ⟨close, more, rfl, rfl, hmore⟩ := hmiddle.cons
  obtain rfl := hmore.eq_of_nil
  rw [Token.kind_word] at hclosing
  have hnext : (p.past after 0).current.kind ≠ .symbol .closeParen := by
    rw [kind_current]
    exact (hinner.kind_ne hderives.starts).2
  rw [inside_named h hspells, hrun, run_bind_ok (run_isNext _)]
  simp only [hnext, decide_false, Bool.false_eq_true, if_false]
  -- the arguments, then the closing parenthesis and the node
  refine .andThen (harguments room (p.past after 0) (close :: more) hinner ?_ ?_ hunits) ?_ ?_
  · rw [nextKind_cons, hclosing]
    exact ends_closeParen _
  · simp [hclosing]
  · intro es hes
    rw [count_past, Nat.add_zero] at hes
    refine ⟨_, Phrase.build_call hes, ?_⟩
    rw [run_bind_ok (run_expect rfl hclosing), run_node, past_past, past_past, past_past]
    simp [Phrase.size]
  · intro cause hcause
    exact Phrase.build_call_error hcause _

/-- An operand that starts with a parenthesis is a cast or an expression. -/
theorem inside_opening (allowed : String → Bool) (room : Nat) {opening : Word}
    (hopening : opening.kind = .symbol .openParen) {p : Parser} {words : List Word}
    {rest : List Token}
    (hspells : Spells p.tokens (opening :: words) rest) :
    ∃ more, Spells more words rest ∧
      (inside allowed room).run p = (parenthesized allowed room).run (p.past more 0) := by
  obtain ⟨token, more, hp, rfl, hmore⟩ := hspells.cons
  rw [Token.kind_word] at hopening
  have hliteral : literalValue? token = none := by
    rw [literalValue?, hopening]
  refine ⟨more, hmore, ?_⟩
  rw [inside, run_bind_ok run_current, current_of_cons hp, hliteral, hopening]
  dsimp only
  rw [run_bind_ok (run_advance hp)]

theorem cast_complete {words inner : List Word} {opening closing : Word} {target : CastType}
    {phrase : Phrase} {n : Nat} (hopening : opening.kind = .symbol .openParen)
    (htarget : CastWords words target) (hclosing : closing.kind = .symbol .closeParen)
    (h : Complete allowed (.operand phrase) inner n) :
    Complete allowed (.operand (.cast target phrase)) (opening :: (words ++ closing :: inner))
      (n + 1) := by
  apply operand_complete
  intro room p rest hspells hrest hunits
  obtain ⟨more, hmore, hrun⟩ := inside_opening allowed room hopening hspells
  rw [← List.singleton_append, ← List.append_assoc] at hmore
  obtain ⟨middle, htype, hinner⟩ := hmore.append
  have hnext : (p.past more 0).current.kind = .typeName := by
    rw [kind_current]
    cases htarget with
    | plain hkind _ =>
      obtain ⟨token, _, rfl, rfl, -⟩ := htype.cons
      exact hkind
    | nullable hkind _ _ _ =>
      obtain ⟨token, _, rfl, rfl, -⟩ := htype.cons
      exact hkind
  rw [hrun, parenthesized, run_bind_ok (run_isNext _)]
  simp only [hnext, decide_true, if_true]
  rw [run_bind_ok (castTarget_answer htarget hclosing htype), past_past]
  -- the operand, then the node
  refine .andThen (h room (p.past middle 0) rest hinner hrest hunits) ?_ ?_
  · intro e he
    refine ⟨_, Phrase.build_cast he, ?_⟩
    rw [run_node, past_past, past_past]
    simp [Phrase.size]
  · intro cause hcause
    exact Phrase.build_cast_error hcause _

theorem group_complete {inner : List Word} {opening closing : Word} {phrase : Phrase} {n : Nat}
    (hopening : opening.kind = .symbol .openParen) (hderives : Derives (.expression phrase) inner n)
    (h : Complete allowed (.expression phrase) inner n)
    (hclosing : closing.kind = .symbol .closeParen) :
    Complete allowed (.operand phrase) (opening :: (inner ++ [closing])) (n + 1) := by
  apply operand_complete
  intro room p rest hspells _ hunits
  obtain ⟨more, hmore, hrun⟩ := inside_opening allowed room hopening hspells
  obtain ⟨middle, hinner, hmiddle⟩ := hmore.append
  obtain ⟨close, after, rfl, rfl, hafter⟩ := hmiddle.cons
  obtain rfl := hafter.eq_of_nil
  rw [Token.kind_word] at hclosing
  have hnext : (p.past more 0).current.kind ≠ .typeName := by
    rw [kind_current]
    exact (hinner.kind_ne hderives.starts).1
  rw [hrun, parenthesized, run_bind_ok (run_isNext _)]
  simp only [hnext, decide_false, Bool.false_eq_true, if_false]
  -- the expression, then the closing parenthesis
  refine .andThen (h room (p.past more 0) (close :: after) hinner ?_ hunits) ?_ ?_
  · rw [nextKind_cons, hclosing]
    exact ends_closeParen _
  · intro e he
    refine ⟨e, he, ?_⟩
    rw [run_bind_ok (run_expect rfl hclosing), run_pure, past_past, past_past]
    simp
  · exact fun _ => id

/-! ## Arguments -/

theorem lastArgument_complete {phrase : Phrase} {words : List Word} {n : Nat}
    (h : Complete allowed (.expression phrase) words n) :
    Complete allowed (.arguments [phrase]) words n := by
  intro room p rest hspells hrest hcomma hunits
  have hphrase := h room p rest hspells hrest fun unit hunit => hunits unit (by
    rw [Phrase.unitsOfAll]
    exact List.mem_append_left _ hunit)
  generalize hitem : (expression allowed room).run p = outcome at hphrase
  cases hphrase with
  | done hroom hbuild =>
    rw [run_separated_last hitem (kind_head?_ne hcomma)]
    exact .done hroom (Phrase.buildAll_cons hbuild rfl)
  | unread hbuild =>
    rw [run_separated_error hitem]
    exact .unread (Phrase.buildAll_error_head hbuild _)
  | tooDeep hroom =>
    rw [run_separated_error hitem]
    exact .tooDeep hroom

theorem moreArguments_complete {phrase : Phrase} {phrases : List Phrase} {words rest : List Word}
    {comma : Word} {m n : Nat} (h : Complete allowed (.expression phrase) words m)
    (hcomma : comma.kind = .symbol .comma) (hrest : Complete allowed (.arguments phrases) rest n) :
    Complete allowed (.arguments (phrase :: phrases)) (words ++ comma :: rest) (max m n) := by
  intro room p after hspells hafter hlast hunits
  obtain ⟨middle, hwords, hmiddle⟩ := hspells.append
  obtain ⟨token, more, rfl, rfl, hmore⟩ := hmiddle.cons
  rw [Token.kind_word] at hcomma
  rw [Phrase.unitsOfAll] at hunits
  have hends : Ends Tier.all (nextKind (token :: more)) := by
    rw [nextKind_cons, hcomma]
    exact ends_comma _
  have hphrase := h room p (token :: more) hwords hends
    fun unit hunit => hunits unit (List.mem_append_left _ hunit)
  generalize hitem : (expression allowed room).run p = outcome at hphrase
  cases hphrase with
  -- The loop goes on only after an argument that was read.
  | done hroom hbuild =>
    have hphrases := hrest room (p.past more phrase.size) after hmore hafter hlast
      fun unit hunit => hunits unit (List.mem_append_right _ hunit)
    rw [run_separated_more hitem rfl hcomma, past_past, Nat.add_zero]
    rw [past_past] at hphrases
    generalize (separated (expression allowed room) (.symbol .comma)).run
      (p.past more phrase.size) = outcome at hphrases
    cases hphrases with
    | done hroom' hbuilt => exact .done (by omega) (Phrase.buildAll_cons hbuild hbuilt)
    | unread hbuilt =>
      rw [count_past] at hbuilt
      exact .unread (Phrase.buildAll_error_tail hbuild hbuilt)
    | tooDeep hroom' => exact .tooDeep (by omega)
  | unread hbuild =>
    rw [run_separated_error hitem]
    exact .unread (Phrase.buildAll_error_head hbuild _)
  | tooDeep hroom =>
    rw [run_separated_error hitem]
    exact .tooDeep (by omega)

/-! ## Derivations -/

/-- The parser answers on whatever the grammar derives. -/
theorem complete_of_derives {reading : Reading} {words : List Word} {n : Nat}
    (h : Derives reading words n) : Complete allowed reading words n := by
  -- Induction on the derivation: each rule has its own function of the parser.
  induction h with
  | expression _ ih => exact expression_complete ih
  | tightest _ ih => exact tightest_complete ih
  | chain _ hlinks ih ihlinks => exact chain_complete hlinks ih ihlinks
  | unlinked => exact unlinked_complete
  | link hop _ hlinks ih ihlinks => exact link_complete hop hlinks ih ihlinks
  | unsigned hoperand ih => exact unsigned_complete hoperand ih
  | signed hop _ ih => exact signed_complete hop ih
  | literal h => exact literal_complete h
  | quantity h hnumber hunit => exact quantity_complete h hnumber hunit
  | field h => exact field_complete h
  | emptyCall h hopening hclosing => exact emptyCall_complete h hopening hclosing
  | call h hopening harguments hclosing ih => exact call_complete h hopening harguments ih hclosing
  | cast hopening htarget hclosing _ ih => exact cast_complete hopening htarget hclosing ih
  | group hopening hexpression hclosing ih => exact group_complete hopening hexpression ih hclosing
  | lastArgument _ ih => exact lastArgument_complete ih
  | moreArguments _ hcomma _ ih ihrest => exact moreArguments_complete ih hcomma ihrest

/-- A parser at a sentence that ends with the text. -/
theorem parse_complete {phrase : Phrase} {words : List Word} {n : Nat}
    (h : Derives (.expression phrase) words n) {p : Parser}
    (hp : p.tokens.map Token.word = words) (hunits : ∀ unit ∈ phrase.units, allowed unit = true) :
    Answers n p.room (phrase.build p.builder.count) (p.past [] phrase.size) (p.parse allowed) := by
  have hspells : Spells p.tokens words [] := ⟨p.tokens, by simp, hp⟩
  rw [parse, whole]
  refine .andThen (complete_of_derives h p.room p [] hspells (ends_eof _) hunits) ?_ ?_
  · intro e he
    exact ⟨e, he, rfl⟩
  · exact fun _ => id

end Parser

end UnitCheck
