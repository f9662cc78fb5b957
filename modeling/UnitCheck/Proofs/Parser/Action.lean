import UnitCheck.Parser.Action
import UnitCheck.Proofs.Words

/-!
  What the actions of a parser do, one law for each.

  A successful action reads some words, makes some nodes and leaves the depth as it was; `Consumes`
  says so in one piece and composes (`Consumes.trans`). The laws named `…_eq_ok` open a run that
  succeeded, and the laws named `run_…` compute one.
-/

namespace UnitCheck

namespace Parser

/-- The parser after it read up to the given tokens and made some nodes. -/
def past (parser : Parser) (rest : List Token) (nodes : Nat) : Parser :=
  { parser with tokens := rest, builder := ⟨parser.builder.count + nodes⟩ }

@[simp] theorem tokens_past (p : Parser) (rest : List Token) (nodes : Nat) :
    (p.past rest nodes).tokens = rest := rfl

@[simp] theorem count_past (p : Parser) (rest : List Token) (nodes : Nat) :
    (p.past rest nodes).builder.count = p.builder.count + nodes := rfl

@[simp] theorem past_past (p : Parser) (rest more : List Token) (k l : Nat) :
    (p.past rest k).past more l = p.past more (k + l) := by
  simp only [past, Nat.add_assoc]

/-- From one parser to another: the words that are read and the number of nodes that are made. -/
def Consumes (p q : Parser) (words : List Word) (nodes : Nat) : Prop :=
  ∃ read, p.tokens = read ++ q.tokens ∧ read.map Token.word = words ∧ q = p.past q.tokens nodes

theorem Consumes.refl (p : Parser) : p.Consumes p [] 0 := ⟨[], rfl, rfl, rfl⟩

theorem Consumes.trans {p q r : Parser} {words more : List Word} {k l : Nat}
    (h : p.Consumes q words k) (h' : q.Consumes r more l) :
    p.Consumes r (words ++ more) (k + l) := by
  obtain ⟨read, htokens, hwords, hq⟩ := h
  obtain ⟨read', htokens', hwords', hr⟩ := h'
  refine ⟨read ++ read', by rw [htokens, htokens', List.append_assoc], ?_, ?_⟩
  · rw [List.map_append, hwords, hwords']
  · rw [hr, hq, past_past, tokens_past]

theorem Consumes.count {p q : Parser} {words : List Word} {nodes : Nat}
    (h : p.Consumes q words nodes) : q.builder.count = p.builder.count + nodes := by
  obtain ⟨_, _, _, hq⟩ := h
  rw [hq, count_past]

/-- Making nodes. -/
theorem consumes_node (p : Parser) (nodes : Nat) : p.Consumes (p.past p.tokens nodes) [] nodes :=
  ⟨[], rfl, rfl, rfl⟩

/-- Reading one token. -/
theorem consumes_cons {p : Parser} {token : Token} {rest : List Token}
    (h : p.tokens = token :: rest) : p.Consumes (p.past rest 0) [token.word] 0 :=
  ⟨[token], h, rfl, rfl⟩

theorem current_of_cons {p : Parser} {token : Token} {rest : List Token}
    (h : p.tokens = token :: rest) : p.current = token := by
  simp only [current, h]

/-- A parser whose next token is not the end has a next token. -/
theorem tokens_of_current {p : Parser} (h : p.current.kind ≠ .eof) :
    ∃ rest, p.tokens = p.current :: rest := by
  cases htokens : p.tokens with
  | nil =>
    refine absurd ?_ h
    simp only [current, htokens]
    rfl
  | cons token rest => exact ⟨rest, by rw [current_of_cons htokens]⟩

end Parser

namespace Action

open UnitCheck.Parser (Consumes)

variable {α β : Type} {p q : Parser}

/-! ## Laws -/

/-- An action is what it does. -/
theorem ext {x y : Action α} (h : ∀ p, x.run p = y.run p) : x = y := by
  cases x
  cases y
  congr
  exact funext h

theorem bind_pure_run (x : Action α) (p : Parser) : (x >>= pure).run p = x.run p := by
  rw [run_bind]
  cases x.run p with
  | mk result q => cases result <;> rfl

instance : LawfulMonad Action :=
  LawfulMonad.mk' Action (fun x => ext (bind_pure_run x)) (fun _ _ => rfl) fun x f g =>
    ext fun p => by
      rw [run_bind, run_bind, run_bind]
      cases x.run p with
      | mk result q => cases result <;> rfl

/-! ## Opening a run -/

theorem bind_eq_ok {x : Action α} {f : α → Action β} {b : β} :
    (x >>= f).run p = (.ok b, q) ↔
      ∃ a r, x.run p = (.ok a, r) ∧ (f a).run r = (.ok b, q) := by
  rw [run_bind]
  cases x.run p with
  | mk result r =>
    cases result with
    | error e => simp
    | ok a =>
      refine ⟨fun h => ⟨a, r, rfl, h⟩, ?_⟩
      rintro ⟨_, _, h, hf⟩
      cases h
      exact hf

theorem pure_eq_ok {a b : α} : (pure a : Action α).run p = (.ok b, q) ↔ a = b ∧ p = q := by
  simp

theorem run_bind_ok {x : Action α} {f : α → Action β} {a : α} {r : Parser}
    (h : x.run p = (.ok a, r)) : (x >>= f).run p = (f a).run r := by
  rw [run_bind, h]

theorem run_bind_error {x : Action α} {f : α → Action β} {e : FilterError}
    (h : x.run p = (.error e, q)) : (x >>= f).run p = (.error e, q) := by
  rw [run_bind, h]

@[simp] theorem run_current : current.run p = (.ok p.current, p) := rfl

@[simp] theorem run_isNext (kind : Token.Kind) :
    (isNext kind).run p = (.ok (decide (p.current.kind = kind)), p) := rfl

theorem run_advance {token : Token} {rest : List Token} (h : p.tokens = token :: rest) :
    advance.run p = (.ok (), p.past rest 0) := by
  simp only [advance, h, List.tail_cons]
  rfl

@[simp] theorem run_node (make : Nat → Expr) :
    (node make).run p = (.ok (make p.builder.count), p.past p.tokens 1) := rfl

theorem run_expect {kind : Token.Kind} {token : Token} {rest : List Token}
    (h : p.tokens = token :: rest) (hkind : token.kind = kind) :
    (expect kind).run p = (.ok token, p.past rest 0) := by
  rw [expect, run_bind_ok run_current, Parser.current_of_cons h, if_pos hkind,
    run_bind_ok (run_advance h), run_pure]

/-- An expected token that is not the end is the next one. -/
theorem expect_eq_ok {kind : Token.Kind} {token : Token} (hkind : kind ≠ .eof)
    (h : (expect kind).run p = (.ok token, q)) :
    token.word.kind = kind ∧ p.Consumes q [token.word] 0 := by
  rw [expect, run_bind_ok run_current] at h
  by_cases hcurrent : p.current.kind = kind
  · obtain ⟨rest, hrest⟩ := Parser.tokens_of_current (hcurrent ▸ hkind)
    rw [if_pos hcurrent, run_bind_ok (run_advance hrest), pure_eq_ok] at h
    obtain ⟨rfl, rfl⟩ := h
    exact ⟨hcurrent, Parser.consumes_cons hrest⟩
  · rw [if_neg hcurrent] at h
    cases h

/-! ## Parts -/

theorem run_refusePart :
    (refusePart : Action α).run p =
      (.error (.parse .tooDeep), { p with depth := p.depth + 1 }) := rfl

theorem refusePart_ne_ok {a : α} : (refusePart : Action α).run p ≠ (.ok a, q) := by
  rw [run_refusePart]
  simp

/-- The inside of a part runs one part deeper, and the part closes only if that succeeds. -/
theorem run_inPart (x : Action α) :
    (inPart x).run p =
      (x >>= fun a => closePart >>= fun _ => pure a).run { p with depth := p.depth + 1 } := rfl

/-- A part that succeeds closes, and so leaves the depth as it was. -/
theorem inPart_eq_ok {x : Action α} {a : α} (h : (inPart x).run p = (.ok a, q)) :
    ∃ r, x.run { p with depth := p.depth + 1 } = (.ok a, r) ∧
      q = { r with depth := r.depth - 1 } := by
  rw [inPart, bind_eq_ok] at h
  obtain ⟨_, _, hopen, h⟩ := h
  cases hopen
  obtain ⟨b, r, hx, h⟩ := bind_eq_ok.1 h
  obtain ⟨_, _, hclose, h⟩ := bind_eq_ok.1 h
  cases hclose
  obtain ⟨rfl, rfl⟩ := pure_eq_ok.1 h
  exact ⟨r, hx, rfl⟩

/-- What a part reads and makes is what its inside does. -/
theorem consumes_inPart {r : Parser} {words : List Word} {nodes : Nat}
    (h : Consumes { p with depth := p.depth + 1 } r words nodes) :
    p.Consumes { r with depth := r.depth - 1 } words nodes := by
  obtain ⟨read, htokens, hwords, hr⟩ := h
  refine ⟨read, htokens, hwords, ?_⟩
  rw [hr]
  rfl

/-! ## Loops -/

theorem run_separated_error {item : Action α} {separator : Token.Kind} {e : FilterError}
    (h : item.run p = (.error e, q)) : (separated item separator).run p = (.error e, q) := by
  change (separatedRun item separator p).1 = _
  rw [separatedRun]
  split
  · next heq =>
    rw [h] at heq
    cases heq
    rfl
  · next heq =>
    rw [h] at heq
    cases heq

theorem run_separated_last {item : Action α} {separator : Token.Kind} {a : α}
    (h : item.run p = (.ok a, q)) (hnext : ∀ token ∈ q.tokens.head?, token.kind ≠ separator) :
    (separated item separator).run p = (.ok [a], q) := by
  change (separatedRun item separator p).1 = _
  rw [separatedRun]
  split
  · next heq =>
    rw [h] at heq
    cases heq
  · next heq =>
    rw [h] at heq
    cases heq
    -- The loop ends at the end of the tokens, or where no separator stands.
    dsimp only
    split
    · rfl
    · next token rest htokens =>
      rw [if_neg (hnext token (by rw [htokens, List.head?_cons]; rfl))]

theorem run_separated_more {item : Action α} {separator : Token.Kind} {a : α} {token : Token}
    {rest : List Token} (h : item.run p = (.ok a, q)) (hq : q.tokens = token :: rest)
    (hnext : token.kind = separator) :
    (separated item separator).run p =
      match (separated item separator).run (q.past rest 0) with
      | (.error e, r) => (.error e, r)
      | (.ok as, r) => (.ok (a :: as), r) := by
  have hpast : q.past rest 0 = { q with tokens := rest } := rfl
  rw [hpast]
  change (separatedRun item separator p).1 =
    match (separatedRun item separator { q with tokens := rest }).1 with
    | (.error e, r) => (.error e, r)
    | (.ok as, r) => (.ok (a :: as), r)
  rw [separatedRun]
  split
  · next heq =>
    rw [h] at heq
    cases heq
  · next heq =>
    rw [h] at heq
    cases heq
    dsimp only
    split
    · next htokens =>
      rw [hq] at htokens
      cases htokens
    · next htokens =>
      rw [hq] at htokens
      cases htokens
      rw [if_pos hnext]
      -- What the rounds to come answer does not matter here.
      generalize separatedRun item separator { q with tokens := rest } = result
      obtain ⟨⟨result, r⟩, hr⟩ := result
      cases result <;> rfl

/-- Induction on the rounds of a loop: reading a separator behind an item makes the tokens fewer,
    for an item puts no token back. -/
theorem round_induct {item : Action α} {motive : Parser → Prop}
    (round : ∀ p, (∀ a q token rest, item.run p = (.ok a, q) → q.tokens = token :: rest →
      motive (q.past rest 0)) → motive p) (p : Parser) : motive p := by
  induction hn : p.tokens.length using Nat.strongRecOn generalizing p with
  | ind n ih =>
    subst hn
    refine round p fun a q token rest hrun htokens => ih _ ?_ _ rfl
    have hle := (item.suffix p).length_le
    rw [hrun, htokens, List.length_cons] at hle
    exact hle

/-- Behind an item a separator follows, or the loop ends. -/
theorem separator_or_last (q : Parser) (separator : Token.Kind) :
    (∃ token rest, q.tokens = token :: rest ∧ token.kind = separator) ∨
      ∀ token ∈ q.tokens.head?, token.kind ≠ separator := by
  refine Classical.or_iff_not_imp_left.2 ?_
  intro hnext token htoken hkind
  obtain ⟨rest, hrest⟩ := List.head?_eq_some_iff.1 htoken
  exact hnext ⟨token, rest, hrest, hkind⟩

/-- Induction on the items of a loop that succeeded. -/
theorem separated_induct {item : Action α} {separator : Token.Kind}
    {motive : Parser → List α → Parser → Prop}
    (last : ∀ p a q, item.run p = (.ok a, q) → motive p [a] q)
    (more : ∀ p a r token rest as q, item.run p = (.ok a, r) → r.tokens = token :: rest →
      token.kind = separator → motive (r.past rest 0) as q → motive p (a :: as) q)
    {as : List α} (h : (separated item separator).run p = (.ok as, q)) : motive p as q := by
  induction p using @round_induct α item generalizing as with
  | round p ih =>
    cases hitem : item.run p with
    | mk result r =>
      cases result with
      | error e =>
        rw [run_separated_error hitem] at h
        cases h
      | ok a =>
        -- A separator asks for one more item, and without one this item was the last.
        rcases separator_or_last r separator with ⟨token, rest, htokens, hkind⟩ | hlast
        · rw [run_separated_more hitem htokens hkind] at h
          cases hrest : (separated item separator).run (r.past rest 0) with
          | mk result s =>
            rw [hrest] at h
            cases result with
            | error e => cases h
            | ok as' =>
              cases h
              exact more p a r token rest as' _ hitem htokens hkind
                (ih a r token rest hitem htokens hrest)
        · rw [run_separated_last hitem hlast] at h
          cases h
          exact last p a _ hitem

end Action

end UnitCheck
