import Mathlib.Data.List.Chain
import UnitCheck.Proofs.Parser.Steps
import UnitCheck.Proofs.Sentences

/-!
  What it means that only some units are allowed.

  Units that are not allowed are refused where they stand, and nothing else depends on what is
  allowed: a text is read as a tree just if it is read as that tree with every unit allowed and
  all units of the tree are allowed. A refused unit is the first one in the text. This is an
  invariant of the steps that a run is made of: among the tokens that it has read, each identifier
  right after a number is allowed (`UnitsAllowed`), and where it stops at a unit, the tokens up
  to the number before that unit are still such (`Accounts`).
-/

namespace UnitCheck

/-! ## Units of a tree -/

namespace Phrase

mutual
/-- The units of a phrase are those of the literals in its tree. -/
theorem mem_units_iff_of_build {unit : String} :
    ∀ {phrase : Phrase} {start : Nat} {tree : Expr}, phrase.build start = .ok tree →
      (unit ∈ phrase.units ↔ ∃ id value, .literal id value (some unit) ∈ tree.postOrder)
  | field _, _, _, h => by
    cases h
    simp [units, Expr.postOrder]
  | literal _ symbol, _, _, h => by
    obtain ⟨v, -, rfl⟩ := exists_of_build_literal h
    simp [units, Expr.postOrder, eq_comm]
  | cast _ operand, _, _, h => by
    obtain ⟨inner, hinner, rfl⟩ := exists_of_build_cast h
    rw [units, mem_units_iff_of_build hinner]
    simp [Expr.postOrder]
  | call _ arguments, _, _, h => by
    obtain ⟨built, hbuilt, rfl⟩ := exists_of_build_call h
    rw [units, mem_unitsOfAll_iff_of_buildAll hbuilt]
    simp [Expr.postOrder]
  | binary _ left right, _, _, h => by
    obtain ⟨l, r, hl, hr, rfl⟩ := exists_of_build_binary h
    rw [units, List.mem_append, mem_units_iff_of_build hl, mem_units_iff_of_build hr]
    simp [Expr.postOrder, exists_or]
  | unary _ operand, _, _, h => by
    obtain ⟨inner, hinner, rfl⟩ := exists_of_build_unary h
    rw [units, mem_units_iff_of_build hinner]
    simp [Expr.postOrder]

theorem mem_unitsOfAll_iff_of_buildAll {unit : String} :
    ∀ {phrases : List Phrase} {start : Nat} {trees : List Expr},
      buildAll phrases start = .ok trees →
      (unit ∈ unitsOfAll phrases ↔
        ∃ id value, .literal id value (some unit) ∈ Expr.postOrders trees)
  | [], _, _, h => by
    cases h
    simp [unitsOfAll, Expr.postOrders]
  | p :: ps, _, _, h => by
    obtain ⟨e, es, he, hes, rfl⟩ := exists_of_buildAll_cons h
    rw [unitsOfAll, List.mem_append, mem_units_iff_of_build he, mem_unitsOfAll_iff_of_buildAll hes]
    simp [Expr.postOrders, exists_or]
end

end Phrase

/-- All units of literals in the tree are allowed. -/
def Expr.HasUnitsIn (allowed : String → Bool) (tree : Expr) : Prop :=
  ∀ id value unit, .literal id value (some unit) ∈ tree.postOrder → allowed unit = true

theorem Phrase.forall_units_iff_of_build {allowed : String → Bool} {phrase : Phrase} {start : Nat}
    {tree : Expr} (h : phrase.build start = .ok tree) :
    (∀ unit ∈ phrase.units, allowed unit = true) ↔ tree.HasUnitsIn allowed := by
  constructor
  · intro hunits id value unit hmem
    exact hunits unit ((mem_units_iff_of_build h).2 ⟨id, value, hmem⟩)
  · intro hunits unit hunit
    obtain ⟨id, value, hmem⟩ := (mem_units_iff_of_build h).1 hunit
    exact hunits id value unit hmem

/-- Reading with some units allowed is reading with all of them, and a check of the tree. -/
theorem Expr.ofTextWith_eq_ok_iff {allowed : String → Bool} {text : String} {tree : Expr} :
    Expr.ofTextWith allowed text = .ok tree ↔
      Expr.ofText text = .ok tree ∧ tree.HasUnitsIn allowed := by
  constructor
  · intro h
    obtain ⟨phrase, n, hderives, hn, hbuild, hunits⟩ := Expr.ofTextWith_sound h
    exact ⟨(Expr.ofText_eq_ok_iff hderives tree).2 ⟨hn, hbuild⟩,
      (Phrase.forall_units_iff_of_build hbuild).1 hunits⟩
  · rintro ⟨h, hunits⟩
    -- What is read with every unit allowed is a sentence, and its units are those of the tree.
    obtain ⟨phrase, n, hderives, hn, hbuild, -⟩ := Expr.ofTextWith_sound h
    exact Expr.ofTextWith_eq_ok hderives ((Phrase.forall_units_iff_of_build hbuild).2 hunits) hn
      hbuild

/-! ## Units among the tokens -/

namespace Parser

/-- Each identifier right after a number is allowed. -/
def UnitsAllowed (allowed : String → Bool) (tokens : List Token) : Prop :=
  tokens.IsChain fun number unit =>
    number.IsNumber → unit.kind = .identifier → allowed unit.value = true

/-- Where a run stops at a unit: before it is a number, and all units up to there are allowed. -/
structure StopsAt (allowed : String → Bool) (tokens rest : List Token) (unit : String)
    (place : Place) : Prop where
  refused : allowed unit = false
  exists_before : ∃ before number, number.IsNumber ∧
    tokens = before ++ number :: ⟨.identifier, unit, place⟩ :: rest ∧
    UnitsAllowed allowed (before ++ [number])

/-- What a run has read, by the failure that it ended in. After a run that succeeds the token to
    be read next is no unit that is not allowed either. -/
def Accounts (allowed : String → Bool) (p : Parser) : Option FilterError → Parser → Prop
  | none, q => ∃ before, p.tokens = before ++ q.tokens ∧
      UnitsAllowed allowed (before ++ q.tokens.take 1)
  | some (.invalidUnit unit place), q => StopsAt allowed p.tokens q.tokens unit place
  | some _, _ => True

variable {allowed : String → Bool} {p q : Parser}

theorem UnitsAllowed.join {front back tokens : List Token}
    (h : UnitsAllowed allowed (front ++ tokens.take 1)) (hback : UnitsAllowed allowed back)
    (hhead : back.head? = tokens.head?) : UnitsAllowed allowed (front ++ back) := by
  -- Only the neighbours at the seam are new, and the first list ends with the second of them.
  rw [UnitsAllowed, List.isChain_append] at h ⊢
  refine ⟨h.1, hback, fun x hx y hy => h.2.2 x hx y ?_⟩
  rw [hhead] at hy
  cases tokens with
  | nil => cases hy
  | cons token rest => exact hy

theorem accounts_of_read {token : Token} {rest : List Token} (h : p.tokens = token :: rest)
    (hnext : ∀ next ∈ rest.head?, token.IsNumber → next.kind = .identifier →
      allowed next.value = true) : Accounts allowed p none (p.past rest 0) := by
  refine ⟨[token], h, ?_⟩
  rw [tokens_past]
  cases rest with
  | nil => exact List.isChain_singleton _
  | cons next rest => exact List.isChain_pair.2 (hnext next rfl)

/-- Two runs one after the other: the last token of the first and the first token of the second
    are next to each other. -/
theorem Accounts.andThen {r : Parser} {failure : Option FilterError}
    (h : Accounts allowed p none q) (h' : Accounts allowed q failure r) :
    Accounts allowed p failure r := by
  obtain ⟨front, htokens, hfront⟩ := h
  -- Only a refused unit has an account of its own; the other failures say nothing about tokens.
  match failure, h' with
  | none, h' =>
    obtain ⟨back, hback, hunits⟩ := h'
    refine ⟨front ++ back, by rw [htokens, hback, List.append_assoc], ?_⟩
    rw [List.append_assoc]
    apply hfront.join hunits
    rw [hback]
    cases back with
    | nil => cases r.tokens <;> rfl
    | cons token back => rfl
  | some (.invalidUnit unit place), h' =>
    obtain ⟨hrefused, before, number, hnumber, hq, hunits⟩ := h'
    refine ⟨hrefused, front ++ before, number, hnumber, ?_, ?_⟩
    · rw [htokens, hq, List.append_assoc]
    · rw [List.append_assoc]
      apply hfront.join hunits
      rw [hq]
      cases before with
      | nil => rfl
      | cons token before => rfl
  | some (.parse _), _ | some (.unresolvedField _), _ | some (.unknownMethod _), _
  | some (.unitMismatch _ _ _ _), _ | some (.duplicateId _), _ | some (.methodRule _ _), _
  | some (.units _), _ => trivial

/-- What a run made of steps has read. -/
theorem Steps.accounts {failure : Option FilterError} (h : Steps allowed p failure q) :
    Accounts allowed p failure q := by
  induction h with
  | @stay p =>
    refine ⟨[], rfl, ?_⟩
    cases p.tokens with
    | nil => exact .nil
    | cons token rest => exact .singleton _
  | andThen _ _ ih ih' => exact ih.andThen ih'
  | @make p =>
    refine ⟨[], rfl, ?_⟩
    rw [tokens_past]
    cases p.tokens with
    | nil => exact .nil
    | cons token rest => exact .singleton _
  | read htokens hnumber => exact accounts_of_read htokens fun _ _ h => absurd h hnumber
  | number htokens hnext =>
    exact accounts_of_read htokens fun next hmem _ hkind => absurd hkind (hnext next hmem)
  | @quantity p number unit rest htokens hkind hallowed =>
    -- The number and its unit, read one after the other.
    have hnumber : Accounts allowed p none (p.past (unit :: rest) 0) := by
      refine accounts_of_read htokens fun next hnext _ _ => ?_
      obtain rfl := Option.some.inj hnext
      exact hallowed
    have hunit : Accounts allowed (p.past (unit :: rest) 0) none (p.past rest 0) := by
      have hnext : (p.past (unit :: rest) 0).tokens = unit :: rest := rfl
      exact accounts_of_read hnext fun _ _ h => absurd h (not_isNumber hkind noNumber_identifier)
    exact hnumber.andThen hunit
  | @refuseUnit p number unit rest htokens hnumber hkind hrefused =>
    refine ⟨hrefused, [], number, hnumber, ?_, .singleton _⟩
    rw [htokens, ← hkind]
    rfl
  | refuseToken | fail | refusePart => trivial
  | part _ ih => exact ih
  | @failInPart p q error _ ih => exact ih

end Parser

/-- **Allowing some units filters.** A text is read as a tree, with some units allowed, just if it
    is read as that tree with every unit allowed and all units of the tree are allowed. Where a
    unit is refused, it is not allowed; the text has it as an identifier right after a number, at
    the place that is told; and before that every identifier right after a number is allowed. -/
theorem Expr.ofTextWith_filters (allowed : String → Bool) (text : String) :
    (∀ tree, Expr.ofTextWith allowed text = .ok tree ↔
      Expr.ofText text = .ok tree ∧ tree.HasUnitsIn allowed) ∧
    ∀ unit place, Expr.ofTextWith allowed text = .error (.invalidUnit unit place) →
      allowed unit = false ∧ ∃ before number after, number.IsNumber ∧
        Token.ofText text = before ++ number :: ⟨.identifier, unit, place⟩ :: after ∧
        Parser.UnitsAllowed allowed (before ++ [number]) := by
  refine ⟨fun tree => Expr.ofTextWith_eq_ok_iff, fun unit place h => ?_⟩
  have hsteps := (Parser.steps_parse allowed (Parser.ofText text)).accounts
  rw [Expr.ofTextWith] at h
  rw [h] at hsteps
  obtain ⟨hrefused, before, number, hnumber, htokens, hunits⟩ := hsteps
  -- The parser keeps the end of the text apart from the tokens before it.
  have hall : Token.ofText text =
      (Parser.ofText text).tokens ++ [.endOfText (Parser.ofText text).finish] := rfl
  rw [htokens, List.append_assoc, List.cons_append, List.cons_append] at hall
  exact ⟨hrefused, before, number, _, hnumber, hall, hunits⟩

/-- The first number has a unit that is allowed, and the second one is refused where it stands. -/
theorem Expr.ofTextWith_filters_second :
    let allowed := fun unit => decide (unit = "m")
    Expr.ofTextWith allowed "1 m + 2 km" = .error (.invalidUnit "km" ⟨8, 1, 9⟩) ∧
      allowed "km" = false ∧ ∃ before number after, number.IsNumber ∧
        Token.ofText "1 m + 2 km" = before ++ number :: ⟨.identifier, "km", ⟨8, 1, 9⟩⟩ :: after ∧
        Parser.UnitsAllowed allowed (before ++ [number]) := by
  intro allowed
  have h : Expr.ofTextWith allowed "1 m + 2 km" = .error (.invalidUnit "km" ⟨8, 1, 9⟩) := by cbv
  exact ⟨h, (Expr.ofTextWith_filters allowed _).2 _ _ h⟩

end UnitCheck
