import UnitCheck.Proofs.Literal
import UnitCheck.Proofs.Sentences
import UnitCheck.Proofs.Walk

/-!
  Trees of texts.

  A tree that was read off a text can be written: its names are identifiers with points between
  them, its units are identifiers next to numbers, its literals have no sign, and a cast is
  nullable only where its type may be (`Expr.legible_of_ofText`). This holds of every node, so it
  is stated about the nodes in post-order.
-/

namespace UnitCheck

/-! ## Names -/

/-- The text is an identifier. -/
structure IsIdentifier (name : String) : Prop where
  isName : IsName name.toList
  kind : Lexeme.wordKind name = .identifier

/-- The text consists of identifiers with points between them. -/
def IsQualified (name : String) : Prop :=
  ∃ parts, parts ≠ [] ∧ (∀ part ∈ parts, IsIdentifier part) ∧ name = ".".intercalate parts

theorem Lexed.isIdentifier {word : Word} (h : Lexed word) (hkind : word.kind = .identifier) :
    IsIdentifier word.value := by
  cases h with
  | @name run kind hname hwordKind =>
    refine ⟨?_, hwordKind.symm.trans hkind⟩
    rw [String.toList_ofList]
    exact hname
  | numeral _ h =>
    refine absurd (h.symm.trans hkind) ?_
    split <;> simp
  | _ => cases hkind

theorem QualifiedName.isQualified {words : List Word} {parts : List String}
    (h : QualifiedName words parts) (hwords : ∀ word ∈ words, Lexed word) :
    IsQualified (".".intercalate parts) := by
  have hparts : parts ≠ [] ∧ ∀ part ∈ parts, IsIdentifier part := by
    induction h with
    | @last word h =>
      refine ⟨by simp, fun part hpart => ?_⟩
      obtain rfl := List.mem_singleton.1 hpart
      exact (hwords word List.mem_cons_self).isIdentifier h
    | @more word dot words parts h hdot _ ih =>
      refine ⟨by simp, fun part hpart => ?_⟩
      rcases List.mem_cons.1 hpart with rfl | hpart
      · exact (hwords word List.mem_cons_self).isIdentifier h
      · refine (ih fun w hw => hwords w ?_).2 part hpart
        exact List.mem_cons_of_mem _ (List.mem_cons_of_mem _ hw)
  exact ⟨parts, hparts.1, hparts.2, rfl⟩

theorem CastWords.isNullable {words : List Word} {target : CastType} (h : CastWords words target)
    (hnullable : target.nullable = true) : target.type.isNullable = true := by
  cases h with
  | plain => cases hnullable
  | nullable _ _ h _ => exact h

/-! ## Trees -/

namespace Expr

/-- The node can be written. -/
def IsWritten : Expr → Prop
  | field _ name | call _ name _ => IsQualified name
  | literal _ value unit =>
    value.Unsigned ∧ ∀ symbol ∈ unit, IsIdentifier symbol ∧ value.isNumeric = true
  | cast _ target _ => target.nullable = true → target.type.isNullable = true
  | binary _ _ _ _ | unary _ _ _ => True

/-- All nodes of the tree can be written. -/
def Legible (e : Expr) : Prop := ∀ node ∈ e.postOrder, node.IsWritten

/-- A tree is legible when its root can be written and what is below is legible. -/
theorem legible_iff {e : Expr} :
    e.Legible ↔ e.IsWritten ∧ ∀ child ∈ e.children, child.Legible := forall_postOrder_iff

end Expr

/-- What the phrase denotes is legible. -/
def Phrase.Legible (phrase : Phrase) : Prop :=
  ∀ start tree, phrase.build start = .ok tree → tree.Legible

/-- What the phrases denote is legible. -/
def Phrase.AllLegible (phrases : List Phrase) : Prop :=
  ∀ start trees, Phrase.buildAll phrases start = .ok trees → ∀ tree ∈ trees, tree.Legible

/-- What the words are read as is legible; links keep their start so. -/
def Reading.Legible : Reading → Prop
  | .links _ _ left phrase => left.Legible → phrase.Legible
  | .arguments phrases => Phrase.AllLegible phrases
  | .expression phrase | .chain _ phrase | .signed phrase | .operand phrase => phrase.Legible

theorem Phrase.legible_call {name : String} {arguments : List Phrase} (hname : IsQualified name)
    (h : Phrase.AllLegible arguments) : (Phrase.call name arguments).Legible := by
  intro start tree hbuild
  obtain ⟨built, hbuilt, rfl⟩ := exists_of_build_call hbuild
  exact Expr.legible_iff.2 ⟨hname, h start built hbuilt⟩

/-- What lexed words are read as is legible. -/
theorem Derives.legible {reading : Reading} {words : List Word} {n : Nat}
    (h : Derives reading words n) (hwords : ∀ word ∈ words, Lexed word) : reading.Legible := by
  induction h with
  | expression _ ih | tightest _ ih | unsigned _ ih => exact ih hwords
  | chain _ _ ih ihlinks =>
    exact ihlinks (fun w hw => hwords w (List.mem_append_right _ hw))
      (ih fun w hw => hwords w (List.mem_append_left _ hw))
  | unlinked => exact id
  | link _ _ _ ih ihlinks =>
    intro hleft
    -- The rest of the chain starts from the operation, which has to be legible for it.
    refine ihlinks (fun w hw => hwords w ?_) fun start tree hbuild => ?_
    · exact List.mem_cons_of_mem _ (List.mem_append_right _ hw)
    obtain ⟨l, r, hl, hr, rfl⟩ := Phrase.exists_of_build_binary hbuild
    refine Expr.legible_iff.2 ⟨trivial, fun child hchild => ?_⟩
    have hright := ih fun w hw => hwords w (List.mem_cons_of_mem _ (List.mem_append_left _ hw))
    rcases List.mem_pair.1 hchild with rfl | rfl
    · exact hleft _ _ hl
    · exact hright _ _ hr
  | signed _ _ ih =>
    intro start tree hbuild
    obtain ⟨inner, hinner, rfl⟩ := Phrase.exists_of_build_unary hbuild
    refine Expr.legible_iff.2 ⟨trivial, fun child hchild => ?_⟩
    obtain rfl := List.mem_singleton.1 hchild
    exact ih (fun w hw => hwords w (List.mem_cons_of_mem _ hw)) _ _ hinner
  | @literal word value hvalue =>
    intro start tree hbuild
    obtain ⟨v, rfl, rfl⟩ := Phrase.exists_of_build_literal hbuild
    refine Expr.legible_iff.2 ⟨⟨?_, by simp⟩, by simp [Expr.children]⟩
    exact (hwords word List.mem_cons_self).unsigned hvalue
  | @quantity word unit value hvalue hnumber hunit =>
    intro start tree hbuild
    obtain ⟨v, rfl, rfl⟩ := Phrase.exists_of_build_literal hbuild
    refine Expr.legible_iff.2 ⟨⟨?_, fun symbol hsymbol => ?_⟩, by simp [Expr.children]⟩
    · exact (hwords word List.mem_cons_self).unsigned hvalue
    · obtain rfl := Option.mem_some.1 hsymbol
      exact ⟨(hwords unit (by simp)).isIdentifier hunit, (Parser.isNumeric_iff hvalue).2 hnumber⟩
  | field h =>
    intro start tree hbuild
    cases hbuild
    exact Expr.legible_iff.2 ⟨h.isQualified hwords, by simp [Expr.children]⟩
  | emptyCall h _ _ =>
    apply Phrase.legible_call (h.isQualified fun w hw => hwords w (List.mem_append_left _ hw))
    intro start trees hbuild
    cases hbuild
    simp
  | call h _ _ _ ih =>
    refine Phrase.legible_call (h.isQualified fun w hw => hwords w (List.mem_append_left _ hw))
      (ih fun w hw => hwords w (List.mem_append_right _ (List.mem_cons_of_mem _ ?_)))
    exact List.mem_append_left _ hw
  | cast _ htarget _ _ ih =>
    intro start tree hbuild
    obtain ⟨inner, hinner, rfl⟩ := Phrase.exists_of_build_cast hbuild
    refine Expr.legible_iff.2 ⟨htarget.isNullable, fun child hchild => ?_⟩
    obtain rfl := List.mem_singleton.1 hchild
    have hmore : ∀ w ∈ _, Lexed w := fun w hw => hwords w
      (List.mem_cons_of_mem _ (List.mem_append_right _ (List.mem_cons_of_mem _ hw)))
    exact ih hmore _ _ hinner
  | group _ _ _ ih =>
    exact ih fun w hw => hwords w (List.mem_cons_of_mem _ (List.mem_append_left _ hw))
  | lastArgument _ ih =>
    intro start trees hbuild tree htree
    obtain ⟨e, es, he, hes, rfl⟩ := Phrase.exists_of_buildAll_cons hbuild
    cases hes
    obtain rfl := List.mem_singleton.1 htree
    exact ih hwords _ _ he
  | moreArguments _ _ _ ih ihrest =>
    intro start trees hbuild tree htree
    obtain ⟨e, es, he, hes, rfl⟩ := Phrase.exists_of_buildAll_cons hbuild
    rcases List.mem_cons.1 htree with rfl | htree
    · exact ih (fun w hw => hwords w (List.mem_append_left _ hw)) _ _ he
    · refine ihrest (fun w hw => hwords w (List.mem_append_right _ ?_)) _ _ hes tree htree
      exact List.mem_cons_of_mem _ hw

/-- A tree that was read off a text is legible. -/
theorem Expr.legible_of_ofText {text : String} {tree : Expr} (h : Expr.ofText text = .ok tree) :
    tree.Legible := by
  obtain ⟨phrase, n, hderives, -, hbuild, -⟩ := Expr.ofTextWith_sound h
  exact hderives.legible (fun _ => lexed_of_mem_scan) 0 tree hbuild

end UnitCheck
