import UnitCheck.Proofs.Rereading

/-!
  Chains of operators with one field after each.

  They are read wherever they follow an operand (`Reads.linked`), and their phrase is grouped to
  the left (`Phrase.linked`). Links with the same operator leave a part open each
  (`derives_replicate`).
-/

namespace UnitCheck

/-! ## The operand -/

namespace Expr

/-- The word of the operand. -/
def sumOperand : Word := ⟨.identifier, "a"⟩

theorem isIdentifier_sumOperand : IsIdentifier "a" :=
  ⟨isName_of_letters (by decide) (by decide), by decide⟩

theorem derives_sumOperand (tiers : List Tier) :
    Derives (.chain tiers (.field "a")) [sumOperand] 1 := by
  have hname : QualifiedName [sumOperand] ["a"] := .last rfl
  exact .chain_of_signed (.unsigned (.field hname)) tiers

end Expr

/-! ## Links -/

/-- The operators with the field `a` after each. -/
def linkChars : List BinaryOp → List Char
  | [] => []
  | op :: ops => ' ' :: (op.text.toList ++ ' ' :: (['a'] ++ linkChars ops))

/-- The words of operators with the field `a` after each. -/
def linkWords : List BinaryOp → List Word
  | [] => []
  | op :: ops => op.word :: Expr.sumOperand :: linkWords ops

/-- The phrase with these links after it, grouped to the left. -/
def Phrase.linked : Phrase → List BinaryOp → Phrase
  | left, [] => left
  | left, op :: ops => linked (.binary op left (.field "a")) ops

theorem Phrase.linked_append (left : Phrase) (ops more : List BinaryOp) :
    left.linked (ops ++ more) = (left.linked ops).linked more := by
  induction ops generalizing left with
  | nil => rfl
  | cons op ops ih => exact ih _

theorem linkWords_append (ops more : List BinaryOp) :
    linkWords (ops ++ more) = linkWords ops ++ linkWords more := by
  induction ops with
  | nil => rfl
  | cons op ops ih =>
    rw [List.cons_append, linkWords, ih, linkWords, List.cons_append, List.cons_append]

theorem Reads.linked {cs : List Char} {ws : List Word} (h : Reads cs ws) (ops : List BinaryOp) :
    Reads (cs ++ linkChars ops) (ws ++ linkWords ops) := by
  induction ops generalizing cs ws with
  | nil =>
    rw [linkChars, linkWords, List.append_nil, List.append_nil]
    exact h
  | cons op ops ih =>
    have hname : Reads ['a'] [Expr.sumOperand] := Expr.isIdentifier_sumOperand.reads
    exact h.append isIdentifierChar_space (by decide) ((ih hname).binary op).space

/-- Links with one operator cost a part each, and one for the last operand. -/
theorem derives_replicate (op : BinaryOp) (tighter : List Tier) (left : Phrase) (n : Nat) :
    Derives (.links op.tier tighter left (left.linked (List.replicate n op)))
      (linkWords (List.replicate n op)) (n + min n 1) := by
  induction n generalizing left with
  | zero => exact .unlinked
  | succ n ih =>
    have hcost : n + 1 + min (n + 1) 1 = max 1 (n + min n 1) + 1 := by omega
    rw [hcost]
    exact .link op.operator?_kind (Expr.derives_sumOperand tighter) (ih _)

end UnitCheck
