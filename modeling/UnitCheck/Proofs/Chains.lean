import UnitCheck.Proofs.Links

/-!
  Long chains of one operator.

  A text opens one part for every operator of a chain, but its written form has two for each of
  them, since it has parentheses. So a sum of a hundred operands is read
  (`Expr.ofText_sumText_iff`), and its written form is not (`Expr.exists_ofText_text_sum_iff`).
-/

namespace UnitCheck.Expr

/-! ## Sums of one field -/

/-- What follows the first operand of a sum with that many operators. -/
def sumTail : Nat → List Char
  | 0 => []
  | n + 1 => ' ' :: '+' :: ' ' :: 'a' :: sumTail n

/-- The text of a sum with that many operators. -/
def sumText (n : Nat) : String := String.ofList ('a' :: sumTail n)

/-- The tree of a sum with that many operators. -/
def sum : Nat → Expr
  | 0 => field 0 "a"
  | n + 1 => binary (2 * n + 2) .add (sum n) (field (2 * n + 1) "a")

/-- What the text of a sum with that many operators is read as. -/
def sumPhrase : Nat → Phrase
  | 0 => .field "a"
  | n + 1 => .binary .add (sumPhrase n) (.field "a")

/-- The words after the first operand of a sum. -/
def sumWords : Nat → List Word
  | 0 => []
  | n + 1 => BinaryOp.add.word :: sumOperand :: sumWords n

theorem sumTail_eq (n : Nat) : sumTail n = linkChars (List.replicate n .add) := by
  induction n with
  | zero => rfl
  | succ n ih =>
    rw [sumTail, ih]
    rfl

theorem sumWords_eq (n : Nat) : sumWords n = linkWords (List.replicate n .add) := by
  induction n with
  | zero => rfl
  | succ n ih =>
    rw [sumWords, ih]
    rfl

theorem linked_sumPhrase (k n : Nat) :
    (sumPhrase k).linked (List.replicate n .add) = sumPhrase (k + n) := by
  induction n generalizing k with
  | zero => rfl
  | succ n ih =>
    have hmore : (sumPhrase (k + 1)).linked (List.replicate n .add) = sumPhrase (k + 1 + n) :=
      ih (k + 1)
    rw [Nat.add_right_comm] at hmore
    exact hmore

theorem reads_sum (n : Nat) : Reads ('a' :: sumTail n) (sumOperand :: sumWords n) := by
  have hname : Reads ['a'] [sumOperand] := isIdentifier_sumOperand.reads
  rw [sumTail_eq, sumWords_eq]
  exact hname.linked _

theorem build_sumPhrase (n : Nat) :
    (sumPhrase n).build 0 = .ok (sum n) ∧ (sumPhrase n).size = 2 * n + 1 := by
  induction n with
  | zero => exact ⟨rfl, rfl⟩
  | succ n ih =>
    obtain ⟨hbuild, hsize⟩ := ih
    -- The right operand is numbered behind the sum so far.
    have hright : (Phrase.field "a").build (0 + (sumPhrase n).size) =
        .ok (field (2 * n + 1) "a") := by
      rw [hsize, Nat.zero_add]
      rfl
    refine ⟨?_, ?_⟩
    · rw [sumPhrase, Phrase.build_binary hbuild hright, hsize, Nat.zero_add]
      rfl
    · rw [sumPhrase, Phrase.size, hsize]
      show 2 * n + 1 + 1 + 1 = _
      omega

/-- Every link of a chain leaves one more part open. -/
theorem derives_sumWords (tighter : List Tier) (k n : Nat) :
    Derives (.links .sum tighter (sumPhrase k) (sumPhrase (k + n))) (sumWords n) (n + min n 1) := by
  rw [sumWords_eq, ← linked_sumPhrase]
  exact derives_replicate .add tighter (sumPhrase k) n

theorem derives_sum (n : Nat) :
    Derives (.expression (sumPhrase n)) (Word.scan (sumText n).toList)
      (max 1 (n + min n 1) + 1) := by
  have hlinks := derives_sumWords [.product, .equality, .order] 0 n
  rw [Nat.zero_add] at hlinks
  have hchain := (Derives.chain (derives_sumOperand _) hlinks).loosen [.or, .and]
  rw [sumText, String.toList_ofList, (reads_sum n).scan_eq]
  exact .expression hchain

/-- A sum is read while it has less than two hundred operands. -/
theorem ofText_sumText_iff (n : Nat) (tree : Expr) :
    Expr.ofText (sumText n) = .ok tree ↔ n ≤ 198 ∧ tree = sum n := by
  have hroom : max 1 (n + min n 1) + 1 ≤ maxDepth ↔ n ≤ 198 := by
    unfold maxDepth
    omega
  rw [Expr.ofText_eq_ok_iff (derives_sum n), (build_sumPhrase n).1, hroom, Except.ok.injEq,
    eq_comm]

/-! ## Their written forms -/

theorem legible_sum (n : Nat) : (sum n).Legible ∧ (sum n).Readable := by
  have hname : IsQualified "a" :=
    ⟨["a"], by simp, by simpa using isIdentifier_sumOperand, by rw [String.intercalate_singleton]⟩
  have hfield : ∀ id, (field id "a").Legible ∧ (field id "a").Readable := fun id =>
    ⟨legible_iff.2 ⟨hname, by simp [children]⟩, readable_iff.2 ⟨rfl, by simp [children]⟩⟩
  induction n with
  | zero => exact hfield 0
  | succ n ih =>
    have hright := hfield (2 * n + 1)
    refine ⟨legible_iff.2 ⟨trivial, ?_⟩, readable_iff.2 ⟨rfl, ?_⟩⟩
    · simpa [sum, children] using ⟨ih.1, hright.1⟩
    · simpa [sum, children] using ⟨ih.2, hright.2⟩

theorem cost_sum (n : Nat) : (sum n).cost = 2 * n + 1 + min n 1 := by
  induction n with
  | zero => rfl
  | succ n ih =>
    rw [sum, cost, ih, cost]
    omega

/-- The written form of a sum is read while it has less than a hundred operands. -/
theorem exists_ofText_text_sum_iff (n : Nat) :
    (∃ again, Expr.ofText (sum n).text = .ok again) ↔ n ≤ 98 := by
  obtain ⟨hlegible, hreadable⟩ := legible_sum n
  have hroom : 1 + (sum n).cost ≤ maxDepth ↔ n ≤ 98 := by
    rw [cost_sum, maxDepth]
    omega
  rw [hlegible.exists_ofText_iff_readable, hroom, and_iff_left hreadable]

/-- A sum of a hundred operands is read, and its written form is not. -/
theorem sum_not_read_again :
    Expr.ofText (sumText 99) = .ok (sum 99) ∧ ¬∃ again, Expr.ofText (sum 99).text = .ok again := by
  refine ⟨(ofText_sumText_iff 99 (sum 99)).2 ⟨by decide, rfl⟩, ?_⟩
  rw [exists_ofText_text_sum_iff]
  decide

end UnitCheck.Expr
