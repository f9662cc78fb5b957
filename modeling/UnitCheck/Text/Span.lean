/-
  Sets of code points as sorted lists of closed intervals. A character class
  of the Unicode standard is one such list; membership stops at the first
  interval that starts past the code point.
-/

namespace UnitCheck.Text

/-- Membership of a code point in a list of closed intervals in ascending order. -/
def inSpans : List (Nat × Nat) → Nat → Bool
  | [], _ => false
  | (first, last) :: rest, n => if n < first then false else n ≤ last || inSpans rest n

@[simp] theorem inSpans_nil (n : Nat) : inSpans [] n = false := rfl

theorem inSpans_cons (first last : Nat) (rest : List (Nat × Nat)) (n : Nat) :
    inSpans ((first, last) :: rest) n =
      if n < first then false else n ≤ last || inSpans rest n := rfl

/-- A member lies in one of the intervals. -/
theorem exists_span_of_inSpans {spans : List (Nat × Nat)} {n : Nat} (h : inSpans spans n) :
    ∃ span ∈ spans, span.1 ≤ n ∧ n ≤ span.2 := by
  induction spans with
  | nil => simp at h
  | cons span rest ih =>
    obtain ⟨first, last⟩ := span
    rw [inSpans_cons] at h
    split at h
    · simp at h
    · next hlt =>
      simp only [Bool.or_eq_true, decide_eq_true_eq] at h
      rcases h with h | h
      · exact ⟨_, List.mem_cons_self, by omega, h⟩
      · obtain ⟨s, hs, hb⟩ := ih h
        exact ⟨s, List.mem_cons_of_mem _ hs, hb⟩

end UnitCheck.Text
