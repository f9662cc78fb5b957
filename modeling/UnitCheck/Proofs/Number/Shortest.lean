import UnitCheck.Proofs.Number.Nearest

/-!
  The shortest decimal of a magnitude reads back as the magnitude.

  A candidate is taken only when it reads back, and where there is none the magnitude is written
  out (`nearestDecimal_exactDecimal`). Dropping zeros at the end changes no amount.
-/

namespace UnitCheck.Number

/-- The decimal reads back as the code. -/
def Scientific.ReadsBack (x : Scientific) (f : Format) (code : Nat) : Prop :=
  f.nearestDecimal x.coefficient x.exponent = code

theorem Scientific.readsBack_dropZeros {x : Scientific} {f : Format} {code : Nat}
    (h : x.ReadsBack f code) (n : Nat) : (x.dropZeros n).ReadsBack f code := by
  induction n generalizing x with
  | zero => exact h
  | succ n ih =>
    rw [dropZeros]
    split
    · next hzero =>
      apply ih
      -- A zero at the end moves into the exponent, and the amount stays.
      have hten : x.coefficient / 10 * 10 = x.coefficient :=
        Nat.div_mul_cancel (Nat.dvd_of_mod_eq_zero hzero)
      rw [ReadsBack]
      dsimp only
      rw [← Format.nearestDecimal_mul_ten, hten]
      exact h
    · exact h

namespace Format

variable {f : Format}

theorem readsBack_nearerNeighbour {tie : Tie} {code : Nat} {exponent : Int}
    {position : Nat × Nat} {x : Scientific}
    (h : f.nearerNeighbour tie code exponent position = some x) : x.ReadsBack f code := by
  -- A neighbour is only taken after it was checked to read back.
  have hreads : ∀ c, decide (f.nearestDecimal c exponent = code) = true →
      Scientific.ReadsBack ⟨c, exponent⟩ f code := by
    intro c hc
    show f.nearestDecimal c exponent = code
    exact of_decide_eq_true hc
  obtain ⟨num, den⟩ := position
  unfold nearerNeighbour at h
  dsimp only at h
  split at h
  · cases h
  · next hlower _ =>
    cases h
    exact hreads _ hlower
  · next _ hupper =>
    cases h
    exact hreads _ hupper
  · next hlower hupper =>
    cases h
    split
    · exact hreads _ hlower
    · exact hreads _ hupper

theorem readsBack_shortestWith {tie : Tie} {code count : Nat} {x : Scientific}
    (h : f.shortestWith tie code count = some x) : x.ReadsBack f code := by
  unfold shortestWith at h
  exact readsBack_nearerNeighbour h

/-- What is written for a finite magnitude reads back as that magnitude. -/
theorem readsBack_shortest (hf : WithinDecimalRange f) (tie : Tie) {code : Nat} (hpos : 0 < code)
    (hcode : code < f.infinity) : (f.shortest tie code).ReadsBack f code := by
  unfold shortest Scientific.normalize
  refine Scientific.readsBack_dropZeros ?_ _
  cases hcandidate : (List.range digitLimit).findSome?
      fun n => f.shortestWith tie code (n + 1) with
  | none => exact nearestDecimal_exactDecimal hf hpos hcode
  | some x =>
    obtain ⟨n, -, hx⟩ := List.exists_of_findSome?_eq_some hcandidate
    exact readsBack_shortestWith hx

end Format

end UnitCheck.Number
