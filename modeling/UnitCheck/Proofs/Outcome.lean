/-!
  Runs of steps that may fail.
-/

namespace UnitCheck

variable {ε α β : Type} {x : Except ε α} {f : α → Except ε β}

/-- A run of two steps succeeds if both do. -/
theorem bind_eq_ok_iff {b : β} : (x >>= f) = .ok b ↔ ∃ a, x = .ok a ∧ f a = .ok b := by
  cases x with
  | error cause =>
    constructor
    · intro h
      cases h
    · rintro ⟨a, h, -⟩
      cases h
  | ok a =>
    constructor
    · intro h
      exact ⟨a, rfl, h⟩
    · rintro ⟨a', ha, h⟩
      cases ha
      exact h

/-- A run of two steps fails if one of them does. -/
theorem bind_eq_error_iff {cause : ε} :
    (x >>= f) = .error cause ↔ x = .error cause ∨ ∃ a, x = .ok a ∧ f a = .error cause := by
  cases x with
  | error _ =>
    constructor
    · intro h
      cases h
      exact .inl rfl
    · rintro (h | ⟨a, h, -⟩)
      · cases h
        rfl
      · cases h
  | ok a =>
    constructor
    · intro h
      exact .inr ⟨a, rfl, h⟩
    · rintro (h | ⟨a', ha, h⟩)
      · cases h
      · cases ha
        exact h

/-- Naming a failure otherwise makes no step succeed. -/
theorem mapError_eq_ok_iff {ε' : Type} {rename : ε → ε'} {a : α} :
    x.mapError rename = .ok a ↔ x = .ok a := by
  cases x with
  | error _ =>
    constructor
    · intro h
      cases h
    · intro h
      cases h
  | ok _ =>
    constructor
    · intro h
      cases h
      rfl
    · intro h
      cases h
      rfl

/-- Naming the failures of two steps otherwise is doing so for each of them. -/
theorem mapError_bind {ε' : Type} {rename : ε → ε'} :
    (x >>= f).mapError rename = x.mapError rename >>= fun a => (f a).mapError rename := by
  cases x <;> rfl

/-! ## Folds -/

variable {γ : Type} {step : β → γ → Except ε β} {entries : List γ}

/-- What every step keeps, a fold keeps. -/
theorem foldlM_induction {P : β → Prop}
    (hstep : ∀ x ∈ entries, ∀ b b', P b → step b x = .ok b' → P b') {start result : β}
    (h : entries.foldlM step start = .ok result) (hstart : P start) : P result := by
  induction entries generalizing start with
  | nil =>
    cases h
    exact hstart
  | cons x entries ih =>
    obtain ⟨hhead, hrest⟩ := List.forall_mem_cons.1 hstep
    rw [List.foldlM_cons] at h
    obtain ⟨next, hnext, h⟩ := bind_eq_ok_iff.1 h
    exact ih hrest h (hhead start next hstart hnext)

/-- A fold that succeeds, succeeds in every step. -/
theorem exists_of_foldlM_eq_ok {start result : β} (h : entries.foldlM step start = .ok result)
    {x : γ} (hx : x ∈ entries) : ∃ b b', step b x = .ok b' := by
  induction entries generalizing start with
  | nil => cases hx
  | cons y entries ih =>
    rw [List.foldlM_cons] at h
    obtain ⟨next, hnext, h⟩ := bind_eq_ok_iff.1 h
    rcases List.mem_cons.1 hx with rfl | hx
    · exact ⟨start, next, hnext⟩
    · exact ih h hx

/-- A fold that fails, fails in a step. -/
theorem exists_of_foldlM_eq_error {start : β} {cause : ε}
    (h : entries.foldlM step start = .error cause) :
    ∃ x ∈ entries, ∃ b, step b x = .error cause := by
  induction entries generalizing start with
  | nil => cases h
  | cons x entries ih =>
    rw [List.foldlM_cons] at h
    rcases bind_eq_error_iff.1 h with h | ⟨next, -, h⟩
    · exact ⟨x, List.mem_cons_self, start, h⟩
    · obtain ⟨y, hy, b, hb⟩ := ih h
      exact ⟨y, List.mem_cons_of_mem _ hy, b, hb⟩

end UnitCheck
