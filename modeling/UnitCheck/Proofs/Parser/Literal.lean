import UnitCheck.Proofs.Grammar

/-!
  Values of literal words.

  What a number can be read as is said once for integers (`exists_of_readInteger`) and once for
  real numbers (`exists_of_readReal`). Whether a literal is a number is told by the kind of its
  word (`isNumeric_iff`).
-/

namespace UnitCheck.Parser

variable {text : String} {value : Literal}

/-! ## Numbers -/

theorem lt_of_below {bound n : Nat} {digits : List Char} (h : below bound digits = some n) :
    n < bound := by
  rw [below] at h
  split at h
  · cases h
    assumption
  · cases h

theorem exists_of_inRange {bound : Nat} {digits : List Char} {make : Nat → Literal}
    {cause : SyntaxError}
    (h : (match (below bound digits).map make with
      | some value => (Except.ok value : Except SyntaxError Literal)
      | none => .error cause) = .ok value) : ∃ n < bound, value = make n := by
  cases hbelow : below bound digits with
  | none =>
    rw [hbelow] at h
    cases h
  | some n =>
    rw [hbelow] at h
    cases h
    exact ⟨n, lt_of_below hbelow, rfl⟩

/-- The integers that a numeral is read as. -/
theorem exists_of_readInteger (h : readInteger text = .ok value) :
    ∃ n, value = .uint (.ofNat n) ∨ value = .ulong (.ofNat n) ∨
      (value = .int (.ofNat n) ∧ n < UInt32.size / 2) ∨
      (value = .long (.ofNat n) ∧ n < UInt64.size / 2) := by
  unfold readInteger at h
  dsimp only at h
  split at h
  · obtain ⟨n, hlt, rfl⟩ := exists_of_inRange h
    exact ⟨n, .inr (.inr (.inl ⟨rfl, hlt⟩))⟩
  · split at h
    · obtain ⟨n, -, rfl⟩ := exists_of_inRange h
      exact ⟨n, .inl rfl⟩
    · obtain ⟨n, hlt, rfl⟩ := exists_of_inRange h
      exact ⟨n, .inr (.inr (.inr ⟨rfl, hlt⟩))⟩
    · obtain ⟨n, -, rfl⟩ := exists_of_inRange h
      exact ⟨n, .inr (.inl rfl)⟩
    · cases h

/-- The real numbers that a numeral is read as, each by the reader of its type. -/
theorem exists_of_readReal (h : readReal text = .ok value) :
    (∃ x, Number.readFloat32 (splitSuffix text.toList).1 = some x ∧ value = .float x) ∨
    (∃ a, Number.Decimal.read (splitSuffix text.toList).1 = some a ∧ value = .decimal a) ∨
    ∃ x, Number.readFloat (splitSuffix text.toList).1 = some x ∧ value = .double x := by
  unfold readReal at h
  dsimp only at h
  split at h
  · next heq =>
    cases h
    split at heq
    · obtain ⟨x, hx, rfl⟩ := Option.map_eq_some_iff.1 heq
      exact .inl ⟨x, hx, rfl⟩
    · obtain ⟨a, ha, rfl⟩ := Option.map_eq_some_iff.1 heq
      exact .inr (.inl ⟨a, ha, rfl⟩)
    · obtain ⟨x, hx, rfl⟩ := Option.map_eq_some_iff.1 heq
      exact .inr (.inr ⟨x, hx, rfl⟩)
    · cases heq
  · cases h

theorem isNumeric_readInteger (h : readInteger text = .ok value) : value.isNumeric = true := by
  obtain ⟨n, rfl | rfl | ⟨rfl, -⟩ | ⟨rfl, -⟩⟩ := exists_of_readInteger h <;> rfl

theorem isNumeric_readReal (h : readReal text = .ok value) : value.isNumeric = true := by
  obtain ⟨x, -, rfl⟩ | ⟨a, -, rfl⟩ | ⟨x, -, rfl⟩ := exists_of_readReal h <;> rfl

/-! ## Kinds -/

/-- Whether a literal is a number is told by the kind of its word. -/
theorem isNumeric_iff {word : Word} (h : word.literal? = some (.ok value)) :
    value.isNumeric = true ↔ word.kind = .intLiteral ∨ word.kind = .realLiteral := by
  obtain ⟨kind, text⟩ := word
  unfold Word.literal? literalValue? at h
  dsimp only at h
  split at h
  · simp [isNumeric_readInteger (Option.some.inj h)]
  · simp [isNumeric_readReal (Option.some.inj h)]
  · split at h <;> cases h
    simp [Literal.isNumeric]
  -- strings and the three keywords
  all_goals cases h
  all_goals simp [Literal.isNumeric]

end UnitCheck.Parser
