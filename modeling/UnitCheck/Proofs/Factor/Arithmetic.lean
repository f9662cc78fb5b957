import UnitCheck.Proofs.Factor.Powers

/-!
  Products, quotients and powers of factors.

  The two sides of the bar are alike, so a factor is described by its powers on either side
  (`Factor.exponent`). What is calculated with factors has the powers that are expected of it where
  all of them are in range, and is refused otherwise (`Factor.Gives`). No step takes anything away
  from a power, so what is too large on the way is too large at the end, and steps may be put
  together (`Factor.Gives.bind`).
-/

namespace UnitCheck

/-- The sides of the fraction bar. -/
inductive Side where
  | above
  | below
  deriving DecidableEq

namespace Side

/-- The other side. -/
def flip : Side → Side
  | above => below
  | below => above

@[simp] theorem flip_above : flip above = below := rfl

@[simp] theorem flip_below : flip below = above := rfl

@[simp] theorem flip_flip (side : Side) : side.flip.flip = side := by
  cases side <;> rfl

end Side

namespace Factor

variable {a b c : Factor}

/-! ## Powers on both sides -/

/-- What stands on a side of the bar. -/
def side (a : Factor) : Side → Terms
  | .above => a.numerator
  | .below => a.denominator

/-- The power of a symbol on a side of the bar. -/
def exponent (a : Factor) (side : Side) (symbol : String) : Nat := (a.side side).exponent symbol

theorem exponent_le_max (a : Factor) (side : Side) (s : String) :
    a.exponent side s ≤ maxExponent := Terms.exponent_le_max _ s

/-- The powers of the symbols that occur are from one to `maxExponent`. -/
theorem exponent_range {a : Factor} {side : Side} {s : String} (h : s ∈ (a.side side).symbols) :
    1 ≤ a.exponent side s ∧ a.exponent side s ≤ maxExponent :=
  ⟨Nat.pos_of_ne_zero (Terms.mem_symbols_iff.1 h), a.exponent_le_max side s⟩

/-- A factor is determined by its powers. -/
theorem eq_of_exponent (h : ∀ side s, a.exponent side s = b.exponent side s) : a = b :=
  ext_exponent (h .above) (h .below)

/-- The symbols of a factor are those that have a power on a side of the bar. -/
theorem mem_symbols_iff {s : String} : s ∈ a.symbols ↔ ∃ side, a.exponent side s ≠ 0 := by
  rw [symbols, List.mem_append, Terms.mem_symbols_iff, Terms.mem_symbols_iff]
  constructor
  · rintro (h | h)
    · exact ⟨.above, h⟩
    · exact ⟨.below, h⟩
  · rintro ⟨side, h⟩
    cases side with
    | above => exact .inl h
    | below => exact .inr h

/-- Factors whose symbols are all of one kind are told apart by the powers of that kind. -/
theorem eq_of_exponent_of_mem {Kind : String → Prop} (ha : ∀ s ∈ a.symbols, Kind s)
    (hb : ∀ s ∈ b.symbols, Kind s)
    (h : ∀ s, Kind s → ∀ side, a.exponent side s = b.exponent side s) : a = b := by
  refine eq_of_exponent fun side s => ?_
  by_cases hs : Kind s
  · exact h s hs side
  -- What is of another kind occurs in neither.
  · have hzero : ∀ c : Factor, (∀ s ∈ c.symbols, Kind s) → c.exponent side s = 0 :=
      fun c hc => Decidable.byContradiction fun hne => hs (hc s (mem_symbols_iff.2 ⟨side, hne⟩))
    rw [hzero a ha, hzero b hb]

@[simp] theorem exponent_one (side : Side) (s : String) : one.exponent side s = 0 := by
  cases side <;> rfl

@[simp] theorem exponent_inverse (a : Factor) (side : Side) (s : String) :
    a.inverse.exponent side s = a.exponent side.flip s := by
  cases side <;> rfl

theorem exponent_power (symbol : String) (p : Exponent) (side : Side) (s : String) :
    (power symbol p).exponent side s = if side = .above ∧ s = symbol then p.val else 0 := by
  cases side with
  | above =>
    show (Terms.empty.set symbol p).exponent s = _
    simp
  | below => simp [exponent, Factor.side, power]

/-- A symbol alone has the power one above the bar. -/
theorem exponent_ofSymbol (symbol : String) (side : Side) (s : String) :
    (ofSymbol symbol).exponent side s = if side = .above ∧ s = symbol then 1 else 0 :=
  exponent_power symbol .one side s

/-! ## Outcomes -/

/-- The outcome is the factor with the given powers, where all of them are in range. -/
structure Gives (outcome : Except UnitError Factor) (powers : Side → String → Nat) : Prop where
  exists_ok : (∀ side s, powers side s ≤ maxExponent) → ∃ a, outcome = .ok a
  exponent : ∀ a, outcome = .ok a → ∀ side s, a.exponent side s = powers side s

namespace Gives

variable {outcome : Except UnitError Factor} {powers powers' : Side → String → Nat}

theorem exists_iff (h : Gives outcome powers) :
    (∃ a, outcome = .ok a) ↔ ∀ side s, powers side s ≤ maxExponent := by
  constructor
  · rintro ⟨a, ha⟩ side s
    rw [← h.exponent a ha]
    exact a.exponent_le_max side s
  · exact h.exists_ok

theorem eq_ok_iff (h : Gives outcome powers) :
    outcome = .ok a ↔ ∀ side s, a.exponent side s = powers side s := by
  constructor
  · exact h.exponent a
  · intro ha
    obtain ⟨b, hb⟩ := h.exists_ok fun side s => by
      rw [← ha]
      exact a.exponent_le_max side s
    have hsame : a = b := eq_of_exponent fun side s => by rw [ha, h.exponent b hb]
    rw [hsame, hb]

theorem congr (h : Gives outcome powers) (hpowers : ∀ side s, powers side s = powers' side s) :
    Gives outcome powers' := by
  have hsame : powers = powers' := funext fun side => funext (hpowers side)
  rw [← hsame]
  exact h

theorem ok (a : Factor) : Gives (.ok a) a.exponent :=
  ⟨fun _ => ⟨a, rfl⟩, fun b hb side s => by cases hb; rfl⟩

/-- A second step, after which no power is in range that was not in range before. -/
theorem bind {next : Factor → Except UnitError Factor} (h : Gives outcome powers)
    (hnext : ∀ a, outcome = .ok a → Gives (next a) powers')
    (hrange : (∀ side s, powers' side s ≤ maxExponent) → ∀ side s, powers side s ≤ maxExponent) :
    Gives (outcome >>= next) powers' where
  exists_ok hrange' := by
    obtain ⟨a, ha⟩ := h.exists_ok (hrange hrange')
    obtain ⟨b, hb⟩ := (hnext a ha).exists_ok hrange'
    exact ⟨b, bind_eq_ok_iff.2 ⟨a, ha, hb⟩⟩
  exponent b hb := by
    obtain ⟨a, ha, hb⟩ := bind_eq_ok_iff.1 hb
    exact (hnext a ha).exponent b hb

end Gives

/-! ## Products, quotients and powers -/

/-- The powers of a product are sums. -/
theorem gives_mul (a b : Factor) :
    Gives (a.mul b) fun side s => a.exponent side s + b.exponent side s where
  exists_ok h := by
    obtain ⟨numerator, hnumerator⟩ := Terms.exists_mul (h .above)
    obtain ⟨denominator, hdenominator⟩ := Terms.exists_mul (h .below)
    refine ⟨⟨numerator, denominator⟩, ?_⟩
    exact bind_eq_ok_iff.2 ⟨numerator, hnumerator,
      bind_eq_ok_iff.2 ⟨denominator, hdenominator, rfl⟩⟩
  exponent c hc side s := by
    obtain ⟨numerator, hnumerator, hc⟩ := bind_eq_ok_iff.1 hc
    obtain ⟨denominator, hdenominator, hc⟩ := bind_eq_ok_iff.1 hc
    cases hc
    cases side with
    | above => exact Terms.exponent_of_mul hnumerator s
    | below => exact Terms.exponent_of_mul hdenominator s

/-- The powers of a quotient are sums, with the sides of the divisor exchanged. -/
theorem gives_div (a b : Factor) :
    Gives (a.div b) fun side s => a.exponent side s + b.exponent side.flip s :=
  (gives_mul a b.inverse).congr fun side s => by rw [exponent_inverse]

/-- The powers of a power are multiples. -/
theorem gives_pow (a : Factor) (n : Nat) : Gives (a.pow n) fun side s => n * a.exponent side s := by
  by_cases hn : n = 0
  -- The power of nothing is one, and no side is scaled.
  · subst hn
    exact (Gives.ok one).congr fun side s => by rw [exponent_one, Nat.zero_mul]
  rw [pow, if_neg hn]
  constructor
  · intro h
    have hpos : 0 < n := Nat.pos_of_ne_zero hn
    obtain ⟨numerator, hnumerator⟩ : ∃ t, a.numerator.scale n = .ok t :=
      Terms.exists_scale hpos fun s => Nat.mul_comm n _ ▸ h .above s
    obtain ⟨denominator, hdenominator⟩ : ∃ t, a.denominator.scale n = .ok t :=
      Terms.exists_scale hpos fun s => Nat.mul_comm n _ ▸ h .below s
    refine ⟨⟨numerator, denominator⟩, ?_⟩
    exact bind_eq_ok_iff.2 ⟨numerator, hnumerator,
      bind_eq_ok_iff.2 ⟨denominator, hdenominator, rfl⟩⟩
  · intro c hc side s
    obtain ⟨numerator, hnumerator, hc⟩ := bind_eq_ok_iff.1 hc
    obtain ⟨denominator, hdenominator, hc⟩ := bind_eq_ok_iff.1 hc
    cases hc
    rw [Nat.mul_comm]
    cases side with
    | above => exact Terms.exponent_of_scale hnumerator s
    | below => exact Terms.exponent_of_scale hdenominator s

/-- A symbol alone is raised to the power that is given. -/
theorem pow_ofSymbol (symbol : String) (p : Exponent) :
    (ofSymbol symbol).pow p.val = .ok (power symbol p) := by
  refine (gives_pow _ _).eq_ok_iff.2 fun side s => ?_
  rw [exponent_power, exponent_ofSymbol]
  split
  · rw [Nat.mul_one]
  · rw [Nat.mul_zero]

end Factor

end UnitCheck
