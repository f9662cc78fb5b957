import UnitCheck.Proofs.Factor.Arithmetic
import UnitCheck.Registry.Basic

/-!
  Factors whose symbols are expanded.

  Every symbol that is known stands for some powers, and a factor has as many of them as the powers
  of its symbols say: above the bar what they stand for above it, below the bar the other way round
  (`Factor.total`). Substituting terms multiplies and divides step by step, and gives these totals
  (`expands_substitute`). What gives totals goes with inverses and with products, too
  (`Expands.closedForm`).
-/

namespace UnitCheck

namespace Factor

variable {a b c : Factor} {weight weight' : String → Side → String → Nat}

/-! ## Totals of a factor -/

/-- The powers of `s` in all that the symbols of a factor stand for. Below the bar the sides of
    what stands there are exchanged. -/
def total (a : Factor) (weight : String → Side → String → Nat) (side : Side) (s : String) : Nat :=
  a.numerator.total (fun symbol => weight symbol side s) +
    a.denominator.total (fun symbol => weight symbol side.flip s)

theorem total_inverse (a : Factor) (weight : String → Side → String → Nat) (side : Side)
    (s : String) : a.inverse.total weight side s = a.total weight side.flip s := by
  rw [total, total, Side.flip_flip, Nat.add_comm]
  rfl

/-- A symbol alone has the powers that it stands for. -/
theorem total_ofSymbol (symbol : String) (weight : String → Side → String → Nat) (side : Side)
    (s : String) : (ofSymbol symbol).total weight side s = weight symbol side s := by
  show 1 * weight symbol side s + 0 + 0 = _
  omega

/-- The totals of a product are sums. -/
theorem total_of_mul (h : a.mul b = .ok c) (weight : String → Side → String → Nat) (side : Side)
    (s : String) : c.total weight side s = a.total weight side s + b.total weight side s := by
  obtain ⟨numerator, hnumerator, h⟩ := bind_eq_ok_iff.1 h
  obtain ⟨denominator, hdenominator, h⟩ := bind_eq_ok_iff.1 h
  cases h
  rw [total, total, total, Terms.total_of_mul hnumerator, Terms.total_of_mul hdenominator]
  omega

/-- A product has the symbols of both factors. -/
theorem mem_symbols_of_mul (h : a.mul b = .ok c) {s : String} :
    s ∈ c.symbols ↔ s ∈ a.symbols ∨ s ∈ b.symbols := by
  have hexponent : ∀ side, c.exponent side s = a.exponent side s + b.exponent side s :=
    fun side => (gives_mul a b).exponent c h side s
  rw [mem_symbols_iff, mem_symbols_iff, mem_symbols_iff]
  constructor
  · rintro ⟨side, hs⟩
    have hside := hexponent side
    by_cases ha : a.exponent side s = 0
    · exact .inr ⟨side, by omega⟩
    · exact .inl ⟨side, ha⟩
  · rintro (⟨side, hs⟩ | ⟨side, hs⟩)
    · exact ⟨side, by have hside := hexponent side; omega⟩
    · exact ⟨side, by have hside := hexponent side; omega⟩

theorem mem_symbols_inverse {s : String} : s ∈ a.inverse.symbols ↔ s ∈ a.symbols := by
  rw [symbols, symbols, List.mem_append, List.mem_append, or_comm]
  rfl

/-- Only what its own symbols stand for matters to a factor. -/
theorem total_congr (h : ∀ symbol ∈ a.symbols, ∀ side s, weight symbol side s =
    weight' symbol side s) (side : Side) (s : String) :
    a.total weight side s = a.total weight' side s := by
  have habove := Terms.total_congr fun symbol hsymbol =>
    h symbol (List.mem_append_left a.denominator.symbols hsymbol) side s
  have hbelow := Terms.total_congr fun symbol hsymbol =>
    h symbol (List.mem_append_right a.numerator.symbols hsymbol) side.flip s
  rw [total, total, habove, hbelow]

/-- A total is zero if no symbol contributes to it. -/
theorem total_eq_zero {s : String} (h : ∀ symbol ∈ a.symbols, ∀ side, weight symbol side s = 0)
    (side : Side) : a.total weight side s = 0 := by
  rw [total, Terms.total_eq_zero fun symbol hsymbol => h symbol (List.mem_append_left _ hsymbol)
    side, Terms.total_eq_zero fun symbol hsymbol => h symbol (List.mem_append_right _ hsymbol)
    side.flip]

/-- A factor whose symbols stand for themselves has its own powers. -/
theorem total_eq_exponent (h : ∀ symbol ∈ a.symbols, ∀ side s, weight symbol side s =
    (ofSymbol symbol).exponent side s) (side : Side) (s : String) :
    a.total weight side s = a.exponent side s := by
  rw [total_congr h, total]
  simp only [exponent_ofSymbol]
  -- Only one of the sides has anything above the bar.
  cases side with
  | above =>
    have hbelow : a.denominator.total (fun symbol =>
        if Side.above.flip = .above ∧ s = symbol then 1 else 0) = 0 :=
      Terms.total_eq_zero fun symbol _ => by simp
    rw [hbelow]
    simp [exponent, side, Terms.exponent_eq_total, eq_comm]
  | below =>
    have habove : a.numerator.total (fun symbol =>
        if Side.below = .above ∧ s = symbol then 1 else 0) = 0 :=
      Terms.total_eq_zero fun symbol _ => by simp
    rw [habove]
    simp [exponent, side, Terms.exponent_eq_total, eq_comm]

end Factor

/-! ## Expanding symbols -/

/-- Rewriting expands the symbols that are known into the powers that they stand for, and is refused
    for other symbols. -/
structure Expands (rewrite : Factor → Except UnitError Factor) (Known : String → Prop)
    (weight : String → Side → String → Nat) : Prop where
  known : ∀ a b, rewrite a = .ok b → ∀ symbol ∈ a.symbols, Known symbol
  gives : ∀ a : Factor, (∀ symbol ∈ a.symbols, Known symbol) →
    Factor.Gives (rewrite a) (a.total weight)

/-- What follows from expanding symbols, in closed form. -/
structure ClosedForm (rewrite : Factor → Except UnitError Factor) (Known : String → Prop)
    (weight : String → Side → String → Nat) : Prop where
  /-- A factor is rewritten just if all its symbols are known and no total is out of range. -/
  exists_iff : ∀ a : Factor, (∃ b, rewrite a = .ok b) ↔
    (∀ symbol ∈ a.symbols, Known symbol) ∧ ∀ side s, a.total weight side s ≤ maxExponent
  /-- The powers are the totals, and nothing cancels across the bar. -/
  exponent : ∀ a b : Factor, rewrite a = .ok b → ∀ side s, b.exponent side s = a.total weight side s
  /-- What has the total zero does not occur. -/
  symbols : ∀ a b : Factor, rewrite a = .ok b → ∀ side s,
    s ∈ (b.side side).symbols ↔ a.total weight side s ≠ 0
  inverse : ∀ a b : Factor, rewrite a.inverse = .ok b.inverse ↔ rewrite a = .ok b
  mul : ∀ a b product : Factor, a.mul b = .ok product → ∀ c, rewrite product = .ok c ↔
    ∃ a' b', rewrite a = .ok a' ∧ rewrite b = .ok b' ∧ a'.mul b' = .ok c

namespace Expands

variable {rewrite : Factor → Except UnitError Factor} {Known Known' : String → Prop}
  {weight weight' : String → Side → String → Nat} {a b : Factor}

theorem exists_iff (h : Expands rewrite Known weight) : (∃ b, rewrite a = .ok b) ↔
    (∀ symbol ∈ a.symbols, Known symbol) ∧ ∀ side s, a.total weight side s ≤ maxExponent := by
  constructor
  · rintro ⟨b, hb⟩
    have hknown := h.known a b hb
    exact ⟨hknown, (h.gives a hknown).exists_iff.1 ⟨b, hb⟩⟩
  · rintro ⟨hknown, hrange⟩
    exact (h.gives a hknown).exists_iff.2 hrange

theorem eq_ok_iff (h : Expands rewrite Known weight) : rewrite a = .ok b ↔
    (∀ symbol ∈ a.symbols, Known symbol) ∧ ∀ side s, b.exponent side s = a.total weight side s := by
  constructor
  · intro hb
    have hknown := h.known a b hb
    exact ⟨hknown, (h.gives a hknown).exponent b hb⟩
  · rintro ⟨hknown, hexponent⟩
    exact (h.gives a hknown).eq_ok_iff.2 hexponent

theorem exponent (h : Expands rewrite Known weight) (hb : rewrite a = .ok b) (side : Side)
    (s : String) : b.exponent side s = a.total weight side s :=
  (h.eq_ok_iff.1 hb).2 side s

/-- A symbol alone is expanded into what it stands for. -/
theorem ofSymbol (h : Expands rewrite Known weight) {symbol : String} (hknown : Known symbol)
    (hb : ∀ side s, b.exponent side s = weight symbol side s) :
    rewrite (.ofSymbol symbol) = .ok b := by
  refine h.eq_ok_iff.2 ⟨fun other hother => ?_, fun side s => ?_⟩
  · rwa [List.mem_singleton.1 hother]
  · rw [Factor.total_ofSymbol, hb]

/-- A factor whose symbols stand for themselves is left as it is. -/
theorem eq_ok_self (h : Expands rewrite Known weight) (hknown : ∀ symbol ∈ a.symbols, Known symbol)
    (hself : ∀ symbol ∈ a.symbols, ∀ side s,
      weight symbol side s = (Factor.ofSymbol symbol).exponent side s) : rewrite a = .ok a :=
  h.eq_ok_iff.2 ⟨hknown, fun side s => (Factor.total_eq_exponent hself side s).symm⟩

theorem inverse (h : Expands rewrite Known weight) :
    rewrite a.inverse = .ok b.inverse ↔ rewrite a = .ok b := by
  rw [h.eq_ok_iff, h.eq_ok_iff]
  simp only [Factor.mem_symbols_inverse, Factor.exponent_inverse, Factor.total_inverse]
  refine and_congr_right fun _ => ⟨fun hb side s => ?_, fun hb side => hb side.flip⟩
  have hflipped := hb side.flip s
  rwa [Side.flip_flip] at hflipped

/-- A product is rewritten by rewriting its factors. -/
theorem mul (h : Expands rewrite Known weight) {product c : Factor}
    (hproduct : a.mul b = .ok product) : rewrite product = .ok c ↔
      ∃ a' b', rewrite a = .ok a' ∧ rewrite b = .ok b' ∧ a'.mul b' = .ok c := by
  have hsymbols := fun symbol => Factor.mem_symbols_of_mul hproduct (s := symbol)
  have htotal := Factor.total_of_mul hproduct weight
  constructor
  · intro hc
    obtain ⟨hknown, hexponent⟩ := h.eq_ok_iff.1 hc
    -- Neither factor has a total above that of the product.
    have hrange : ∀ side s, a.total weight side s + b.total weight side s ≤ maxExponent := by
      intro side s
      rw [← htotal, ← hexponent]
      exact c.exponent_le_max side s
    obtain ⟨a', ha⟩ := h.exists_iff.2
      ⟨fun symbol hmem => hknown symbol ((hsymbols symbol).2 (.inl hmem)),
        fun side s => Nat.le_trans (Nat.le_add_right _ _) (hrange side s)⟩
    obtain ⟨b', hb⟩ := h.exists_iff.2
      ⟨fun symbol hmem => hknown symbol ((hsymbols symbol).2 (.inr hmem)),
        fun side s => Nat.le_trans (Nat.le_add_left _ _) (hrange side s)⟩
    refine ⟨a', b', ha, hb, (Factor.gives_mul a' b').eq_ok_iff.2 fun side s => ?_⟩
    rw [hexponent, htotal, h.exponent ha, h.exponent hb]
  · rintro ⟨a', b', ha, hb, hc⟩
    refine h.eq_ok_iff.2 ⟨fun symbol hmem => ?_, fun side s => ?_⟩
    · rcases (hsymbols symbol).1 hmem with hmem | hmem
      · exact h.known a a' ha symbol hmem
      · exact h.known b b' hb symbol hmem
    · rw [(Factor.gives_mul a' b').exponent c hc, htotal, h.exponent ha, h.exponent hb]

theorem closedForm (h : Expands rewrite Known weight) : ClosedForm rewrite Known weight where
  exists_iff _ := h.exists_iff
  exponent _ _ := h.exponent
  symbols a b hb side s := by
    rw [Terms.mem_symbols_iff, ← h.exponent hb]
    rfl
  inverse _ _ := h.inverse
  mul _ _ _ hproduct _ := h.mul hproduct

end Expands

/-! ## Substituting terms -/

section

variable {term : String → Exponent → Except UnitError Factor} {Known : String → Prop}
  {weight : String → Side → String → Nat}

/-- A factor is multiplied by a term. -/
theorem gives_mul_term {outcome : Except UnitError Factor} {powers : Side → String → Nat}
    (h : Factor.Gives outcome powers) (a : Factor) :
    Factor.Gives (outcome >>= a.mul) fun side s => a.exponent side s + powers side s := by
  refine h.bind (fun t ht => ?_) fun hrange side s => ?_
  · refine (Factor.gives_mul a t).congr fun side s => ?_
    rw [h.exponent t ht]
  · exact Nat.le_trans (Nat.le_add_left _ _) (hrange side s)

/-- A factor is divided by a term. -/
theorem gives_div_term {outcome : Except UnitError Factor} {powers : Side → String → Nat}
    (h : Factor.Gives outcome powers) (a : Factor) :
    Factor.Gives (outcome >>= a.div) fun side s => a.exponent side s + powers side.flip s := by
  refine h.bind (fun t ht => ?_) fun hrange side s => ?_
  · refine (Factor.gives_div a t).congr fun side s => ?_
    rw [h.exponent t ht]
  · have hside := hrange side.flip s
    rw [Side.flip_flip] at hside
    exact Nat.le_trans (Nat.le_add_left _ _) hside

/-- Steps that add multiples of weights add up to a total. -/
theorem gives_foldlM (step : Factor → String × Exponent → Except UnitError Factor)
    (weigh : String → Side → String → Nat) {entries : List (String × Exponent)}
    (hstep : ∀ e ∈ entries, ∀ a : Factor, Factor.Gives (step a e) fun side s =>
      a.exponent side s + e.2.val * weigh e.1 side s) (start : Factor) :
    Factor.Gives (entries.foldlM step start) fun side s =>
      start.exponent side s + totalOf (fun symbol => weigh symbol side s) entries := by
  induction entries generalizing start with
  | nil => exact Factor.Gives.ok start
  | cons e entries ih =>
    obtain ⟨hhead, hrest⟩ := List.forall_mem_cons.1 hstep
    rw [List.foldlM_cons]
    refine (hhead start).bind (fun next hnext => ?_) fun hrange side s => ?_
    · refine (ih hrest next).congr fun side s => ?_
      rw [(hhead start).exponent next hnext, totalOf_cons, Nat.add_assoc]
    · have hside := hrange side s
      rw [totalOf_cons] at hside
      omega

/-- Substituting terms expands the symbols, if every term has multiples of the powers that its
    symbol stands for. -/
theorem expands_substitute
    (hknown : ∀ symbol power result, term symbol power = .ok result → Known symbol)
    (hterm : ∀ symbol, Known symbol → ∀ power, Factor.Gives (term symbol power) fun side s =>
      power.val * weight symbol side s) :
    Expands (Registry.substitute term) Known weight where
  -- Every symbol stands in one of the sides, and its term was calculated for the result.
  known a b hb symbol hmem := by
    obtain ⟨above, habove, hbelow⟩ := bind_eq_ok_iff.1 hb
    rcases List.mem_append.1 hmem with hmem | hmem
    · obtain ⟨e, he, rfl⟩ := List.mem_map.1 hmem
      obtain ⟨before, after, hstep⟩ := exists_of_foldlM_eq_ok habove he
      obtain ⟨result, hresult, -⟩ := bind_eq_ok_iff.1 hstep
      exact hknown e.1 e.2 result hresult
    · obtain ⟨e, he, rfl⟩ := List.mem_map.1 hmem
      obtain ⟨before, after, hstep⟩ := exists_of_foldlM_eq_ok hbelow he
      obtain ⟨result, hresult, -⟩ := bind_eq_ok_iff.1 hstep
      exact hknown e.1 e.2 result hresult
  gives a hall := by
    -- The terms above are multiplied and those below divided by, each in a loop of its own.
    have habove := gives_foldlM (fun result e => do result.mul (← term e.1 e.2)) weight
      (fun e he result => gives_mul_term (hterm e.1 (hall e.1
        (List.mem_append_left _ (List.mem_map_of_mem he))) e.2) result) .one
    have hbelow := gives_foldlM (fun result e => do result.div (← term e.1 e.2))
      (fun symbol side => weight symbol side.flip)
      (fun e he result => gives_div_term (hterm e.1 (hall e.1
        (List.mem_append_right _ (List.mem_map_of_mem he))) e.2) result)
    refine habove.bind (fun above hab => ?_) fun hrange side s => ?_
    · refine (hbelow above).congr fun side s => ?_
      rw [habove.exponent above hab, Factor.exponent_one, Nat.zero_add]
      rfl
    · rw [Factor.exponent_one, Nat.zero_add]
      exact Nat.le_trans (Nat.le_add_right _ _) (hrange side s)

end

end UnitCheck
