import UnitCheck.Proofs.Factor.Arithmetic

/-!
  Capped products of factors.

  A side is multiplied into another entry by entry, and every power that would pass `maxExponent`
  stays there. Stopping on the way makes no difference to stopping at the end, so the powers of a
  product are the sums, capped once (`Terms.exponent_mulCapped`). All laws of the capped algebra
  follow from this, since a factor is determined by its powers. What is added on the way is a power
  of the side and a power of an entry; their sum is less than `2 ^ 32`.
-/

namespace UnitCheck

/-! ## Sides -/

namespace Terms

/-- The side after some entries were multiplied into it, one after the other. -/
def mulEntriesCapped (t : Terms) (entries : List (String × Exponent)) : Terms :=
  entries.foldl (fun t e => t.addCapped e.1 e.2) t

theorem mulCapped_eq (a b : Terms) : a.mulCapped b = a.mulEntriesCapped b.entries := rfl

/-- A power that has reached the cap on the way is at the cap in the end. -/
theorem exponent_mulEntriesCapped (t : Terms) (entries : List (String × Exponent)) (s : String) :
    (t.mulEntriesCapped entries).exponent s =
      min (t.exponent s + totalOf (fun x => if x = s then 1 else 0) entries) maxExponent := by
  -- Induction on the entries; a sum that was cut off stays at the cap, since no power is negative.
  induction entries generalizing t with
  | nil =>
    have hle := t.exponent_le_max s
    show t.exponent s = _
    rw [totalOf_nil]
    omega
  | cons e entries ih =>
    have hnext : t.mulEntriesCapped (e :: entries) =
        (t.addCapped e.1 e.2).mulEntriesCapped entries := rfl
    rw [hnext, ih, exponent_addCapped, totalOf_cons]
    by_cases hs : s = e.1
    · rw [if_pos hs, if_pos hs.symm]
      omega
    · rw [if_neg hs, if_neg (Ne.symm hs), Nat.mul_zero, Nat.zero_add]

/-- The powers of a capped product are the capped sums. -/
@[simp] theorem exponent_mulCapped (a b : Terms) (s : String) :
    (a.mulCapped b).exponent s = min (a.exponent s + b.exponent s) maxExponent := by
  rw [mulCapped_eq, exponent_mulEntriesCapped, b.exponent_eq_total, total]

/-- A power of a side and the power of an entry, both below `2 ^ 31`, have a sum in 32 bits. -/
theorem exponent_add_lt (t : Terms) (s : String) (p : Exponent) :
    t.exponent s + p.val < UInt32.size := by
  have hle := t.exponent_le_max s
  have hp := p.le_max
  have hsize : 2 * maxExponent < UInt32.size := by decide
  omega

end Terms

/-! ## Factors -/

namespace Factor

@[simp] theorem exponent_mulCapped (a b : Factor) (side : Side) (s : String) :
    (a.mulCapped b).exponent side s =
      min (a.exponent side s + b.exponent side s) maxExponent := by
  cases side with
  | above => exact Terms.exponent_mulCapped _ _ s
  | below => exact Terms.exponent_mulCapped _ _ s

theorem mulCapped_comm (a b : Factor) : a.mulCapped b = b.mulCapped a := by
  refine eq_of_exponent fun side s => ?_
  rw [exponent_mulCapped, exponent_mulCapped, Nat.add_comm]

/-- Both ways of grouping cap the sum of the three powers. -/
theorem mulCapped_assoc (a b c : Factor) :
    (a.mulCapped b).mulCapped c = a.mulCapped (b.mulCapped c) := by
  refine eq_of_exponent fun side s => ?_
  simp only [exponent_mulCapped]
  omega

theorem mulCapped_one (a : Factor) : a.mulCapped one = a := by
  refine eq_of_exponent fun side s => ?_
  have hle := a.exponent_le_max side s
  rw [exponent_mulCapped, exponent_one]
  omega

theorem one_mulCapped (a : Factor) : one.mulCapped a = a := by
  rw [mulCapped_comm, mulCapped_one]

theorem inverse_mulCapped (a b : Factor) :
    (a.mulCapped b).inverse = a.inverse.mulCapped b.inverse := rfl

/-- A factor is dimensionless just if turning it over changes nothing. -/
theorem isDimensionless_iff {a : Factor} : a.isDimensionless = true ↔ a.inverse = a := by
  obtain ⟨numerator, denominator⟩ := a
  simp [isDimensionless, inverse, eq_comm]

theorem isDimensionless_mulCapped {a b : Factor} (ha : a.isDimensionless = true)
    (hb : b.isDimensionless = true) : (a.mulCapped b).isDimensionless = true := by
  rw [isDimensionless_iff] at ha hb ⊢
  rw [inverse_mulCapped, ha, hb]

theorem isDimensionless_inverse {a : Factor} (h : a.isDimensionless = true) :
    a.inverse.isDimensionless = true := by
  rw [isDimensionless_iff] at h ⊢
  rw [h, h]

/-- Both sides of the quotient are the product of the two sides. -/
theorem isDimensionless_divCapped_self (a : Factor) : (a.divCapped a).isDimensionless = true := by
  rw [isDimensionless_iff, divCapped_eq_mulCapped_inverse, inverse_mulCapped, inverse_inverse,
    mulCapped_comm]

/-- **The capped algebra of factors.** Products are commutative and associative with the empty
    factor as unit. Turning over is its own inverse and goes over products; quotients are products
    with the divisor turned over. A factor over itself is dimensionless, and products and
    reciprocals of dimensionless factors are. The powers of a product are the capped sums, all
    powers of results are from one to `maxExponent`, and no sum on the way to a product or a
    quotient exceeds 32 bits. -/
theorem capped_algebra (a b c : Factor) :
    (a.mulCapped b = b.mulCapped a ∧
      (a.mulCapped b).mulCapped c = a.mulCapped (b.mulCapped c) ∧
      a.mulCapped one = a ∧ one.mulCapped a = a) ∧
    (a.inverse.inverse = a ∧ (a.mulCapped b).inverse = a.inverse.mulCapped b.inverse ∧
      a.divCapped b = a.mulCapped b.inverse) ∧
    ((a.divCapped a).isDimensionless = true ∧
      (a.isDimensionless = true → b.isDimensionless = true →
        (a.mulCapped b).isDimensionless = true) ∧
      (a.isDimensionless = true → a.inverse.isDimensionless = true)) ∧
    (∀ side s, (a.mulCapped b).exponent side s =
      min (a.exponent side s + b.exponent side s) maxExponent) ∧
    (∀ result ∈ [a.mulCapped b, a.divCapped b, a.inverse, one], ∀ side,
      ∀ s ∈ (result.side side).symbols,
        1 ≤ result.exponent side s ∧ result.exponent side s ≤ maxExponent) ∧
    ∀ side other done e rest, (b.side other).entries = done ++ e :: rest →
      ((a.side side).mulEntriesCapped done).exponent e.1 + e.2.val < UInt32.size :=
  ⟨⟨mulCapped_comm a b, mulCapped_assoc a b c, mulCapped_one a, one_mulCapped a⟩,
    ⟨inverse_inverse a, inverse_mulCapped a b, divCapped_eq_mulCapped_inverse a b⟩,
    ⟨isDimensionless_divCapped_self a, isDimensionless_mulCapped, isDimensionless_inverse⟩,
    exponent_mulCapped a b, fun _ _ _ _ hs => exponent_range hs,
    fun _ _ _ _ _ _ => Terms.exponent_add_lt _ _ _⟩

/-- A power at the cap, above and below the bar. -/
theorem capped_algebra_full :
    let cap : Exponent := ⟨maxExponent, by decide, by decide⟩
    let full := power "m" cap
    let ratio := full.divCapped full
    full.mulCapped full = full ∧
      ratio.isDimensionless = true ∧ (ratio.mulCapped ratio).isDimensionless = true ∧
      ratio.inverse.isDimensionless = true ∧
      "m" ∈ (ratio.inverse.side .below).symbols ∧ 1 ≤ ratio.inverse.exponent .below "m" ∧
      (full.side .above).entries = [] ++ ("m", cap) :: [] ∧
      ((full.side .above).mulEntriesCapped []).exponent "m" + cap.val < UInt32.size := by
  intro cap full ratio
  obtain ⟨-, -, ⟨hratio, -, -⟩, -, -, hsums⟩ := capped_algebra full full one
  obtain ⟨-, -, ⟨-, hproduct, hinverse⟩, -, hrange, -⟩ := capped_algebra ratio ratio one
  have hmem : "m" ∈ (ratio.inverse.side .below).symbols := by decide
  have hentries : (full.side .above).entries = [] ++ ("m", cap) :: [] := by decide
  exact ⟨by decide, hratio, hproduct hratio hratio, hinverse hratio, hmem,
    (hrange ratio.inverse (by simp) .below "m" hmem).1, hentries,
    hsums .above .above [] ("m", cap) [] hentries⟩

end Factor

end UnitCheck
