import UnitCheck.Proofs.Factor.Capped

/-!
  Products and powers that are refused where a power gets too large.

  A product is refused at the first entry whose sum is out of range. What was raised before are
  other symbols, so the failure names the first symbol, in ascending order, whose two powers add up
  to too much (`Terms.mul_eq_error_iff`); the numerator is multiplied before the denominator. This
  says which products fail and how, whichever factor comes first and however products are grouped.
  Powers only grow on the way, and so a power is refused just if multiplying one by one is.
-/

namespace UnitCheck

/-! ## Words -/

namespace Exponent

/-- A number as a word of 32 bits, if it fits. -/
def word? (n : Nat) : Option UInt32 := if n < UInt32.size then some (.ofNat n) else none

/-- What does not fit into a word is no power, so a power can be looked for among words. -/
theorem ofNat?_eq_word (n : Nat) : ofNat? n = (word? n).bind fun word => ofNat? word.toNat := by
  rw [word?]
  split
  · next hfits =>
    have hword : (UInt32.ofNat n).toNat = n := UInt32.toNat_ofNat_of_lt' hfits
    rw [Option.bind_some, hword]
  · next hlarge =>
    have hsize : maxExponent < UInt32.size := by decide
    rw [Option.bind_none, ofNat?_eq_none_iff]
    exact .inr (by omega)

end Exponent

/-! ## Sides -/

namespace Terms

variable {a b t : Terms}

/-- The first symbol, in ascending order, whose power is out of range. -/
structure FirstOver (powers : String → Nat) (symbol : String) : Prop where
  tooGreat : maxExponent < powers symbol
  first : ∀ s < symbol, powers s ≤ maxExponent

theorem FirstOver.unique {powers : String → Nat} {s t : String} (hs : FirstOver powers s)
    (ht : FirstOver powers t) : s = t := by
  have hnot : ∀ {s t}, FirstOver powers s → FirstOver powers t → ¬ s < t := by
    intro s t hs ht hlt
    have hle := ht.first s hlt
    have hgreat := hs.tooGreat
    omega
  exact String.le_antisymm (String.not_lt.1 (hnot ht hs)) (String.not_lt.1 (hnot hs ht))

/-- A product that fails stops at the first symbol whose sum is out of range. -/
theorem firstOver_of_foldlM_raise {entries : List (String × Exponent)}
    (hsorted : SortedEntries entries) {cause : UnitError}
    (h : entries.foldlM (fun t e => t.raise e.1 e.2) t = .error cause) :
    ∃ symbol, FirstOver (fun s => t.exponent s + totalOf (fun x => if x = s then 1 else 0) entries)
      symbol ∧ cause = .exponentOverflow symbol := by
  induction entries generalizing t with
  | nil => cases h
  | cons e entries ih =>
    obtain ⟨hhead, htail⟩ := List.pairwise_cons.1 hsorted
    rw [List.foldlM_cons] at h
    rcases bind_eq_error_iff.1 h with hraise | ⟨next, hraise, hrest⟩
    -- The entry is refused. The symbols before its own have no entries, so their powers stay.
    · obtain ⟨hgreat, rfl⟩ := raise_eq_error_iff.1 hraise
      refine ⟨e.1, ⟨?_, fun s hs => ?_⟩, rfl⟩
      · rw [totalOf_cons, if_pos rfl]
        omega
      · have hnone : totalOf (fun x => if x = s then 1 else 0) (e :: entries) = 0 := by
          refine totalOf_eq_zero fun entry hentry => if_neg fun heq => ?_
          rcases List.mem_cons.1 hentry with rfl | hentry
          · exact String.lt_irrefl _ (heq ▸ hs)
          · exact String.lt_asymm hs (heq ▸ hhead entry hentry)
        have hle := t.exponent_le_max s
        omega
    -- The entry is taken over into the side, where it counts for the rest.
    · obtain ⟨symbol, hfirst, hcause⟩ := ih htail hrest
      have hsame : (fun s => next.exponent s +
          totalOf (fun x => if x = s then 1 else 0) entries) =
          fun s => t.exponent s + totalOf (fun x => if x = s then 1 else 0) (e :: entries) := by
        funext s
        rw [totalOf_cons, exponent_eq_total, total_of_raise hraise, ← exponent_eq_total,
          Nat.add_assoc]
      exact ⟨symbol, hsame ▸ hfirst, hcause⟩

/-- Which products of sides fail, and how. -/
theorem mul_eq_error_iff {cause : UnitError} : a.mul b = .error cause ↔
    ∃ symbol, FirstOver (fun s => a.exponent s + b.exponent s) symbol ∧
      cause = .exponentOverflow symbol := by
  have hfirst : ∀ {cause}, a.mul b = .error cause → ∃ symbol,
      FirstOver (fun s => a.exponent s + b.exponent s) symbol ∧
        cause = .exponentOverflow symbol := by
    intro cause h
    obtain ⟨symbol, hsymbol, hcause⟩ := firstOver_of_foldlM_raise b.sorted h
    refine ⟨symbol, ?_, hcause⟩
    simp only [exponent_eq_total b]
    exact hsymbol
  refine ⟨hfirst, ?_⟩
  rintro ⟨symbol, hsymbol, rfl⟩
  cases hmul : a.mul b with
  | ok c =>
    -- No power that is stored is too great, so there is no product.
    have hgreat := hsymbol.tooGreat
    have hle := c.exponent_le_max symbol
    rw [exponent_of_mul hmul] at hle
    omega
  | error cause =>
    obtain ⟨other, hother, rfl⟩ := hfirst hmul
    rw [hsymbol.unique hother]

end Terms

/-! ## Factors -/

namespace Factor

variable {a b c : Factor}

/-- The first symbol whose power is out of range. Those above the bar come before those below. -/
def FirstOver (powers : Side → String → Nat) (symbol : String) : Prop :=
  Terms.FirstOver (powers .above) symbol ∨
    (∀ s, powers .above s ≤ maxExponent) ∧ Terms.FirstOver (powers .below) symbol

theorem FirstOver.exists_side {powers : Side → String → Nat} {symbol : String}
    (h : FirstOver powers symbol) : ∃ side, maxExponent < powers side symbol := by
  rcases h with h | ⟨-, h⟩
  · exact ⟨.above, h.tooGreat⟩
  · exact ⟨.below, h.tooGreat⟩

/-- Which products fail, and how. -/
theorem mul_eq_error_iff {cause : UnitError} : a.mul b = .error cause ↔
    ∃ symbol, FirstOver (fun side s => a.exponent side s + b.exponent side s) symbol ∧
      cause = .exponentOverflow symbol := by
  -- The side above is multiplied first, so the one below is only blamed if that one fits.
  rw [mul, bind_eq_error_iff, Terms.mul_eq_error_iff]
  constructor
  · rintro (⟨symbol, hsymbol, rfl⟩ | ⟨numerator, hnumerator, h⟩)
    · exact ⟨symbol, .inl hsymbol, rfl⟩
    · rcases bind_eq_error_iff.1 h with hbelow | ⟨denominator, -, h⟩
      · obtain ⟨symbol, hsymbol, rfl⟩ := Terms.mul_eq_error_iff.1 hbelow
        refine ⟨symbol, .inr ⟨fun s => ?_, hsymbol⟩, rfl⟩
        show a.numerator.exponent s + b.numerator.exponent s ≤ maxExponent
        rw [← Terms.exponent_of_mul hnumerator]
        exact numerator.exponent_le_max s
      · cases h
  · rintro ⟨symbol, hsymbol | ⟨habove, hsymbol⟩, rfl⟩
    · exact .inl ⟨symbol, hsymbol, rfl⟩
    · obtain ⟨numerator, hnumerator⟩ := Terms.exists_mul habove
      exact .inr ⟨numerator, hnumerator, bind_eq_error_iff.2
        (.inl (Terms.mul_eq_error_iff.2 ⟨symbol, hsymbol, rfl⟩))⟩

/-- A product that is not refused is the capped one. -/
theorem eq_mulCapped_of_mul (h : a.mul b = .ok c) : c = a.mulCapped b := by
  refine eq_of_exponent fun side s => ?_
  have hexponent := (gives_mul a b).exponent c h side s
  have hle := c.exponent_le_max side s
  rw [exponent_mulCapped]
  omega

/-- The order of the factors matters neither to a product nor to its failure. -/
protected theorem mul_comm (a b : Factor) : a.mul b = b.mul a := by
  cases h : b.mul a with
  | ok c =>
    refine (gives_mul a b).eq_ok_iff.2 fun side s => ?_
    rw [(gives_mul b a).exponent c h, Nat.add_comm]
  | error cause =>
    obtain ⟨symbol, hsymbol, hcause⟩ := mul_eq_error_iff.1 h
    refine mul_eq_error_iff.2 ⟨symbol, ?_, hcause⟩
    simp only [Nat.add_comm (a.exponent _ _)]
    exact hsymbol

/-- The powers of three factors multiplied from the left. -/
theorem gives_mul_mul (a b c : Factor) : Gives (a.mul b >>= fun product => product.mul c)
    fun side s => a.exponent side s + b.exponent side s + c.exponent side s := by
  refine (gives_mul a b).bind (fun product hproduct => ?_) fun hrange side s => ?_
  · refine (gives_mul product c).congr fun side s => ?_
    rw [(gives_mul a b).exponent product hproduct]
  · exact Nat.le_trans (Nat.le_add_right _ _) (hrange side s)

/-- Both ways of grouping give the same product, or both fail. -/
protected theorem mul_assoc (a b c d : Factor) :
    (a.mul b >>= fun product => product.mul c) = .ok d ↔
      (b.mul c >>= fun product => a.mul product) = .ok d := by
  have hright : Gives (b.mul c >>= fun product => a.mul product)
      fun side s => a.exponent side s + b.exponent side s + c.exponent side s := by
    simp only [Factor.mul_comm a]
    exact (gives_mul_mul b c a).congr fun side s => by omega
  rw [(gives_mul_mul a b c).eq_ok_iff, hright.eq_ok_iff]

/-- The factor multiplied by itself one by one, from the empty factor on. -/
def mulTimes (a : Factor) : Nat → Except UnitError Factor
  | 0 => .ok one
  | n + 1 => a.mulTimes n >>= fun product => product.mul a

/-- The powers of what is multiplied one by one are multiples. -/
theorem gives_mulTimes (a : Factor) (n : Nat) :
    Gives (a.mulTimes n) fun side s => n * a.exponent side s := by
  induction n with
  | zero => exact (Gives.ok one).congr fun side s => by rw [exponent_one, Nat.zero_mul]
  | succ n ih =>
    rw [mulTimes]
    refine ih.bind (fun product hproduct => ?_) fun hrange side s => ?_
    · refine (gives_mul product a).congr fun side s => ?_
      rw [ih.exponent product hproduct, Nat.succ_mul]
    -- A power that is out of range on the way is so at the end.
    · exact Nat.le_trans (Nat.mul_le_mul_right _ (Nat.le_succ n)) (hrange side s)

theorem pow_eq_ok_iff_mulTimes {n : Nat} : a.pow n = .ok b ↔ a.mulTimes n = .ok b := by
  rw [(gives_pow a n).eq_ok_iff, (gives_mulTimes a n).eq_ok_iff]

/-- **The exact algebra of factors.** A product is refused just if two powers of a symbol on one
    side add up to too much, and is the capped product otherwise. The failure names the first such
    symbol, those of the numerator before those of the denominator, and so does not depend on the
    order of the factors. Both ways of grouping three factors give the same or fail. A power, to
    any number of 32 bits and beyond, is what multiplying one by one gives, and fails where that
    fails. Sums and products of powers are decided on words of 32 bits, where what does not fit is
    refused. -/
theorem exact_algebra (a b c : Factor) :
    (((∃ product, a.mul b = .ok product) ↔
        ∀ side s, a.exponent side s + b.exponent side s ≤ maxExponent) ∧
      ∀ product, a.mul b = .ok product → product = a.mulCapped b) ∧
    (∀ cause, a.mul b = .error cause ↔ ∃ symbol,
      FirstOver (fun side s => a.exponent side s + b.exponent side s) symbol ∧
        cause = .exponentOverflow symbol) ∧
    a.mul b = b.mul a ∧
    (∀ d, (a.mul b >>= fun product => product.mul c) = .ok d ↔
      (b.mul c >>= fun product => a.mul product) = .ok d) ∧
    (∀ n power, a.pow n = .ok power ↔ a.mulTimes n = .ok power) ∧
    ∀ (p q : Exponent) (n : Nat),
      (p.add? q = (Exponent.word? (p.val + q.val)).bind fun word => Exponent.ofNat? word.toNat) ∧
        p.mul? n = (Exponent.word? (p.val * n)).bind fun word => Exponent.ofNat? word.toNat :=
  ⟨⟨(gives_mul a b).exists_iff, fun _ => eq_mulCapped_of_mul⟩, fun _ => mul_eq_error_iff,
    Factor.mul_comm a b, Factor.mul_assoc a b c, fun _ _ => pow_eq_ok_iff_mulTimes,
    fun _ _ _ => ⟨Exponent.ofNat?_eq_word _, Exponent.ofNat?_eq_word _⟩⟩

/-- A power at the cap: one more is refused in either order, and the symbol is named. -/
theorem exact_algebra_full :
    let full := power "m" ⟨maxExponent, by decide, by decide⟩
    one.mul full = .ok full ∧ full = one.mulCapped full ∧
      (ofSymbol "m").mul full = .error (.exponentOverflow "m") ∧
      full.mul (ofSymbol "m") = .error (.exponentOverflow "m") := by
  intro full
  obtain ⟨⟨-, hproduct⟩, -⟩ := exact_algebra one full one
  obtain ⟨-, hcause, hcomm, -⟩ := exact_algebra (ofSymbol "m") full one
  -- There is no other symbol whose power could be too large.
  have hfirst : FirstOver (fun side s => (ofSymbol "m").exponent side s + full.exponent side s)
      "m" := by
    refine .inl ⟨by decide, fun s hs => ?_⟩
    have hne : s ≠ "m" := fun heq => String.lt_irrefl _ (heq ▸ hs)
    simp [full, exponent_ofSymbol, exponent_power, hne]
  have hrefused := (hcause _).2 ⟨"m", hfirst, rfl⟩
  have hfull : one.mul full = .ok full := rfl
  exact ⟨hfull, hproduct full hfull, hrefused, hcomm ▸ hrefused⟩

end Factor

end UnitCheck
