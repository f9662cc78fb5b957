import UnitCheck.Factor.Checked
import UnitCheck.Proofs.Outcome

/-!
  The powers on a side of a factor after calculating with it.

  A side is told apart by its totals: its powers, each taken as often as its symbol weighs, added
  up (`Terms.total`). The power of one symbol is the total in which it alone weighs anything, and
  the totals of a product are sums (`Terms.total_of_mul`). A product is refused only where a sum
  of powers is out of range (`Terms.exists_mul`), and the same holds for multiples of all powers.
-/

namespace UnitCheck

/-! ## Totals of entries -/

/-- The powers of the entries, each taken as often as its symbol weighs, added up. -/
def totalOf (weight : String → Nat) : List (String × Exponent) → Nat
  | [] => 0
  | e :: entries => e.2.val * weight e.1 + totalOf weight entries

@[simp] theorem totalOf_nil (weight : String → Nat) : totalOf weight [] = 0 := rfl

@[simp] theorem totalOf_cons (weight : String → Nat) (e : String × Exponent)
    (entries : List (String × Exponent)) :
    totalOf weight (e :: entries) = e.2.val * weight e.1 + totalOf weight entries := rfl

theorem totalOf_congr {weight weight' : String → Nat} {entries : List (String × Exponent)}
    (h : ∀ e ∈ entries, weight e.1 = weight' e.1) :
    totalOf weight entries = totalOf weight' entries := by
  induction entries with
  | nil => rfl
  | cons e entries ih =>
    obtain ⟨hhead, hrest⟩ := List.forall_mem_cons.1 h
    rw [totalOf_cons, totalOf_cons, hhead, ih hrest]

theorem totalOf_eq_zero {weight : String → Nat} {entries : List (String × Exponent)}
    (h : ∀ e ∈ entries, weight e.1 = 0) : totalOf weight entries = 0 := by
  induction entries with
  | nil => rfl
  | cons e entries ih =>
    obtain ⟨hhead, hrest⟩ := List.forall_mem_cons.1 h
    rw [totalOf_cons, hhead, ih hrest, Nat.mul_zero]

/-- An entry that is put in takes the place of the one that its symbol had. -/
theorem SortedEntries.totalOf_insertEntry {entries : List (String × Exponent)}
    (h : SortedEntries entries) (weight : String → Nat) (symbol : String) (power : Exponent) :
    totalOf weight (UnitCheck.insertEntry symbol power entries) +
        ((entries.lookup symbol).map Exponent.val).getD 0 * weight symbol =
      totalOf weight entries + power.val * weight symbol := by
  -- Induction along the entries: in front of the first, in its place, or behind it.
  induction entries with
  | nil => simp [UnitCheck.insertEntry]
  | cons e rest ih =>
    obtain ⟨s, q⟩ := e
    have hinserted := h.insertEntry symbol power
    rw [UnitCheck.insertEntry] at hinserted ⊢
    split at hinserted
    · next hlt =>
      rw [if_pos hlt, hinserted.lookup_head_eq_none, totalOf_cons]
      simp only [Option.map_none, Option.getD_none]
      omega
    · next hnlt =>
      rw [if_neg hnlt]
      by_cases heq : symbol = s
      · subst heq
        rw [if_pos rfl, List.lookup_cons_self, totalOf_cons, totalOf_cons]
        simp only [Option.map_some, Option.getD_some]
        omega
      · have hmiss : (symbol == s) = false := by simpa using heq
        have hrest := ih (List.pairwise_cons.1 h).2
        rw [if_neg heq, List.lookup_cons, hmiss, totalOf_cons, totalOf_cons]
        dsimp only
        omega

/-- Where one symbol alone weighs anything, the total is its power. -/
theorem SortedEntries.totalOf_single {entries : List (String × Exponent)}
    (h : SortedEntries entries) (symbol : String) :
    totalOf (fun s => if s = symbol then 1 else 0) entries =
      ((entries.lookup symbol).map Exponent.val).getD 0 := by
  induction entries with
  | nil => rfl
  | cons e rest ih =>
    obtain ⟨s, q⟩ := e
    have hrest := ih (List.pairwise_cons.1 h).2
    rw [totalOf_cons, hrest]
    by_cases heq : s = symbol
    · subst heq
      rw [h.lookup_head_eq_none, List.lookup_cons_self]
      simp
    · have hmiss : (symbol == s) = false := beq_eq_false_iff_ne.2 (Ne.symm heq)
      simp [List.lookup_cons, hmiss, heq]

/-! ## The powers of a side -/

namespace Terms

variable {a b c t u : Terms}

/-- The powers of a side, each taken as often as its symbol weighs, added up. -/
def total (t : Terms) (weight : String → Nat) : Nat := totalOf weight t.entries

theorem total_congr {weight weight' : String → Nat} (h : ∀ s ∈ t.symbols, weight s = weight' s) :
    t.total weight = t.total weight' :=
  totalOf_congr fun e he => h e.1 (List.mem_map_of_mem he)

theorem total_eq_zero {weight : String → Nat} (h : ∀ s ∈ t.symbols, weight s = 0) :
    t.total weight = 0 :=
  totalOf_eq_zero fun e he => h e.1 (List.mem_map_of_mem he)

theorem exponent_eq_total (t : Terms) (symbol : String) :
    t.exponent symbol = t.total fun s => if s = symbol then 1 else 0 :=
  (t.sorted.totalOf_single symbol).symm

/-- The symbols of a side are those that have a power. -/
theorem mem_symbols_iff {symbol : String} : symbol ∈ t.symbols ↔ t.exponent symbol ≠ 0 := by
  constructor
  · intro h
    obtain ⟨e, he, rfl⟩ := List.mem_map.1 h
    have hpower : t.power? e.1 = some e.2 := t.sorted.mem_iff_lookup.1 he
    have hpos := e.2.pos
    simp only [exponent, hpower, Option.map_some, Option.getD_some]
    omega
  · intro h
    cases hpower : t.power? symbol with
    | none => exact absurd (by simp [exponent, hpower]) h
    | some power =>
      exact List.mem_map_of_mem (f := Prod.fst) (t.sorted.mem_iff_lookup.2 hpower)

theorem total_set (t : Terms) (symbol : String) (power : Exponent) (weight : String → Nat) :
    (t.set symbol power).total weight + t.exponent symbol * weight symbol =
      t.total weight + power.val * weight symbol :=
  t.sorted.totalOf_insertEntry weight symbol power

/-! ### Raising one power -/

theorem total_of_raise {symbol : String} {power : Exponent} (h : t.raise symbol power = .ok u)
    (weight : String → Nat) : u.total weight = t.total weight + power.val * weight symbol := by
  rw [raise_eq_ok_iff, add?] at h
  -- The symbol has a power, which is raised, or none, and then it gets one.
  split at h
  · next current hcurrent =>
    obtain ⟨sum, hsum, rfl⟩ := Option.map_eq_some_iff.1 h
    rw [Exponent.add?, Exponent.ofNat?_eq_some_iff] at hsum
    have hexponent : t.exponent symbol = current.val := by simp [exponent, hcurrent]
    have htotal := t.total_set symbol sum weight
    rw [hexponent, ← hsum, Nat.add_mul] at htotal
    omega
  · next hnone =>
    obtain rfl := Option.some.inj h
    have hexponent : t.exponent symbol = 0 := by simp [exponent, hnone]
    have htotal := t.total_set symbol power weight
    rw [hexponent] at htotal
    omega

theorem exists_raise {symbol : String} {power : Exponent}
    (h : t.exponent symbol + power.val ≤ maxExponent) : ∃ u, t.raise symbol power = .ok u := by
  cases hraise : t.raise symbol power with
  | ok u => exact ⟨u, rfl⟩
  | error cause =>
    have hover := (raise_eq_error_iff.1 hraise).1
    omega

/-! ### Products -/

theorem total_of_foldlM_raise {entries : List (String × Exponent)}
    (h : entries.foldlM (fun t e => t.raise e.1 e.2) t = .ok u) (weight : String → Nat) :
    u.total weight = t.total weight + totalOf weight entries := by
  induction entries generalizing t with
  | nil =>
    cases h
    rfl
  | cons e entries ih =>
    rw [List.foldlM_cons] at h
    obtain ⟨next, hnext, h⟩ := bind_eq_ok_iff.1 h
    rw [ih h, total_of_raise hnext, totalOf_cons, Nat.add_assoc]

/-- The totals of a product are sums. -/
theorem total_of_mul (h : a.mul b = .ok c) (weight : String → Nat) :
    c.total weight = a.total weight + b.total weight := total_of_foldlM_raise h weight

theorem exponent_of_mul (h : a.mul b = .ok c) (s : String) :
    c.exponent s = a.exponent s + b.exponent s := by
  rw [exponent_eq_total, exponent_eq_total, exponent_eq_total, total_of_mul h]

theorem exists_foldlM_raise {entries : List (String × Exponent)}
    (h : ∀ s, t.exponent s + totalOf (fun x => if x = s then 1 else 0) entries ≤ maxExponent) :
    ∃ u, entries.foldlM (fun t e => t.raise e.1 e.2) t = .ok u := by
  induction entries generalizing t with
  | nil => exact ⟨t, rfl⟩
  | cons e entries ih =>
    have hhead := h e.1
    rw [totalOf_cons, if_pos rfl, Nat.mul_one] at hhead
    obtain ⟨next, hnext⟩ : ∃ next, t.raise e.1 e.2 = .ok next := exists_raise (by omega)
    -- What was added to the first entry's symbol is missing from the entries that are left.
    have hrest : ∀ s, next.exponent s +
        totalOf (fun x => if x = s then 1 else 0) entries ≤ maxExponent := by
      intro s
      have hs := h s
      rw [totalOf_cons] at hs
      rw [exponent_eq_total, total_of_raise hnext, ← exponent_eq_total]
      omega
    rw [List.foldlM_cons, hnext]
    exact ih hrest

/-- A product is refused only where a sum of powers is out of range. -/
theorem exists_mul (h : ∀ s, a.exponent s + b.exponent s ≤ maxExponent) :
    ∃ c, a.mul b = .ok c := by
  refine exists_foldlM_raise fun s => ?_
  have hs := h s
  rw [b.exponent_eq_total] at hs
  exact hs

/-! ### Multiples of all powers -/

/-- The entry of a symbol with a multiple of its power. -/
def setMultiple (n : Nat) (t : Terms) (e : String × Exponent) : Except UnitError Terms :=
  match e.2.mul? n with
  | some power => .ok (t.set e.1 power)
  | none => .error (.exponentOverflow e.1)

theorem setMultiple_eq_ok_iff {n : Nat} {e : String × Exponent} : setMultiple n t e = .ok u ↔
    ∃ power : Exponent, e.2.val * n = power.val ∧ u = t.set e.1 power := by
  rw [setMultiple]
  cases hproduct : e.2.mul? n with
  | none =>
    rw [Exponent.mul?, Exponent.ofNat?_eq_none_iff] at hproduct
    constructor
    · intro h
      cases h
    · rintro ⟨power, hpower, -⟩
      -- A product that is a power would have been found.
      have hpos := power.pos
      have hle := power.le_max
      omega
  | some product =>
    rw [Exponent.mul?, Exponent.ofNat?_eq_some_iff] at hproduct
    constructor
    · intro h
      cases h
      exact ⟨product, hproduct, rfl⟩
    · rintro ⟨power, hpower, rfl⟩
      rw [Exponent.ext (hproduct.symm.trans hpower)]

/-- What is set is kept, since no symbol has a second entry. -/
theorem exponent_of_foldlM_setMultiple {n : Nat} {entries : List (String × Exponent)}
    (hsorted : SortedEntries entries) (h : entries.foldlM (setMultiple n) t = .ok u) (s : String) :
    u.exponent s = ((entries.lookup s).map fun power => power.val * n).getD (t.exponent s) := by
  induction entries generalizing t with
  | nil =>
    cases h
    rfl
  | cons e entries ih =>
    obtain ⟨symbol, power⟩ := e
    rw [List.foldlM_cons] at h
    obtain ⟨next, hnext, h⟩ := bind_eq_ok_iff.1 h
    obtain ⟨product, hproduct, rfl⟩ := setMultiple_eq_ok_iff.1 hnext
    rw [ih (List.pairwise_cons.1 hsorted).2 h]
    -- The entries behind do not set the symbol again.
    by_cases heq : s = symbol
    · subst heq
      rw [hsorted.lookup_head_eq_none, List.lookup_cons_self]
      simpa using hproduct.symm
    · have hmiss : (s == symbol) = false := beq_eq_false_iff_ne.2 heq
      rw [List.lookup_cons, hmiss, exponent_set, if_neg heq]

theorem exponent_of_scale {n : Nat} (h : t.scale n = .ok u) (s : String) :
    u.exponent s = t.exponent s * n := by
  rw [exponent_of_foldlM_setMultiple t.sorted h, exponent_empty]
  show _ = ((t.entries.lookup s).map Exponent.val).getD 0 * n
  cases t.entries.lookup s <;> simp

theorem exists_foldlM_setMultiple {n : Nat} (hn : 0 < n) {entries : List (String × Exponent)}
    (h : ∀ e ∈ entries, e.2.val * n ≤ maxExponent) :
    ∃ u, entries.foldlM (setMultiple n) t = .ok u := by
  induction entries generalizing t with
  | nil => exact ⟨t, rfl⟩
  | cons e entries ih =>
    obtain ⟨hhead, hrest⟩ := List.forall_mem_cons.1 h
    have hpos : 0 < e.2.val * n := Nat.mul_pos e.2.pos hn
    have hnext := setMultiple_eq_ok_iff (t := t).2 ⟨⟨e.2.val * n, hpos, hhead⟩, rfl, rfl⟩
    rw [List.foldlM_cons, hnext]
    exact ih hrest

/-- Multiplying all powers is refused only where one becomes too large. -/
theorem exists_scale {n : Nat} (hn : 0 < n) (h : ∀ s, t.exponent s * n ≤ maxExponent) :
    ∃ u, t.scale n = .ok u := by
  refine exists_foldlM_setMultiple hn fun e he => ?_
  have hpower : t.power? e.1 = some e.2 := t.sorted.mem_iff_lookup.1 he
  have hexponent : t.exponent e.1 = e.2.val := by simp [exponent, hpower]
  rw [← hexponent]
  exact h e.1

end Terms

end UnitCheck
