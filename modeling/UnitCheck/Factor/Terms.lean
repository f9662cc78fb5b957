/-
  One side of a factor: a product of symbols raised to positive powers.

  `Terms` keeps its entries strictly sorted by symbol (by code point), one entry a symbol,
  so two sides with the same powers are the same value (`Terms.ext_exponent`). Every
  operation is described through `Terms.exponent`, the power of a symbol, zero where the
  symbol does not occur.
-/

namespace UnitCheck

/-! ## Exponents -/

/-- The largest power a single symbol may carry. -/
def maxExponent : Nat := 2147483647

/-- A power between one and `maxExponent`. -/
structure Exponent where
  val : Nat
  pos : 0 < val
  le_max : val ≤ maxExponent
  deriving DecidableEq

namespace Exponent

theorem ext {p q : Exponent} (h : p.val = q.val) : p = q := by
  cases p; cases q; simp_all

/-- The power `n`, if it is in range. -/
def ofNat? (n : Nat) : Option Exponent :=
  if h : 0 < n ∧ n ≤ maxExponent then some ⟨n, h.1, h.2⟩ else none

/-- The power one. -/
def one : Exponent := ⟨1, by decide, by decide⟩

/-- The sum, if it is in range. -/
def add? (p q : Exponent) : Option Exponent := ofNat? (p.val + q.val)

/-- The sum, or the largest power where the sum is larger. -/
def addCapped (p q : Exponent) : Exponent where
  val := min (p.val + q.val) maxExponent
  pos := by have := p.pos; have := p.le_max; omega
  le_max := by omega

/-- The product with a positive number, if it is in range. -/
def mul? (p : Exponent) (n : Nat) : Option Exponent := ofNat? (p.val * n)

theorem ofNat?_eq_some_iff {n : Nat} {p : Exponent} : ofNat? n = some p ↔ n = p.val := by
  constructor
  · intro h
    unfold ofNat? at h
    split at h
    · injection h with h
      simp [← h]
    · simp at h
  · intro h
    subst h
    simp [ofNat?, p.pos, p.le_max]

theorem ofNat?_eq_none_iff {n : Nat} : ofNat? n = none ↔ n = 0 ∨ maxExponent < n := by
  unfold ofNat?
  split <;> simp <;> omega

theorem add?_eq_none_iff {p q : Exponent} : p.add? q = none ↔ maxExponent < p.val + q.val := by
  have := p.pos
  rw [add?, ofNat?_eq_none_iff]
  omega

@[simp] theorem val_addCapped (p q : Exponent) :
    (p.addCapped q).val = min (p.val + q.val) maxExponent := rfl

end Exponent

/-! ## Sorted entries -/

/-- Symbols in strictly ascending order. -/
def SortedEntries (entries : List (String × Exponent)) : Prop :=
  entries.Pairwise (fun a b => a.1 < b.1)

/-- Insertion in order; the power of a symbol that is already there is replaced. -/
def insertEntry (symbol : String) (power : Exponent) :
    List (String × Exponent) → List (String × Exponent)
  | [] => [(symbol, power)]
  | (head, q) :: rest =>
    if symbol < head then (symbol, power) :: (head, q) :: rest
    else if symbol = head then (symbol, power) :: rest
    else (head, q) :: insertEntry symbol power rest

theorem mem_insertEntry {symbol : String} {power : Exponent} {e : String × Exponent}
    {entries : List (String × Exponent)} (h : e ∈ insertEntry symbol power entries) :
    e = (symbol, power) ∨ e ∈ entries := by
  induction entries with
  | nil => simpa [insertEntry] using h
  | cons head rest ih =>
    obtain ⟨s, q⟩ := head
    rw [insertEntry] at h
    split at h
    · simpa using h
    · split at h
      · simp only [List.mem_cons] at h ⊢
        rcases h with h | h
        · exact .inl h
        · exact .inr (.inr h)
      · simp only [List.mem_cons] at h ⊢
        rcases h with h | h
        · exact .inr (.inl h)
        · rcases ih h with h | h
          · exact .inl h
          · exact .inr (.inr h)

theorem SortedEntries.insertEntry {entries : List (String × Exponent)}
    (h : SortedEntries entries) (symbol : String) (power : Exponent) :
    SortedEntries (insertEntry symbol power entries) := by
  induction entries with
  | nil => simp [UnitCheck.insertEntry, SortedEntries]
  | cons head rest ih =>
    obtain ⟨s, q⟩ := head
    have hrest : SortedEntries rest := (List.pairwise_cons.1 h).2
    have hhead := (List.pairwise_cons.1 h).1
    rw [UnitCheck.insertEntry]
    split
    · next hlt =>
      -- In front of all: what is before the head is before the rest.
      refine List.pairwise_cons.2 ⟨fun e he => ?_, h⟩
      rcases List.mem_cons.1 he with rfl | he
      · exact hlt
      · exact String.lt_trans hlt (hhead e he)
    · next hnlt =>
      split
      · next heq =>
        subst heq
        exact List.pairwise_cons.2 ⟨hhead, hrest⟩
      · next hne =>
        -- Behind the head: the rest gets no entry that belongs before it.
        refine List.pairwise_cons.2 ⟨fun e he => ?_, ih hrest⟩
        rcases mem_insertEntry he with rfl | he
        · exact Std.lt_of_le_of_ne (String.not_lt.1 hnlt) (fun heq => hne heq.symm)
        · exact hhead e he

theorem lookup_insertEntry (symbol : String) (power : Exponent)
    (entries : List (String × Exponent)) (s : String) :
    (insertEntry symbol power entries).lookup s =
      if s = symbol then some power else entries.lookup s := by
  have miss (h : ¬ s = symbol) : (s == symbol) = false := by simpa using h
  induction entries with
  | nil => by_cases h : s = symbol <;> simp [insertEntry, List.lookup_cons, h, miss]
  | cons head rest ih =>
    obtain ⟨t, q⟩ := head
    rw [insertEntry]
    split
    · by_cases h : s = symbol <;> simp [List.lookup_cons, h, miss]
    · split
      · next heq =>
        subst heq
        by_cases h : s = symbol <;> simp [List.lookup_cons, h, miss]
      · next hne =>
        by_cases h : s = t
        · subst h
          simp [Ne.symm hne]
        · have ht : (s == t) = false := by simpa using h
          simp only [List.lookup_cons, ht, ih]

/-- In sorted entries a symbol is found exactly where its entry stands. -/
theorem SortedEntries.mem_iff_lookup {entries : List (String × Exponent)}
    (h : SortedEntries entries) {s : String} {p : Exponent} :
    (s, p) ∈ entries ↔ entries.lookup s = some p := by
  induction entries with
  | nil => simp
  | cons head rest ih =>
    obtain ⟨t, q⟩ := head
    have hhead := (List.pairwise_cons.1 h).1
    by_cases hst : s = t
    · subst hst
      constructor
      · intro hm
        rcases List.mem_cons.1 hm with hm | hm
        · injection hm with _ hp
          simp [hp]
        -- No other entry has the symbol of the first.
        · exact absurd (hhead _ hm) (String.lt_irrefl s)
      · intro hl
        have hq : q = p := by simpa [List.lookup_cons] using hl
        simp [hq]
    · have ht : (s == t) = false := by simpa using hst
      simp only [List.mem_cons, Prod.mk.injEq, hst, false_and, false_or, List.lookup_cons, ht]
      exact ih (List.pairwise_cons.1 h).2

/-- Behind its entry a symbol is not found again. -/
theorem SortedEntries.lookup_head_eq_none {s : String} {p : Exponent}
    {rest : List (String × Exponent)} (h : SortedEntries ((s, p) :: rest)) :
    rest.lookup s = none := by
  obtain ⟨hhead, hrest⟩ := List.pairwise_cons.1 h
  cases hl : rest.lookup s with
  | none => rfl
  | some q =>
    exact absurd (hhead _ (SortedEntries.mem_iff_lookup hrest |>.2 hl)) (String.lt_irrefl s)

/-- Sorted entries with the same lookups are the same list. -/
theorem SortedEntries.eq_of_lookup_eq {a b : List (String × Exponent)}
    (ha : SortedEntries a) (hb : SortedEntries b) (h : ∀ s, a.lookup s = b.lookup s) : a = b := by
  induction a generalizing b with
  | nil =>
    cases b with
    | nil => rfl
    | cons e _ =>
      obtain ⟨t, q⟩ := e
      have := h t
      simp at this
  | cons e as ih =>
    obtain ⟨s, p⟩ := e
    cases b with
    | nil =>
      have := h s
      simp at this
    | cons f bs =>
      obtain ⟨t, q⟩ := f
      have hae := (List.pairwise_cons.1 ha).1
      have hbf := (List.pairwise_cons.1 hb).1
      -- Each first entry is in the other list too, and neither symbol is before the other.
      have hs : (s, p) ∈ (t, q) :: bs :=
        hb.mem_iff_lookup.2 ((h s).symm.trans (ha.mem_iff_lookup.1 List.mem_cons_self))
      have ht : (t, q) ∈ (s, p) :: as :=
        ha.mem_iff_lookup.2 ((h t).trans (hb.mem_iff_lookup.1 List.mem_cons_self))
      have heq : (s, p) = (t, q) := by
        rcases List.mem_cons.1 hs with hs | hs
        · exact hs
        · rcases List.mem_cons.1 ht with ht | ht
          · exact ht.symm
          · exact absurd (hbf _ hs) (String.lt_asymm (hae _ ht))
      injection heq with hst hpq
      subst hst hpq
      -- Behind the first entries its symbol is found in neither list.
      have hrest : ∀ u, as.lookup u = bs.lookup u := by
        intro u
        by_cases hu : u = s
        · subst hu
          rw [ha.lookup_head_eq_none, hb.lookup_head_eq_none]
        · have hus : (u == s) = false := by simpa using hu
          simpa [List.lookup_cons, hus] using h u
      rw [ih (List.pairwise_cons.1 ha).2 (List.pairwise_cons.1 hb).2 hrest]

/-! ## The side of a factor -/

/-- A product of symbols with positive powers. -/
structure Terms where
  entries : List (String × Exponent)
  sorted : SortedEntries entries
  deriving DecidableEq

namespace Terms

theorem ext_entries {a b : Terms} (h : a.entries = b.entries) : a = b := by
  cases a; cases b; simp_all

/-- The product of nothing. -/
def empty : Terms := ⟨[], List.Pairwise.nil⟩

/-- Whether no symbol occurs. -/
def isEmpty (t : Terms) : Bool := t.entries.isEmpty

/-- The symbols in ascending order. -/
def symbols (t : Terms) : List String := t.entries.map Prod.fst

/-- The power of a symbol that occurs. -/
def power? (t : Terms) (symbol : String) : Option Exponent := t.entries.lookup symbol

/-- The power of a symbol, zero where it does not occur. -/
def exponent (t : Terms) (symbol : String) : Nat := ((t.power? symbol).map Exponent.val).getD 0

/-- The side with the power of one symbol given anew. -/
def set (t : Terms) (symbol : String) (power : Exponent) : Terms :=
  ⟨insertEntry symbol power t.entries, t.sorted.insertEntry symbol power⟩

/-- One symbol alone. -/
def single (symbol : String) (power : Exponent) : Terms := empty.set symbol power

/-- The side with the power of a symbol raised, at most to `maxExponent`. -/
def addCapped (t : Terms) (symbol : String) (power : Exponent) : Terms :=
  match t.power? symbol with
  | some current => t.set symbol (current.addCapped power)
  | none => t.set symbol power

/-- The side with the power of a symbol raised, if the sum is in range. -/
def add? (t : Terms) (symbol : String) (power : Exponent) : Option Terms :=
  match t.power? symbol with
  | some current => (current.add? power).map (t.set symbol)
  | none => some (t.set symbol power)

/-- The product of two sides, each power at most `maxExponent`. -/
def mulCapped (a b : Terms) : Terms :=
  b.entries.foldl (fun t e => t.addCapped e.1 e.2) a

/-! ### Powers -/

@[simp] theorem power?_empty (s : String) : empty.power? s = none := rfl

@[simp] theorem exponent_empty (s : String) : empty.exponent s = 0 := rfl

@[simp] theorem power?_set (t : Terms) (symbol : String) (power : Exponent) (s : String) :
    (t.set symbol power).power? s = if s = symbol then some power else t.power? s :=
  lookup_insertEntry symbol power t.entries s

@[simp] theorem exponent_set (t : Terms) (symbol : String) (power : Exponent) (s : String) :
    (t.set symbol power).exponent s = if s = symbol then power.val else t.exponent s := by
  by_cases h : s = symbol <;> simp [exponent, h]

theorem exponent_addCapped (t : Terms) (symbol : String) (power : Exponent) (s : String) :
    (t.addCapped symbol power).exponent s =
      if s = symbol then min (t.exponent s + power.val) maxExponent else t.exponent s := by
  unfold addCapped
  have := power.le_max
  split
  · next current h =>
    by_cases hs : s = symbol
    · subst hs
      simp [exponent, h]
    · simp [hs]
  · next h =>
    by_cases hs : s = symbol
    · subst hs
      simp [exponent, h]
      omega
    · simp [hs]

theorem add?_eq_none_iff {t : Terms} {symbol : String} {power : Exponent} :
    t.add? symbol power = none ↔ maxExponent < t.exponent symbol + power.val := by
  have := power.le_max
  unfold add?
  split
  · next current hc => simp [exponent, hc, Exponent.add?_eq_none_iff]
  · next hc =>
    simp [exponent, hc]
    omega

theorem exponent_le_max (t : Terms) (s : String) : t.exponent s ≤ maxExponent := by
  unfold exponent
  cases t.power? s with
  | none => simp
  | some p => simpa using p.le_max

/-- A side is determined by the powers of its symbols. -/
theorem ext_exponent {a b : Terms} (h : ∀ s, a.exponent s = b.exponent s) : a = b := by
  apply ext_entries
  apply a.sorted.eq_of_lookup_eq b.sorted
  intro s
  have hs := h s
  unfold exponent power? at hs
  -- A symbol without a power counts as zero, and no power is zero.
  cases ha : a.entries.lookup s with
  | none =>
    cases hb : b.entries.lookup s with
    | none => rfl
    | some q =>
      have := q.pos
      simp only [ha, hb, Option.map_none, Option.map_some, Option.getD_none, Option.getD_some] at hs
      omega
  | some p =>
    cases hb : b.entries.lookup s with
    | none =>
      have := p.pos
      simp only [ha, hb, Option.map_none, Option.map_some, Option.getD_none, Option.getD_some] at hs
      omega
    | some q =>
      simp only [ha, hb, Option.map_some, Option.getD_some] at hs
      rw [Exponent.ext hs]

end Terms

end UnitCheck
