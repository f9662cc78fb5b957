import Mathlib.Data.List.Forall2
import UnitCheck.Registry.Basic

/-!
  Factors with their symbols replaced.

  Where every symbol of a factor stands for one other symbol, and no two for the same,
  substituting them never fails: nothing adds up, so every power stays in range
  (`exists_substitute_of_names`).
-/

namespace UnitCheck

/-! ## New symbols -/

/-- A new symbol adds its entry and leaves the others. -/
theorem perm_insertEntry {symbol : String} {power : Exponent} {entries : List (String × Exponent)}
    (h : ∀ e ∈ entries, e.1 ≠ symbol) :
    (insertEntry symbol power entries).Perm ((symbol, power) :: entries) := by
  induction entries with
  | nil => exact .refl _
  | cons head rest ih =>
    obtain ⟨s, q⟩ := head
    obtain ⟨hhead, hrest⟩ := List.forall_mem_cons.1 h
    rw [insertEntry]
    split
    · exact .refl _
    · rw [if_neg fun heq => hhead heq.symm]
      exact ((ih hrest).cons _).trans (.swap _ _ _)

namespace Terms

theorem power?_eq_none_iff {t : Terms} {symbol : String} :
    t.power? symbol = none ↔ symbol ∉ t.symbols := by
  rw [power?, List.lookup_eq_none_iff, symbols, List.mem_map]
  constructor
  · rintro h ⟨e, he, rfl⟩
    simpa using h e he
  · intro h e he
    rw [bne_iff_ne]
    rintro rfl
    exact h ⟨e, he, rfl⟩

theorem raise_of_notMem {t : Terms} {symbol : String} (h : symbol ∉ t.symbols)
    (power : Exponent) : t.raise symbol power = .ok (t.set symbol power) := by
  rw [raise_eq_ok_iff, add?, power?_eq_none_iff.2 h]

theorem perm_entries_set {t : Terms} {symbol : String} (h : symbol ∉ t.symbols)
    (power : Exponent) : (t.set symbol power).entries.Perm ((symbol, power) :: t.entries) := by
  apply perm_insertEntry
  rintro e he rfl
  exact h (List.mem_map_of_mem he)

theorem mem_symbols_set {t : Terms} {symbol s : String} {power : Exponent}
    (h : s ∈ (t.set symbol power).symbols) : s = symbol ∨ s ∈ t.symbols := by
  obtain ⟨e, he, rfl⟩ := List.mem_map.1 h
  rcases mem_insertEntry he with rfl | he
  · exact .inl rfl
  · exact .inr (List.mem_map_of_mem he)

theorem mul_single_of_notMem {t : Terms} {symbol : String} (h : symbol ∉ t.symbols)
    (power : Exponent) : t.mul (.single symbol power) = .ok (t.set symbol power) := by
  show [(symbol, power)].foldlM (fun t e => t.raise e.1 e.2) t = _
  rw [List.foldlM_cons, raise_of_notMem h]
  rfl

theorem notMem_symbols_empty (symbol : String) : symbol ∉ empty.symbols := List.not_mem_nil

end Terms

namespace Factor

/-- A factor times a symbol that is new in its numerator. -/
theorem mul_power_of_notMem {numerator denominator : Terms} {symbol : String}
    (h : symbol ∉ numerator.symbols) (power : Exponent) :
    (⟨numerator, denominator⟩ : Factor).mul (.power symbol power) =
      .ok ⟨numerator.set symbol power, denominator⟩ := by
  rw [mul]
  show (numerator.mul (.single symbol power) >>= fun t => denominator.mul .empty >>= fun u =>
    pure (⟨t, u⟩ : Factor)) = _
  rw [Terms.mul_single_of_notMem h]
  rfl

/-- A factor divided by a symbol that is new in its denominator. -/
theorem div_power_of_notMem {numerator denominator : Terms} {symbol : String}
    (h : symbol ∉ denominator.symbols) (power : Exponent) :
    (⟨numerator, denominator⟩ : Factor).div (.power symbol power) =
      .ok ⟨numerator, denominator.set symbol power⟩ := by
  rw [div, mul]
  show (numerator.mul .empty >>= fun t => denominator.mul (.single symbol power) >>= fun u =>
    pure (⟨t, u⟩ : Factor)) = _
  rw [Terms.mul_single_of_notMem h]
  rfl

end Factor

/-! ## Renamed factors -/

/-- The second side has the entries of the first, each with another symbol for its own. -/
def Terms.Renamed (Names : String → String → Prop) (terms renamed : Terms) : Prop :=
  ∃ entries, List.Forall₂ (fun e e' => Names e.1 e'.1 ∧ e.2 = e'.2) terms.entries entries ∧
    entries.Perm renamed.entries

/-- The second factor is the first with another symbol for each of its own, on the same side and
    with the same power. -/
structure Factor.Renamed (Names : String → String → Prop) (factor renamed : Factor) : Prop where
  numerator : factor.numerator.Renamed Names renamed.numerator
  denominator : factor.denominator.Renamed Names renamed.denominator

theorem Terms.Renamed.imp {Names Names' : String → String → Prop} {terms renamed : Terms}
    (h : terms.Renamed Names renamed)
    (himp : ∀ symbol name, Names symbol name → Names' symbol name) :
    terms.Renamed Names' renamed := by
  obtain ⟨entries, hentries, hperm⟩ := h
  exact ⟨entries, hentries.imp fun _ _ h => ⟨himp _ _ h.1, h.2⟩, hperm⟩

theorem Factor.Renamed.imp {Names Names' : String → String → Prop} {factor renamed : Factor}
    (h : factor.Renamed Names renamed)
    (himp : ∀ symbol name, Names symbol name → Names' symbol name) :
    factor.Renamed Names' renamed :=
  ⟨h.numerator.imp himp, h.denominator.imp himp⟩

/-- The names need only fit the symbols that occur. -/
theorem Terms.Renamed.imp_of_mem {Names Names' : String → String → Prop} {terms renamed : Terms}
    (h : terms.Renamed Names renamed)
    (himp : ∀ symbol ∈ terms.symbols, ∀ name, Names symbol name → Names' symbol name) :
    terms.Renamed Names' renamed := by
  obtain ⟨entries, hentries, hperm⟩ := h
  have hmem : ∀ e ∈ terms.entries, e.1 ∈ terms.symbols := fun e he => List.mem_map_of_mem he
  have hboth := (List.forall₂_and_left terms.entries entries).2 ⟨hmem, hentries⟩
  exact ⟨entries, hboth.imp fun e e' h => ⟨himp e.1 h.1 e'.1 h.2.1, h.2.2⟩, hperm⟩

theorem Factor.Renamed.imp_of_mem {Names Names' : String → String → Prop} {factor renamed : Factor}
    (h : factor.Renamed Names renamed)
    (himp : ∀ symbol ∈ factor.symbols, ∀ name, Names symbol name → Names' symbol name) :
    factor.Renamed Names' renamed :=
  ⟨h.numerator.imp_of_mem fun symbol hsymbol => himp symbol (List.mem_append_left _ hsymbol),
    h.denominator.imp_of_mem fun symbol hsymbol => himp symbol (List.mem_append_right _ hsymbol)⟩

theorem exists_mem_right_of_forall₂ {β γ : Type} {R : β → γ → Prop} {l : List β} {l' : List γ}
    (h : List.Forall₂ R l l') {x : β} (hx : x ∈ l) : ∃ y ∈ l', R x y := by
  induction h with
  | nil => cases hx
  | cons hhead _ ih =>
    rcases List.mem_cons.1 hx with rfl | hx
    · exact ⟨_, List.mem_cons_self, hhead⟩
    · obtain ⟨y, hy, hxy⟩ := ih hx
      exact ⟨y, List.mem_cons_of_mem _ hy, hxy⟩

/-- What is named in a renamed side was there before. -/
theorem Terms.Renamed.exists_of_mem {Names : String → String → Prop} {terms renamed : Terms}
    (h : terms.Renamed Names renamed) {name : String} {power : Exponent}
    (hmem : (name, power) ∈ renamed.entries) :
    ∃ symbol, (symbol, power) ∈ terms.entries ∧ Names symbol name := by
  obtain ⟨entries, hentries, hperm⟩ := h
  obtain ⟨⟨symbol, power'⟩, he, hnames, rfl⟩ :=
    exists_mem_right_of_forall₂ hentries.flip (hperm.mem_iff.2 hmem)
  exact ⟨symbol, he, hnames⟩

/-- A symbol and its name have the same power, if neither belongs to another one. -/
theorem Terms.Renamed.exponent_eq {Names : String → String → Prop} {terms renamed : Terms}
    (h : terms.Renamed Names renamed) {symbol name : String}
    (hname : ∀ name', Names symbol name' → name' = name)
    (hsymbol : ∀ symbol', Names symbol' name → symbol' = symbol) :
    renamed.exponent name = terms.exponent symbol := by
  -- The entries correspond, and neither the symbol nor its name stands in another one.
  have hentry : ∀ power, (name, power) ∈ renamed.entries ↔ (symbol, power) ∈ terms.entries := by
    intro power
    constructor
    · intro hmem
      obtain ⟨symbol', hmem', hnames⟩ := h.exists_of_mem hmem
      rwa [hsymbol symbol' hnames] at hmem'
    · intro hmem
      obtain ⟨entries, hentries, hperm⟩ := h
      obtain ⟨⟨name', power'⟩, he, hnames, rfl⟩ := exists_mem_right_of_forall₂ hentries hmem
      obtain rfl := hname name' hnames
      exact hperm.mem_iff.1 he
  have hpower : renamed.power? name = terms.power? symbol := by
    ext power
    exact renamed.sorted.mem_iff_lookup.symm.trans
      ((hentry power).trans terms.sorted.mem_iff_lookup)
  rw [exponent, exponent, hpower]

/-- Different symbols have different names. -/
theorem exists_named_of_sorted {Names : String → String → Prop}
    (hinjective : ∀ symbol other name, Names symbol name → Names other name → symbol = other)
    {entries : List (String × Exponent)} (h : SortedEntries entries)
    (hnames : ∀ e ∈ entries, ∃ name, Names e.1 name) :
    ∃ named, List.Forall₂ (fun e e' => Names e.1 e'.1 ∧ e.2 = e'.2) entries named ∧
      (named.map Prod.fst).Nodup ∧ ∀ e' ∈ named, ∃ e ∈ entries, Names e.1 e'.1 := by
  induction entries with
  | nil => exact ⟨[], .nil, List.nodup_nil, fun _ h => nomatch h⟩
  | cons e entries ih =>
    obtain ⟨hhead, hrest⟩ := List.pairwise_cons.1 h
    obtain ⟨⟨name, hname⟩, hnames⟩ := List.forall_mem_cons.1 hnames
    obtain ⟨named, hnamed, hnodup, hsource⟩ := ih hrest hnames
    refine ⟨(name, e.2) :: named, .cons ⟨hname, rfl⟩ hnamed, List.nodup_cons.2 ⟨?_, hnodup⟩,
      List.forall_mem_cons.2 ⟨⟨e, List.mem_cons_self, hname⟩, fun e' he' => ?_⟩⟩
    -- A later symbol of the same name would be the first one again.
    · intro hmem
      obtain ⟨e', he', heq⟩ := List.mem_map.1 hmem
      obtain ⟨other, hother, hnames'⟩ := hsource e' he'
      rw [heq] at hnames'
      have hsame := hinjective e.1 other.1 name hname hnames'
      have hlt := hhead other hother
      rw [hsame] at hlt
      exact String.lt_irrefl _ hlt
    · obtain ⟨other, hother, hnames'⟩ := hsource e' he'
      exact ⟨other, List.mem_cons_of_mem _ hother, hnames'⟩

/-- Entries with new symbols are added one by one. -/
theorem exists_foldlM_set {β : Type} (step : β → String × Exponent → Except UnitError β)
    (put : Terms → β) {entries named : List (String × Exponent)} {terms : Terms}
    (hstep : List.Forall₂ (fun e e' => ∀ t : Terms, e'.1 ∉ t.symbols →
      step (put t) e = .ok (put (t.set e'.1 e'.2))) entries named)
    (hnodup : (named.map Prod.fst).Nodup) (hnew : ∀ e ∈ named, e.1 ∉ terms.symbols) :
    ∃ result : Terms, entries.foldlM step (put terms) = .ok (put result) ∧
      (named ++ terms.entries).Perm result.entries := by
  induction hstep generalizing terms with
  | nil => exact ⟨terms, rfl, .refl _⟩
  | @cons e e' entries named hhead _ ih =>
    obtain ⟨hfresh, hnodup⟩ := List.nodup_cons.1 hnodup
    obtain ⟨hnewHead, hnewRest⟩ := List.forall_mem_cons.1 hnew
    -- The names are distinct, so the next ones are still new after this one.
    have hrest : ∀ a ∈ named, a.1 ∉ (terms.set e'.1 e'.2).symbols := by
      intro a ha hmem
      rcases Terms.mem_symbols_set hmem with heq | hmem
      · exact hfresh (heq ▸ List.mem_map_of_mem ha)
      · exact hnewRest a ha hmem
    obtain ⟨result, hresult, hperm⟩ := ih hnodup hrest
    refine ⟨result, ?_, ?_⟩
    · rw [List.foldlM_cons, hhead terms hnewHead]
      exact hresult
    · have hset := Terms.perm_entries_set hnewHead e'.2
      exact (List.perm_middle.symm.trans ((hset.symm).append_left named)).trans hperm

/-- A factor whose symbols have different names is substituted without failing. -/
theorem exists_substitute_of_names {Names : String → String → Prop}
    (hinjective : ∀ symbol other name, Names symbol name → Names other name → symbol = other)
    {term : String → Exponent → Except UnitError Factor}
    (hterm : ∀ symbol name power, Names symbol name → term symbol power = .ok (.power name power))
    {factor : Factor} (hnames : ∀ symbol ∈ factor.symbols, ∃ name, Names symbol name) :
    ∃ renamed, Registry.substitute term factor = .ok renamed ∧ factor.Renamed Names renamed := by
  obtain ⟨above, habove, hnodupAbove, -⟩ := exists_named_of_sorted hinjective
    factor.numerator.sorted fun e he =>
      hnames e.1 (List.mem_append_left _ (List.mem_map_of_mem he))
  obtain ⟨below, hbelow, hnodupBelow, -⟩ := exists_named_of_sorted hinjective
    factor.denominator.sorted fun e he =>
      hnames e.1 (List.mem_append_right _ (List.mem_map_of_mem he))
  -- Different symbols have different names, so no power is added to one that is there.
  obtain ⟨numerator, hnumerator, hpermAbove⟩ := exists_foldlM_set
    (fun result e => do result.mul (← term e.1 e.2)) (fun t => (⟨t, .empty⟩ : Factor))
    (habove.imp fun e e' h t ht => by
      rw [hterm e.1 e'.1 e.2 h.1, h.2]
      exact Factor.mul_power_of_notMem ht e'.2)
    hnodupAbove fun e _ => Terms.notMem_symbols_empty e.1
  obtain ⟨denominator, hdenominator, hpermBelow⟩ := exists_foldlM_set
    (fun result e => do result.div (← term e.1 e.2)) (fun t => (⟨numerator, t⟩ : Factor))
    (hbelow.imp fun e e' h t ht => by
      rw [hterm e.1 e'.1 e.2 h.1, h.2]
      exact Factor.div_power_of_notMem ht e'.2)
    hnodupBelow fun e _ => Terms.notMem_symbols_empty e.1
  refine ⟨⟨numerator, denominator⟩, ?_, ⟨above, habove, ?_⟩, ⟨below, hbelow, ?_⟩⟩
  · have hbind : Registry.substitute term factor =
        (factor.numerator.entries.foldlM
          (fun (result : Factor) e => do result.mul (← term e.1 e.2)) ⟨.empty, .empty⟩ >>=
        factor.denominator.entries.foldlM
          fun (result : Factor) e => do result.div (← term e.1 e.2)) := rfl
    rw [hbind, hnumerator]
    exact hdenominator
  · simpa [Terms.empty] using hpermAbove
  · simpa [Terms.empty] using hpermBelow

end UnitCheck
