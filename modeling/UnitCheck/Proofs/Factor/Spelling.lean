import Mathlib.Data.List.Sort
import Mathlib.Logic.Embedding.Basic
import UnitCheck.Proofs.Factor.Arithmetic

/-!
  Factors with their symbols spelled in another way.

  A factor keeps its symbols in alphabetical order. So when they are spelled in another way, its
  entries are put into another order (`Terms.entriesBy`), and this is the only thing about them
  that changes (`Terms.perm_entriesBy`).
-/

namespace UnitCheck

namespace Terms

variable (spelling : String → String)

/-- The entries in the alphabetical order of the new spelling. -/
def entriesBy (terms : Terms) : List (String × Exponent) :=
  terms.entries.insertionSort fun a b => spelling a.1 ≤ spelling b.1

theorem perm_entriesBy (terms : Terms) : (terms.entriesBy spelling).Perm terms.entries :=
  List.perm_insertionSort _ _

theorem mem_entriesBy_iff {terms : Terms} {e : String × Exponent} :
    e ∈ terms.entriesBy spelling ↔ e ∈ terms.entries := (terms.perm_entriesBy spelling).mem_iff

theorem pairwise_entriesBy (terms : Terms) :
    (terms.entriesBy spelling).Pairwise fun a b => spelling a.1 ≤ spelling b.1 := by
  have : Std.Total fun a b : String × Exponent => spelling a.1 ≤ spelling b.1 :=
    ⟨fun a b => String.le_total _ _⟩
  have : IsTrans (String × Exponent) fun a b => spelling a.1 ≤ spelling b.1 :=
    ⟨fun a b c => String.le_trans⟩
  exact List.pairwise_insertionSort _ _

/-- A spelling that keeps the order of symbols keeps that of the entries. -/
theorem entriesBy_of_le {terms : Terms} (h : ∀ symbol ∈ terms.symbols, ∀ other ∈ terms.symbols,
    symbol ≤ other → spelling symbol ≤ spelling other) :
    terms.entriesBy spelling = terms.entries := by
  refine List.Pairwise.insertionSort_eq (terms.sorted.imp_of_mem fun ha hb hlt => ?_)
  exact h _ (List.mem_map_of_mem ha) _ (List.mem_map_of_mem hb) (Std.le_of_lt hlt)

end Terms

section

variable (spelling : String ↪ String)

namespace Terms

/-- The entries in their new order are strictly sorted by their new symbols. -/
theorem sortedEntries_map_entriesBy (terms : Terms) :
    SortedEntries ((terms.entriesBy spelling).map fun e => (spelling e.1, e.2)) := by
  have hne : terms.entries.Pairwise fun a b => spelling a.1 ≠ spelling b.1 :=
    terms.sorted.imp fun hlt heq => (Std.ne_of_lt hlt) (spelling.injective heq)
  have hne' := ((terms.perm_entriesBy spelling).pairwise_iff fun h => h.symm).2 hne
  refine List.pairwise_map.2 ?_
  exact ((terms.pairwise_entriesBy spelling).and hne').imp fun h => Std.lt_of_le_of_ne h.1 h.2

/-- The side with its symbols spelled in another way. -/
def respell (terms : Terms) : Terms :=
  ⟨(terms.entriesBy spelling).map fun e => (spelling e.1, e.2),
    terms.sortedEntries_map_entriesBy spelling⟩

theorem entries_respell (terms : Terms) : (terms.respell spelling).entries =
    (terms.entriesBy spelling).map fun e => (spelling e.1, e.2) := rfl

theorem mem_symbols_respell_iff {terms : Terms} {symbol : String} :
    symbol ∈ (terms.respell spelling).symbols ↔ ∃ s ∈ terms.symbols, spelling s = symbol := by
  simp only [symbols, entries_respell, List.mem_map, mem_entriesBy_iff]
  constructor
  · rintro ⟨_, ⟨e, he, rfl⟩, rfl⟩
    exact ⟨e.1, ⟨e, he, rfl⟩, rfl⟩
  · rintro ⟨_, ⟨e, he, rfl⟩, rfl⟩
    exact ⟨_, ⟨e, he, rfl⟩, rfl⟩

end Terms

/-- The factor with its symbols spelled in another way. -/
def Factor.respell (factor : Factor) : Factor :=
  ⟨factor.numerator.respell spelling, factor.denominator.respell spelling⟩

theorem Factor.mem_symbols_respell_iff {factor : Factor} {symbol : String} :
    symbol ∈ (factor.respell spelling).symbols ↔ ∃ s ∈ factor.symbols, spelling s = symbol := by
  simp only [symbols, respell, List.mem_append, Terms.mem_symbols_respell_iff, or_and_right,
    exists_or]

end

end UnitCheck
