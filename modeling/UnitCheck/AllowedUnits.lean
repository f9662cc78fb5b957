/-
  A set of unit symbols that literals may have.
-/

namespace UnitCheck

/-- A set of unit symbols. -/
structure AllowedUnits where
  symbols : List String
  /-- Each symbol is held once. -/
  nodup : symbols.Nodup

namespace AllowedUnits

/-- No symbols. -/
def empty : AllowedUnits := ⟨[], List.nodup_nil⟩

/-- Whether a symbol is in the set. -/
def contains (allowed : AllowedUnits) (symbol : String) : Bool := allowed.symbols.contains symbol

/-- The set with a symbol more. -/
def insert (allowed : AllowedUnits) (symbol : String) : AllowedUnits :=
  if h : symbol ∈ allowed.symbols then allowed
  else ⟨symbol :: allowed.symbols, List.nodup_cons.2 ⟨h, allowed.nodup⟩⟩

/-- The set of the listed symbols. -/
def ofList (symbols : List String) : AllowedUnits := symbols.foldl insert empty

/-- The number of symbols. -/
def size (allowed : AllowedUnits) : Nat := allowed.symbols.length

/-- Whether there are no symbols. -/
def isEmpty (allowed : AllowedUnits) : Bool := allowed.symbols.isEmpty

/-- The metric units of length. -/
def metricLengths : AllowedUnits := ofList ["m", "cm", "mm", "km", "nm", "um", "pm", "fm"]

theorem contains_insert (allowed : AllowedUnits) (symbol s : String) :
    (allowed.insert symbol).contains s = (s == symbol || allowed.contains s) := by
  unfold insert
  split
  · next h =>
    by_cases hs : s = symbol
    · subst hs
      simp [contains, h]
    · simp [hs]
  · by_cases hs : s = symbol <;> simp [contains, hs]

end AllowedUnits

end UnitCheck
