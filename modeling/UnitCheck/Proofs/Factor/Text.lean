import UnitCheck.Proofs.Factor.Grammar

/-!
  The text of a factor reads back as the factor.

  What is written of a factor is of the grammar and lists its entries (`factorText_chars`),
  provided that its symbols can be read (`IsSymbol`). Each symbol occurs once on a side, so the
  factor that is built from the entries has its powers again (`Terms.raiseAll_entries`). As what is
  read has symbols that can be read only (`isSymbol_of_ofText`), texts of factors have a canonical
  form.
-/

namespace UnitCheck

/-- A side is the product of its entries. -/
theorem Terms.raiseAll_entries (t : Terms) : empty.raiseAll t.entries = .ok t := by
  have htotal : ∀ s, totalOf (fun x => if x = s then 1 else 0) t.entries = t.exponent s :=
    fun s => (t.exponent_eq_total s).symm
  obtain ⟨u, hu⟩ := exists_raiseAll_iff.2 fun s => htotal s ▸ t.exponent_le_max s
  have hsame : u = t := ext_exponent fun s => by
    rw [exponent_of_raiseAll hu, exponent_empty, Nat.zero_add, htotal]
  rw [hu, hsame]

/-- The symbols of a product are those that were multiplied into it. -/
theorem Terms.exists_mem_of_raiseAll {t : Terms} {entries : List (String × Exponent)}
    (h : empty.raiseAll entries = .ok t) {symbol : String} (hsymbol : symbol ∈ t.symbols) :
    ∃ e ∈ entries, e.1 = symbol := by
  by_contra hnone
  refine mem_symbols_iff.1 hsymbol ?_
  rw [exponent_of_raiseAll h, exponent_empty, Nat.zero_add]
  exact totalOf_eq_zero fun e he => if_neg fun heq => hnone ⟨e, he, heq⟩

namespace Factor

open Text (allBlank_nil)

/-! ## Writing -/

theorem termText_entryText {e : String × Exponent} (h : IsSymbol e.1) :
    TermText e (entryText e) := by
  obtain ⟨symbol, power⟩ := e
  rw [entryText]
  by_cases hone : power.val = 1
  · obtain rfl : power = .one := Exponent.ext hone
    rw [if_pos hone, List.append_nil]
    exact .bare h
  · rw [if_neg hone]
    exact .power h (Number.isDigits_toDigits _) Nat.ofDigitChars_ten_toDigits

theorem productText_intercalate {entries : List (String × Exponent)} (hne : entries ≠ [])
    (h : ∀ e ∈ entries, IsSymbol e.1) :
    ProductText entries (['*'].intercalate (entries.map entryText)) := by
  induction entries with
  | nil => exact absurd rfl hne
  | cons e entries ih =>
    obtain ⟨hhead, hrest⟩ := List.forall_mem_cons.1 h
    have hterm := termText_entryText hhead
    cases entries with
    | nil =>
      rw [List.map_singleton, List.intercalate_singleton]
      exact .term hterm
    | cons f entries =>
      have hmore := ih (List.cons_ne_nil f entries) hrest
      rw [List.map_cons, List.map_cons, List.intercalate_cons_cons, List.append_assoc]
      exact .more hterm allBlank_nil (.inl rfl) allBlank_nil hmore

/-- What is written of a side with symbols is a product of its entries. -/
theorem productText_sideText {t : Terms} (hne : t.isEmpty = false)
    (h : ∀ symbol ∈ t.symbols, IsSymbol symbol) : ProductText t.entries (sideText t) :=
  productText_intercalate (by simpa [Terms.isEmpty] using hne)
    fun e he => h e.1 (List.mem_map_of_mem he)

/-- What is written of a factor lists its entries. -/
theorem factorText_chars {a : Factor} (h : ∀ symbol ∈ a.symbols, IsSymbol symbol) :
    FactorText a.numerator.entries a.denominator.entries a.chars := by
  -- A one is written for a side above without entries, and nothing for one below.
  have hnumerator : NumeratorText a.numerator.entries
      (if a.numerator.isEmpty then ['1'] else sideText a.numerator) := by
    cases hempty : a.numerator.isEmpty with
    | true =>
      rw [List.isEmpty_iff.1 hempty]
      exact .one
    | false =>
      exact .product (productText_sideText hempty fun s hs => h s (List.mem_append_left _ hs))
  have hdenominator : DenominatorText a.denominator.entries
      (if a.denominator.isEmpty then [] else '/' :: sideText a.denominator) := by
    cases hempty : a.denominator.isEmpty with
    | true =>
      rw [List.isEmpty_iff.1 hempty]
      exact .none
    | false =>
      exact .bar allBlank_nil allBlank_nil
        (productText_sideText hempty fun s hs => h s (List.mem_append_right _ hs))
  have htext := FactorText.intro allBlank_nil hnumerator hdenominator allBlank_nil
  rwa [List.nil_append, List.append_nil] at htext

/-- **What is written of a factor is read as the factor**, if its symbols can be read. -/
theorem ofText_text {a : Factor} (h : ∀ symbol ∈ a.symbols, IsSymbol symbol) :
    ofText a.text = .ok a := by
  have htext := factorText_chars h
  rw [← String.toList_ofList (l := a.chars)] at htext
  rw [text, ofText_of_factorText htext, ofPowers, Terms.ofPowers_listed, Terms.ofPowers_listed,
    Terms.raiseAll_entries, Terms.raiseAll_entries]
  rfl

/-! ## Reading -/

theorem TermText.isSymbol {e : String × Exponent} {cs : List Char} (h : TermText e cs) :
    IsSymbol e.1 := by
  cases h with
  | bare h => exact h
  | power h => exact h

theorem ProductText.isSymbol {entries : List (String × Exponent)} {cs : List Char}
    (h : ProductText entries cs) : ∀ e ∈ entries, IsSymbol e.1 := by
  induction h with
  | term hterm => simpa using hterm.isSymbol
  | more hterm _ _ _ _ ih => exact List.forall_mem_cons.2 ⟨hterm.isSymbol, ih⟩

/-- A text of the grammar lists symbols that can be read. -/
theorem FactorText.isSymbol {numerator denominator : List (String × Exponent)} {cs : List Char}
    (h : FactorText numerator denominator cs) : ∀ e ∈ numerator ++ denominator, IsSymbol e.1 := by
  obtain ⟨-, hnumerator, hdenominator, -⟩ := h
  intro e he
  rcases List.mem_append.1 he with he | he
  · cases hnumerator with
    | one => cases he
    | product hproduct => exact hproduct.isSymbol e he
  · cases hdenominator with
    | none => cases he
    | bar _ _ hproduct => exact hproduct.isSymbol e he

/-- What is read as a factor has symbols that can be read. -/
theorem isSymbol_of_ofText {text : String} {a : Factor} (h : ofText text = .ok a) :
    ∀ symbol ∈ a.symbols, IsSymbol symbol := by
  obtain ⟨numerator, denominator, htext, habove, hbelow⟩ := exists_factorText h
  have hsymbols := htext.isSymbol
  intro symbol hs
  rcases List.mem_append.1 hs with hs | hs
  · obtain ⟨e, he, rfl⟩ := Terms.exists_mem_of_raiseAll habove hs
    exact hsymbols e (List.mem_append_left _ he)
  · obtain ⟨e, he, rfl⟩ := Terms.exists_mem_of_raiseAll hbelow hs
    exact hsymbols e (List.mem_append_right _ he)

/-! ## The canonical form -/

/-- **Texts of factors have a canonical form.** A factor whose symbols can be read is read from what
    is written of it, and every factor that is read is such a factor. So two texts denote the same
    factor just if the same is written of the factors that they denote. -/
theorem text_canonical :
    (∀ a : Factor, (∀ symbol ∈ a.symbols, IsSymbol symbol) → ofText a.text = .ok a) ∧
    (∀ (text : String) (a : Factor), ofText text = .ok a →
      (∀ symbol ∈ a.symbols, IsSymbol symbol) ∧
      (∀ side, ∀ symbol ∈ (a.side side).symbols,
        1 ≤ a.exponent side symbol ∧ a.exponent side symbol ≤ maxExponent) ∧
      ofText a.text = .ok a) ∧
    ∀ (text text' : String) (a a' : Factor), ofText text = .ok a → ofText text' = .ok a' →
      (a = a' ↔ a.text = a'.text) := by
  refine ⟨fun a h => ofText_text h, fun text a h => ?_, fun text text' a a' h h' => ?_⟩
  · have hsymbols := isSymbol_of_ofText h
    exact ⟨hsymbols, fun side symbol hs => exponent_range hs, ofText_text hsymbols⟩
  · constructor
    · intro hsame
      rw [hsame]
    -- What is written is read again, as the one factor and as the other.
    · intro hsame
      have hread := ofText_text (isSymbol_of_ofText h)
      rw [hsame, ofText_text (isSymbol_of_ofText h')] at hread
      exact (Except.ok.inj hread).symm

/-- Two texts of a factor, and the form of it that is written. -/
theorem text_canonical_respelled :
    let a : Factor := ⟨(Terms.single "kg" .one).set "s" ⟨2, by decide, by decide⟩, .single "m" .one⟩
    ofText " s . kg*s/m" = .ok a ∧ ofText "kg * s^02 / m" = .ok a ∧ a.text = "kg*s^2/m" ∧
      (∀ symbol ∈ a.symbols, IsSymbol symbol) ∧ ofText a.text = .ok a ∧
      "s" ∈ (a.side .above).symbols ∧ 1 ≤ a.exponent .above "s" ∧
      ofText "1" = .ok one ∧ (a = one ↔ a.text = one.text) := by
  intro a
  have hread : ofText " s . kg*s/m" = .ok a := by cbv
  have hread' : ofText "kg * s^02 / m" = .ok a := by cbv
  obtain ⟨hwritten, hcanonical, hsame⟩ := text_canonical
  obtain ⟨hsymbols, hrange, -⟩ := hcanonical _ a hread
  have hmem : "s" ∈ (a.side .above).symbols := by decide
  have hone : ofText "1" = .ok one := by cbv
  exact ⟨hread, hread', by decide, hsymbols, hwritten a hsymbols, hmem,
    (hrange .above "s" hmem).1, hone, hsame _ _ a one hread hone⟩

end Factor

end UnitCheck
