import Mathlib
import UnitCheck.Factor.Reader
import UnitCheck.Proofs.Blanks
import UnitCheck.Proofs.Factor.Arithmetic
import UnitCheck.Proofs.Number.Notation

/-!
  The texts that are factors.

  `FactorText` is the grammar of factors: it tells which entries a text lists above and below its
  bar. Reading a text of the grammar takes the listed powers one after the other, as building a
  factor from them does, so both have the same outcome, down to the symbol whose powers become too
  large (`ofText_of_factorText`). What is read is of the grammar (`exists_factorText`), hence the
  texts that are read are those of the grammar with powers in range. On its way the reader passes
  whole characters only, so all its positions are boundaries of characters (`isValid_place`).
-/

namespace UnitCheck

open Text (AllBlank allBlank_nil exists_blanks isBlank skipBlanks skipBlanks_append
  skipBlanks_isSuffix skipBlanks_of_allBlank skipBlanks_of_not_isBlank skipBlanks_skipBlanks)
open Number (IsDigits NoDigit forall_digit)

namespace Factor

/-! ## Grammar -/

/-- A text that a reader of factors takes for a symbol: characters of symbols, at least one, the
    first of which is no digit. -/
structure IsSymbol (symbol : String) : Prop where
  start : ∃ c cs, symbol.toList = c :: cs ∧ c.isDigit = false
  chars : ∀ c ∈ symbol.toList, isSymbolChar c = true

/-- A symbol alone, or one with a caret and the digits of its power. -/
inductive TermText : String × Exponent → List Char → Prop where
  | bare {symbol : String} (h : IsSymbol symbol) : TermText (symbol, .one) symbol.toList
  | power {symbol : String} {digits : List Char} {p : Exponent} (h : IsSymbol symbol)
      (hdigits : IsDigits digits) (hp : Nat.ofDigitChars 10 digits 0 = p.val) :
      TermText (symbol, p) (symbol.toList ++ '^' :: digits)

/-- Terms with stars or points between them, which blanks may surround. -/
inductive ProductText : List (String × Exponent) → List Char → Prop where
  | term {e : String × Exponent} {cs : List Char} (h : TermText e cs) : ProductText [e] cs
  | more {e : String × Exponent} {entries : List (String × Exponent)}
      {cs blanks blanks' ds : List Char} {separator : Char} (h : TermText e cs)
      (hblanks : AllBlank blanks) (hseparator : separator = '*' ∨ separator = '.')
      (hblanks' : AllBlank blanks') (hrest : ProductText entries ds) :
      ProductText (e :: entries) (cs ++ (blanks ++ separator :: (blanks' ++ ds)))

/-- A one, which lists nothing, or a product. -/
inductive NumeratorText : List (String × Exponent) → List Char → Prop where
  | one : NumeratorText [] ['1']
  | product {entries : List (String × Exponent)} {cs : List Char} (h : ProductText entries cs) :
      NumeratorText entries cs

/-- Nothing, or a bar with a product, with blanks around the bar. -/
inductive DenominatorText : List (String × Exponent) → List Char → Prop where
  | none : DenominatorText [] []
  | bar {entries : List (String × Exponent)} {blanks blanks' cs : List Char}
      (hblanks : AllBlank blanks) (hblanks' : AllBlank blanks') (h : ProductText entries cs) :
      DenominatorText entries (blanks ++ '/' :: (blanks' ++ cs))

/-- The text of a factor, with blanks around it, and the entries that it lists above and below the
    bar. -/
inductive FactorText : List (String × Exponent) → List (String × Exponent) → List Char → Prop where
  | intro {numerator denominator : List (String × Exponent)} {blanks cs ds blanks' : List Char}
      (hblanks : AllBlank blanks) (hnumerator : NumeratorText numerator cs)
      (hdenominator : DenominatorText denominator ds) (hblanks' : AllBlank blanks') :
      FactorText numerator denominator (blanks ++ (cs ++ (ds ++ blanks')))

/-! ## Listed powers -/

/-- Entries as they are listed to build a factor. -/
def listed (entries : List (String × Exponent)) : List (String × Int) :=
  entries.map fun e => (e.1, (e.2.val : Int))

/-- The powers that are listed for a symbol add up to one that is in range, for every symbol. -/
def Fits (entries : List (String × Exponent)) : Prop :=
  ∀ symbol, totalOf (fun s => if s = symbol then 1 else 0) entries ≤ maxExponent

end Factor

namespace Terms

open Factor (listed Fits)

/-- The side with the entries multiplied into it, one after the other. -/
def raiseAll (t : Terms) (entries : List (String × Exponent)) : Except UnitError Terms :=
  entries.foldlM (fun t e => t.raise e.1 e.2) t

theorem raiseAll_cons (t : Terms) (e : String × Exponent) (entries : List (String × Exponent)) :
    t.raiseAll (e :: entries) = t.raise e.1 e.2 >>= fun next => next.raiseAll entries :=
  List.foldlM_cons

theorem ofPowers_listed (entries : List (String × Exponent)) :
    ofPowers (listed entries) = empty.raiseAll entries := by
  rw [ofPowers, listed, List.foldlM_map, raiseAll]
  congr 1
  funext t e
  have hpos : ¬ (e.2.val : Int) ≤ 0 := by
    have := e.2.pos
    omega
  have hpower : Exponent.ofNat? (e.2.val : Int).toNat = some e.2 := by
    rw [Int.toNat_natCast, Exponent.ofNat?_eq_some_iff]
  dsimp only
  rw [if_neg hpos, hpower]

/-- The powers of a product are the sums of those that were multiplied into it. -/
theorem exponent_of_raiseAll {t u : Terms} {entries : List (String × Exponent)}
    (h : t.raiseAll entries = .ok u) (symbol : String) : u.exponent symbol =
      t.exponent symbol + totalOf (fun s => if s = symbol then 1 else 0) entries := by
  rw [exponent_eq_total, exponent_eq_total, total_of_foldlM_raise h]

theorem exists_raiseAll_iff {entries : List (String × Exponent)} :
    (∃ t, empty.raiseAll entries = .ok t) ↔ Fits entries := by
  constructor
  · rintro ⟨t, ht⟩ symbol
    have hexponent := exponent_of_raiseAll ht symbol
    rw [exponent_empty, Nat.zero_add] at hexponent
    rw [← hexponent]
    exact t.exponent_le_max symbol
  · intro h
    refine exists_foldlM_raise fun symbol => ?_
    rw [exponent_empty, Nat.zero_add]
    exact h symbol

/-- Multiplying entries fails only because the powers of a symbol become too large. -/
theorem cause_of_raiseAll {t : Terms} {entries : List (String × Exponent)} {cause : UnitError}
    (h : t.raiseAll entries = .error cause) : ∃ symbol, cause = .exponentOverflow symbol := by
  obtain ⟨e, -, u, hraise⟩ := exists_of_foldlM_eq_error h
  exact ⟨e.1, (raise_eq_error_iff.1 hraise).2⟩

end Terms

namespace Factor

variable {e : String × Exponent} {entries : List (String × Exponent)}
  {cs blanks rest whole : List Char}

/-! ## Reading a term -/

theorem not_isBlank_of_digit {c : Char} (h : c.isDigit = true) : isBlank c = false :=
  forall_digit (P := fun c => isBlank c = false) (by decide +kernel) h

/-- What may stand after a term: nothing, a blank, a separator or a bar. -/
def EndsTerm (rest : List Char) : Prop :=
  ∀ c ∈ rest.head?, isBlank c = true ∨ c = '*' ∨ c = '.' ∨ c = '/'

namespace EndsTerm

theorem not_isSymbolChar (h : EndsTerm rest) : ∀ c ∈ rest.head?, isSymbolChar c = false := by
  intro c hc
  rcases h c hc with hblank | rfl | rfl | rfl
  · simp [isSymbolChar, hblank]
  all_goals decide

theorem noDigit (h : EndsTerm rest) : NoDigit rest := by
  intro c hc
  rcases h c hc with hblank | rfl | rfl | rfl
  · by_contra hdigit
    rw [not_isBlank_of_digit (Bool.not_eq_false _ ▸ hdigit)] at hblank
    cases hblank
  all_goals rfl

theorem readPower (h : EndsTerm rest) : readPower rest = .ok (.one, rest) := by
  unfold Factor.readPower
  split
  -- A caret is no end of a term.
  · rcases h '^' rfl with h | h | h | h
    · exact absurd h (by decide)
    all_goals cases h
  · rfl

end EndsTerm

/-- A run of characters of a kind, in front of a text that goes on with none of them. -/
theorem span_append {p : Char → Bool} {run rest : List Char} (hrun : ∀ c ∈ run, p c = true)
    (hrest : ∀ c ∈ rest.head?, p c = false) :
    (run ++ rest).takeWhile p = run ∧ (run ++ rest).dropWhile p = rest := by
  rw [List.takeWhile_append_of_pos hrun, List.dropWhile_append_of_pos hrun]
  cases rest with
  | nil => simp
  | cons c cs =>
    have hc := hrest c rfl
    simp [hc]

theorem not_isBlank_of_isSymbolChar {c : Char} (h : isSymbolChar c = true) : isBlank c = false := by
  simp only [isSymbolChar, Bool.and_eq_true, Bool.not_eq_true'] at h
  exact h.1.1.1.1.1.1

/-- A symbol is read up to its end, and then its power. -/
theorem readTerm_symbol {symbol : String} (h : IsSymbol symbol)
    (hrest : ∀ c ∈ rest.head?, isSymbolChar c = false) :
    readTerm (symbol.toList ++ rest) =
      readPower rest >>= fun (power, after) => pure ((symbol, power), after) := by
  obtain ⟨⟨c, cs, hsymbol, hc⟩, hchars⟩ := h
  obtain ⟨htake, hdrop⟩ := span_append hchars hrest
  rw [readTerm, htake, hdrop, hsymbol]
  dsimp only
  rw [hc, if_neg (by decide), ← hsymbol, String.ofList_toList]

theorem readPower_digits {digits : List Char} {p : Exponent} (hdigits : IsDigits digits)
    (hp : Nat.ofDigitChars 10 digits 0 = p.val) (hrest : NoDigit rest) :
    readPower ('^' :: (digits ++ rest)) = .ok (p, rest) := by
  obtain ⟨htake, hdrop⟩ := span_append hdigits.2 hrest
  have hne : digits.isEmpty = false := by simp [hdigits.1]
  rw [readPower, htake, hdrop, hne, if_neg (by decide), hp,
    if_neg (Nat.pos_iff_ne_zero.1 p.pos), Exponent.ofNat?_eq_some_iff.2 rfl]

/-- A term is found in front of what may stand after it. -/
theorem readTerm_of_termText (h : TermText e cs) (hrest : EndsTerm rest) :
    readTerm (cs ++ rest) = .ok (e, rest) := by
  cases h with
  | bare hsymbol => rw [readTerm_symbol hsymbol hrest.not_isSymbolChar, hrest.readPower]; rfl
  | @power _ digits _ hsymbol hdigits hp =>
    have hcaret : ∀ d ∈ ('^' :: (digits ++ rest)).head?, isSymbolChar d = false := by
      intro d hd
      obtain rfl := Option.some.inj hd
      decide
    rw [List.append_assoc, List.cons_append, readTerm_symbol hsymbol hcaret,
      readPower_digits hdigits hp hrest.noDigit]
    rfl

theorem TermText.exists_cons (h : TermText e cs) :
    ∃ c ds, cs = c :: ds ∧ c.isDigit = false ∧ isBlank c = false := by
  have hhead : ∀ (ds : List Char) {symbol : String}, IsSymbol symbol →
      ∃ c cs, symbol.toList ++ ds = c :: cs ∧ c.isDigit = false ∧ isBlank c = false := by
    rintro ds symbol ⟨⟨c, cs, hsymbol, hc⟩, hchars⟩
    have hblank := not_isBlank_of_isSymbolChar (hchars c (hsymbol ▸ List.mem_cons_self))
    exact ⟨c, cs ++ ds, by rw [hsymbol, List.cons_append], hc, hblank⟩
  cases h with
  | bare hsymbol => simpa using hhead [] hsymbol
  | power hsymbol _ _ => exact hhead _ hsymbol

/-- A power takes nothing, or a caret with digits. -/
theorem exists_digits {p : Exponent} (h : readPower cs = .ok (p, rest)) :
    (p = .one ∧ cs = rest) ∨ ∃ digits, cs = '^' :: (digits ++ rest) ∧ IsDigits digits ∧
      Nat.ofDigitChars 10 digits 0 = p.val := by
  unfold readPower at h
  split at h
  · next ds =>
    dsimp only at h
    split at h
    · cases h
    · next hne =>
      split at h
      · cases h
      · split at h
        · next power hpower =>
          cases h
          refine .inr ⟨ds.takeWhile Char.isDigit, ?_, ⟨by simpa using hne, ?_⟩,
            Exponent.ofNat?_eq_some_iff.1 hpower⟩
          · rw [List.takeWhile_append_dropWhile]
          · exact List.all_eq_true.1 List.all_takeWhile
        · cases h
  · cases h
    exact .inl ⟨rfl, rfl⟩

/-- What a term is read from is a term. -/
theorem exists_termText (h : readTerm cs = .ok (e, rest)) :
    ∃ run, cs = run ++ rest ∧ TermText e run := by
  unfold readTerm at h
  split at h
  · cases h
  · next c symbol htake =>
    split at h
    · cases h
    · next hc =>
      obtain ⟨⟨power, after⟩, hpower, hok⟩ := bind_eq_ok_iff.1 h
      cases hok
      -- The longest run of characters of symbols is taken, so it is a symbol as a whole.
      have hsplit : (c :: symbol) ++ cs.dropWhile isSymbolChar = cs := by
        rw [← htake]
        exact List.takeWhile_append_dropWhile
      have hsymbol : IsSymbol (String.ofList (c :: symbol)) := by
        refine ⟨⟨c, symbol, String.toList_ofList, by simpa using hc⟩, ?_⟩
        rw [String.toList_ofList, ← htake]
        exact List.all_eq_true.1 List.all_takeWhile
      have hbare := TermText.bare hsymbol
      rw [String.toList_ofList] at hbare
      rcases exists_digits hpower with ⟨rfl, hrest⟩ | ⟨digits, hrest, hdigits, hp⟩
      · exact ⟨c :: symbol, by rw [← hrest, hsplit], hbare⟩
      · have hterm := TermText.power hsymbol hdigits hp
        rw [String.toList_ofList] at hterm
        refine ⟨_, ?_, hterm⟩
        rw [hrest] at hsplit
        rw [List.append_assoc]
        exact hsplit.symm

/-! ## Reading a product -/

/-- What may stand after a product: nothing or a bar, maybe after blanks. -/
structure EndsProduct (rest : List Char) : Prop where
  ends : EndsTerm rest
  no_separator : ∀ c ∈ (skipBlanks rest).head?, ¬(c = '*' ∨ c = '.')

theorem endsProduct_of_allBlank (h : AllBlank rest) : EndsProduct rest := by
  refine ⟨fun c hc => .inl (h c (List.mem_of_mem_head? hc)), ?_⟩
  rw [skipBlanks_of_allBlank h]
  intro c hc
  cases hc

/-- What may end a term may do so behind blanks. -/
theorem endsTerm_append (h : AllBlank blanks) {c : Char} (hc : c = '*' ∨ c = '.' ∨ c = '/')
    (cs : List Char) : EndsTerm (blanks ++ c :: cs) := by
  intro d hd
  cases blanks with
  | nil =>
    obtain rfl := Option.some.inj hd
    exact .inr hc
  | cons b blanks =>
    obtain rfl := Option.some.inj hd
    exact .inl (h b List.mem_cons_self)

theorem endsProduct_bar (h : AllBlank blanks) (cs : List Char) :
    EndsProduct (blanks ++ '/' :: cs) := by
  refine ⟨endsTerm_append h (.inr (.inr rfl)) cs, ?_⟩
  rw [skipBlanks_append h, skipBlanks_of_not_isBlank (by decide)]
  intro c hc
  obtain rfl := Option.some.inj hc
  decide

theorem ProductText.exists_cons (h : ProductText entries cs) :
    ∃ c ds, cs = c :: ds ∧ c.isDigit = false ∧ isBlank c = false := by
  cases h with
  | term hterm => exact hterm.exists_cons
  | more hterm =>
    obtain ⟨c, ds, rfl, hc⟩ := hterm.exists_cons
    exact ⟨c, _, rfl, hc⟩

/-- A product starts right after the blanks in front of it. -/
theorem skipBlanks_productText (hblanks : AllBlank blanks) (h : ProductText entries cs)
    (rest : List Char) : skipBlanks (blanks ++ (cs ++ rest)) = cs ++ rest := by
  obtain ⟨c, ds, rfl, -, hc⟩ := h.exists_cons
  rw [skipBlanks_append hblanks, List.cons_append, skipBlanks_of_not_isBlank hc]

/-- A term is found behind blanks. -/
theorem readTerm_of_allBlank (hblanks : AllBlank blanks) (h : TermText e cs)
    (hrest : EndsTerm rest) : readTerm (skipBlanks (blanks ++ (cs ++ rest))) = .ok (e, rest) := by
  rw [skipBlanks_productText hblanks (.term h)]
  exact readTerm_of_termText h hrest

/-- A product raises the power of its first term and goes on after a separator. -/
theorem readProduct_eq {side : Terms} {after : List Char}
    (hterm : readTerm (skipBlanks cs) = .ok (e, after)) :
    readProduct side cs =
      match side.add? e.1 e.2 with
      | none => .error (.overflow e.1)
      | some next =>
        match skipBlanks after with
        | [] => .ok (next, [])
        | c :: rest =>
          if c = '*' ∨ c = '.' then readProduct next rest else .ok (next, c :: rest) := by
  rw [readProduct]
  split
  · next heq =>
    rw [hterm] at heq
    cases heq
  · next symbol power after' heq =>
    rw [hterm] at heq
    cases heq
    cases side.add? symbol power with
    | none => rfl
    | some next =>
      dsimp only
      split
      · next hrest => rw [hrest]
      · next hrest => rw [hrest]

/-- The entries of a product are taken together with what was read before. -/
theorem readProduct_of_productText (h : ProductText entries cs) (hblanks : AllBlank blanks)
    (hrest : EndsProduct rest) (whole : List Char) (side : Terms) :
    (readProduct side (blanks ++ (cs ++ rest))).mapError (·.toError whole) =
      (side.raiseAll entries).map (·, skipBlanks rest) := by
  induction h generalizing blanks side with
  | @term e cs hterm =>
    rw [readProduct_eq (readTerm_of_allBlank hblanks hterm hrest.ends), Terms.raiseAll_cons,
      Terms.raise]
    cases side.add? e.1 e.2 with
    | none => rfl
    | some next =>
      -- What follows the last term is no separator, so the reader is done.
      have hstop := hrest.no_separator
      dsimp only
      cases hskip : skipBlanks rest with
      | nil => rfl
      | cons c ds =>
        rw [hskip] at hstop
        dsimp only
        rw [if_neg (hstop c rfl)]
        rfl
  | @more e entries cs between between' ds separator hterm hbetween hseparator hbetween' hmore ih =>
    have htext : blanks ++ (cs ++ (between ++ separator :: (between' ++ ds)) ++ rest) =
        blanks ++ (cs ++ (between ++ separator :: (between' ++ (ds ++ rest)))) := by simp
    -- The blanks or the separator behind a term end it, and the separator asks for another term.
    have hends : EndsTerm (between ++ separator :: (between' ++ (ds ++ rest))) :=
      endsTerm_append hbetween (hseparator.imp_right .inl) _
    have hseparatorBlank : isBlank separator = false := by
      rcases hseparator with rfl | rfl <;> decide
    rw [htext, readProduct_eq (readTerm_of_allBlank hblanks hterm hends),
      skipBlanks_append hbetween, skipBlanks_of_not_isBlank hseparatorBlank, Terms.raiseAll_cons,
      Terms.raise]
    cases side.add? e.1 e.2 with
    | none => rfl
    | some next =>
      dsimp only
      rw [if_pos hseparator]
      exact ih hbetween' next

/-- What a term is read from behind blanks, and the blanks after it. -/
theorem exists_blanks_termText {after : List Char} (h : readTerm (skipBlanks cs) = .ok (e, after)) :
    ∃ blanks run blanks', cs = blanks ++ (run ++ (blanks' ++ skipBlanks after)) ∧
      AllBlank blanks ∧ TermText e run ∧ AllBlank blanks' := by
  obtain ⟨blanks, hblanks, hcs⟩ := exists_blanks cs
  obtain ⟨run, hrun, hterm⟩ := exists_termText h
  obtain ⟨blanks', hblanks', hafter⟩ := exists_blanks after
  exact ⟨blanks, run, blanks', by rw [← hafter, ← hrun, ← hcs], hblanks, hterm, hblanks'⟩

/-- What a single term is read from is a product. -/
theorem exists_productText_of_term {side next : Terms} {after : List Char}
    (hterm : readTerm (skipBlanks cs) = .ok (e, after)) (hadd : side.add? e.1 e.2 = some next) :
    ∃ blanks entries run blanks', cs = blanks ++ (run ++ (blanks' ++ skipBlanks after)) ∧
      AllBlank blanks ∧ ProductText entries run ∧ AllBlank blanks' ∧
      side.raiseAll entries = .ok next := by
  obtain ⟨blanks, run, blanks', hcs, hblanks, hrun, hblanks'⟩ := exists_blanks_termText hterm
  refine ⟨blanks, [e], run, blanks', hcs, hblanks, .term hrun, hblanks', ?_⟩
  rw [Terms.raiseAll_cons, Terms.raise_eq_ok_iff.2 hadd]
  rfl

/-- What a product is read from is a product, maybe with blanks around it. -/
theorem exists_productText {side read : Terms} (h : readProduct side cs = .ok (read, rest)) :
    ∃ blanks entries run blanks', cs = blanks ++ (run ++ (blanks' ++ rest)) ∧ AllBlank blanks ∧
      ProductText entries run ∧ AllBlank blanks' ∧ side.raiseAll entries = .ok read := by
  -- Induction on the terms that are read: after a separator the rest is a product again.
  fun_induction readProduct side cs with
  | case1 => cases h
  | case2 => cases h
  | case3 side cs symbol power after hterm next hadd hafter =>
    cases h
    rw [← hafter]
    exact exists_productText_of_term hterm hadd
  | case4 side cs symbol power after hterm next hadd c rest' hafter hjoin ih =>
    obtain ⟨between', entries, ds, blanks', hrest', hbetween', hmore, hblanks', hread⟩ := ih h
    obtain ⟨blanks, run, between, hcs, hblanks, hrun, hbetween⟩ := exists_blanks_termText hterm
    refine ⟨blanks, (symbol, power) :: entries, _, blanks', ?_, hblanks,
      .more hrun hbetween hjoin hbetween' hmore, hblanks', ?_⟩
    · rw [hcs, hafter, hrest']
      simp only [List.append_assoc, List.cons_append]
    · rw [Terms.raiseAll_cons, Terms.raise_eq_ok_iff.2 hadd]
      exact hread
  | case5 side cs symbol power after hterm next hadd c rest' hafter hjoin =>
    cases h
    rw [← hafter]
    exact exists_productText_of_term hterm hadd

/-! ## Reading a factor -/

/-- The numerator is read up to what may stand after it; a one leaves the blanks there. -/
theorem readNumerator_of_numeratorText (h : NumeratorText entries cs) (hblanks : AllBlank blanks)
    (hrest : EndsProduct rest) (whole : List Char) :
    ∃ after, skipBlanks after = skipBlanks rest ∧
      (readNumerator (blanks ++ (cs ++ rest))).mapError (·.toError whole) =
        (Terms.empty.raiseAll entries).map (·, after) := by
  cases h with
  | one =>
    refine ⟨rest, rfl, ?_⟩
    rw [readNumerator, skipBlanks_append hblanks, List.cons_append,
      skipBlanks_of_not_isBlank (by decide)]
    rfl
  | product hproduct =>
    refine ⟨skipBlanks rest, skipBlanks_skipBlanks rest, ?_⟩
    have hread := readProduct_of_productText hproduct allBlank_nil hrest
      whole .empty
    -- The text of the product starts with neither a blank nor a one.
    obtain ⟨c, ds, hcs, hdigit, -⟩ := hproduct.exists_cons
    rw [readNumerator, skipBlanks_productText hblanks hproduct]
    rw [List.nil_append] at hread
    split
    · next heq => simp [hcs] at heq
    · next heq =>
      rw [hcs] at heq
      cases heq
      cases hdigit
    · exact hread

/-- The denominator is read up to the blanks at the end. -/
theorem readDenominator_of_denominatorText (h : DenominatorText entries cs)
    (hblanks : AllBlank blanks) {after : List Char}
    (hafter : skipBlanks after = skipBlanks (cs ++ blanks)) (whole : List Char) :
    (readDenominator after).mapError (·.toError whole) =
      (Terms.empty.raiseAll entries).map (·, []) := by
  cases h with
  | none =>
    rw [List.nil_append, skipBlanks_of_allBlank hblanks] at hafter
    rw [readDenominator, hafter]
    rfl
  | @bar _ between between' ds hbetween hbetween' hproduct =>
    have hread := readProduct_of_productText hproduct hbetween' (endsProduct_of_allBlank hblanks)
      whole .empty
    rw [List.append_assoc, List.cons_append, List.append_assoc, skipBlanks_append hbetween,
      skipBlanks_of_not_isBlank (by decide)] at hafter
    rw [skipBlanks_of_allBlank hblanks] at hread
    rw [readDenominator, hafter]
    exact hread

theorem DenominatorText.endsProduct (h : DenominatorText entries cs) (hblanks : AllBlank blanks) :
    EndsProduct (cs ++ blanks) := by
  cases h with
  | none => exact endsProduct_of_allBlank hblanks
  | bar hbetween =>
    rw [List.append_assoc]
    exact endsProduct_bar hbetween _

/-- **A text of the grammar denotes the factor of its listed powers**, or fails as building the
    factor from them does. -/
theorem ofText_of_factorText {text : String} {numerator denominator : List (String × Exponent)}
    (h : FactorText numerator denominator text.toList) :
    ofText text = ofPowers (listed numerator) (listed denominator) := by
  generalize htext : text.toList = whole at h
  rw [ofText, ofChars, htext, ofPowers, Terms.ofPowers_listed, Terms.ofPowers_listed]
  obtain ⟨hblanks, hnumerator, hdenominator, hblanks'⟩ := h
  obtain ⟨after, hafter, hfirst⟩ := readNumerator_of_numeratorText hnumerator hblanks
    (hdenominator.endsProduct hblanks') _
  rw [read, mapError_bind, hfirst]
  cases Terms.empty.raiseAll numerator with
  | error cause => rfl
  | ok above =>
    -- The reader goes on behind the numerator only if its powers fit, and so does the product.
    have hsecond := readDenominator_of_denominatorText hdenominator hblanks' hafter
    show (readDenominator after >>= _).mapError _ = _
    rw [mapError_bind, hsecond]
    cases Terms.empty.raiseAll denominator with
    | error cause => rfl
    | ok below => rfl

theorem exists_numeratorText {terms : Terms} (h : readNumerator cs = .ok (terms, rest)) :
    ∃ blanks entries run blanks', cs = blanks ++ (run ++ (blanks' ++ rest)) ∧ AllBlank blanks ∧
      NumeratorText entries run ∧ AllBlank blanks' ∧ Terms.empty.raiseAll entries = .ok terms := by
  obtain ⟨blanks, hblanks, hcs⟩ := exists_blanks cs
  unfold readNumerator at h
  split at h
  · cases h
  · next ds hskip =>
    cases h
    rw [hskip] at hcs
    exact ⟨blanks, [], ['1'], [], hcs, hblanks, .one, allBlank_nil, rfl⟩
  · obtain ⟨between, entries, run, blanks', hskip, hbetween, hrun, hblanks', hread⟩ :=
      exists_productText h
    refine ⟨blanks ++ between, entries, run, blanks', ?_, ?_, .product hrun, hblanks', hread⟩
    · rw [List.append_assoc, ← hskip, ← hcs]
    · exact hblanks.append hbetween

/-- The blanks before the bar may have been left there by the numerator. -/
theorem exists_denominatorText {terms : Terms} (hblanks : AllBlank blanks)
    (h : readDenominator cs = .ok (terms, rest)) :
    ∃ entries run blanks', blanks ++ cs = run ++ (blanks' ++ rest) ∧
      DenominatorText entries run ∧ AllBlank blanks' ∧
      Terms.empty.raiseAll entries = .ok terms := by
  obtain ⟨between, hbetween, hcs⟩ := exists_blanks cs
  have hall := hblanks.append hbetween
  unfold readDenominator at h
  split at h
  · next ds hskip =>
    obtain ⟨between', entries, run, blanks', hds, hbetween', hrun, hblanks', hread⟩ :=
      exists_productText h
    refine ⟨entries, _, blanks', ?_, .bar hall hbetween' hrun, hblanks', hread⟩
    rw [hcs, hskip, hds]
    simp only [List.append_assoc, List.cons_append]
  · cases h
    refine ⟨[], [], blanks ++ between, ?_, .none, hall, rfl⟩
    rw [List.nil_append, List.append_assoc, ← hcs]

/-- **What is read as a factor is of the grammar**, and it is the factor of the listed powers. -/
theorem exists_factorText {text : String} {a : Factor} (h : ofText text = .ok a) :
    ∃ numerator denominator, FactorText numerator denominator text.toList ∧
      Terms.empty.raiseAll numerator = .ok a.numerator ∧
      Terms.empty.raiseAll denominator = .ok a.denominator := by
  obtain ⟨⟨above, after⟩, habove, h⟩ := bind_eq_ok_iff.1 (mapError_eq_ok_iff.1 h)
  obtain ⟨⟨below, rest⟩, hbelow, h⟩ := bind_eq_ok_iff.1 h
  dsimp only at h
  split at h
  · next hrest =>
    cases h
    obtain ⟨blanks, numerator, cs, between, htext, hblanks, hnumerator, hbetween, hread⟩ :=
      exists_numeratorText habove
    obtain ⟨denominator, ds, trailing, hafter, hdenominator, htrailing, hread'⟩ :=
      exists_denominatorText hbetween hbelow
    -- After the denominator nothing but blanks is left.
    obtain ⟨trailing', htrailing', hend⟩ := exists_blanks rest
    rw [hrest, List.append_nil] at hend
    subst hend
    refine ⟨numerator, denominator, ?_, hread, hread'⟩
    rw [htext, hafter]
    exact .intro hblanks hnumerator hdenominator
      (htrailing.append htrailing')
  · cases h

/-! ## Positions -/

/-- A step of reading stops before a text: it leaves the text, or fails there. -/
def StopsAt {α : Type} (outcome : Except Fault (α × List Char)) (rest : List Char) : Prop :=
  (∃ a, outcome = .ok (a, rest)) ∨ ∃ reason, outcome = .error (.malformed rest reason)

/-- A step of the reader that starts before the one text stops before the other. -/
inductive Stops : List Char → List Char → Prop where
  | power {cs rest : List Char} (h : StopsAt (readPower cs) rest) : Stops cs rest
  | term {cs rest : List Char} (h : StopsAt (readTerm cs) rest) : Stops cs rest
  | product {cs rest : List Char} (side : Terms) (h : StopsAt (readProduct side cs) rest) :
      Stops cs rest
  | numerator {cs rest : List Char} (h : StopsAt (readNumerator cs) rest) : Stops cs rest
  | denominator {cs rest : List Char} (h : StopsAt (readDenominator cs) rest) : Stops cs rest

theorem stopsAt_ok {α : Type} {a : α} : StopsAt (.ok (a, cs)) rest ↔ rest = cs := by
  simp [StopsAt, eq_comm]

theorem stopsAt_malformed {α : Type} {reason : Malformed} :
    StopsAt (.error (.malformed cs reason) : Except Fault (α × List Char)) rest ↔ rest = cs := by
  simp [StopsAt, eq_comm]

theorem not_stopsAt_overflow {α : Type} {symbol : String} :
    ¬ StopsAt (.error (.overflow symbol) : Except Fault (α × List Char)) rest := by
  simp [StopsAt]

/-- Changing the value that was read does not change where reading stops. -/
theorem stopsAt_bind_pure {α β : Type} {outcome : Except Fault (α × List Char)} {f : α → β} :
    StopsAt (outcome >>= fun (a, after) => pure (f a, after)) rest ↔ StopsAt outcome rest := by
  cases outcome with
  | error fault => cases fault <;> simp [StopsAt, bind, Except.bind]
  | ok result =>
    obtain ⟨a, after⟩ := result
    simp [StopsAt, bind, Except.bind, pure, Except.pure]

theorem isSuffix_of_readPower (h : StopsAt (readPower cs) rest) : rest <:+ cs := by
  unfold readPower at h
  split at h
  · next ds =>
    have hcaret : ds <:+ '^' :: ds := List.suffix_cons _ _
    dsimp only at h
    split at h
    · exact stopsAt_malformed.1 h ▸ hcaret
    · split at h
      · exact stopsAt_malformed.1 h ▸ hcaret
      · split at h
        · exact stopsAt_ok.1 h ▸ (List.dropWhile_suffix _).trans hcaret
        · exact stopsAt_malformed.1 h ▸ hcaret
  · exact stopsAt_ok.1 h ▸ List.suffix_refl _

theorem isSuffix_of_readTerm (h : StopsAt (readTerm cs) rest) : rest <:+ cs := by
  unfold readTerm at h
  split at h
  · exact stopsAt_malformed.1 h ▸ List.suffix_refl _
  · next c symbol htake =>
    split at h
    · exact stopsAt_malformed.1 h ▸ List.suffix_refl _
    · exact (isSuffix_of_readPower (stopsAt_bind_pure.1 h)).trans (List.dropWhile_suffix _)

theorem isSuffix_of_readProduct {side : Terms} (h : StopsAt (readProduct side cs) rest) :
    rest <:+ cs := by
  -- What is left after a term, without the blanks there.
  have hafter : ∀ {cs after : List Char} {e : String × Exponent},
      readTerm (skipBlanks cs) = .ok (e, after) → skipBlanks after <:+ cs := by
    intro cs after e hterm
    have hstops : StopsAt (readTerm (skipBlanks cs)) after := .inl ⟨e, hterm⟩
    exact ((skipBlanks_isSuffix after).trans (isSuffix_of_readTerm hstops)).trans
      (skipBlanks_isSuffix cs)
  fun_induction readProduct side cs with
  | case1 side cs fault hterm =>
    have hstops : StopsAt (readTerm (skipBlanks cs)) rest := by
      rcases h with ⟨a, h⟩ | ⟨reason, h⟩
      · cases h
      · cases h
        exact .inr ⟨reason, hterm⟩
    exact (isSuffix_of_readTerm hstops).trans (skipBlanks_isSuffix cs)
  | case2 => exact absurd h not_stopsAt_overflow
  | case3 side cs symbol power after hterm next hadd hnil =>
    rw [stopsAt_ok.1 h, ← hnil]
    exact hafter hterm
  | case4 side cs symbol power after hterm next hadd c rest' hskip hjoin ih =>
    have hmore := hafter hterm
    rw [hskip] at hmore
    exact ((ih h).trans (List.suffix_cons _ _)).trans hmore
  | case5 side cs symbol power after hterm next hadd c rest' hskip hjoin =>
    rw [stopsAt_ok.1 h, ← hskip]
    exact hafter hterm

theorem isSuffix_of_readNumerator (h : StopsAt (readNumerator cs) rest) : rest <:+ cs := by
  have hskip := skipBlanks_isSuffix cs
  unfold readNumerator at h
  split at h
  · exact stopsAt_malformed.1 h ▸ List.nil_suffix
  · next ds heq =>
    rw [heq] at hskip
    exact stopsAt_ok.1 h ▸ (List.suffix_cons _ _).trans hskip
  · exact (isSuffix_of_readProduct h).trans hskip

theorem isSuffix_of_readDenominator (h : StopsAt (readDenominator cs) rest) : rest <:+ cs := by
  have hskip := skipBlanks_isSuffix cs
  unfold readDenominator at h
  split at h
  · next ds heq =>
    rw [heq] at hskip
    exact ((isSuffix_of_readProduct h).trans (List.suffix_cons _ _)).trans hskip
  · exact stopsAt_ok.1 h ▸ hskip

/-- Reading passes characters and takes none back. -/
theorem Stops.isSuffix (h : Stops cs rest) : rest <:+ cs := by
  cases h with
  | power h => exact isSuffix_of_readPower h
  | term h => exact isSuffix_of_readTerm h
  | product side h => exact isSuffix_of_readProduct h
  | numerator h => exact isSuffix_of_readNumerator h
  | denominator h => exact isSuffix_of_readDenominator h

/-- A text is malformed at one of its ends. -/
theorem isSuffix_of_read {reason : Malformed} (h : read cs = .error (.malformed rest reason)) :
    rest <:+ cs := by
  rcases bind_eq_error_iff.1 h with h | ⟨⟨above, after⟩, habove, h⟩
  · exact isSuffix_of_readNumerator (.inr ⟨reason, h⟩)
  · have hafter := isSuffix_of_readNumerator (.inl ⟨above, habove⟩)
    rcases bind_eq_error_iff.1 h with h | ⟨⟨below, behind⟩, hbelow, h⟩
    · exact (isSuffix_of_readDenominator (.inr ⟨reason, h⟩)).trans hafter
    · have hbehind := isSuffix_of_readDenominator (.inl ⟨below, hbelow⟩)
      dsimp only at h
      split at h
      · cases h
      · cases h
        exact ((skipBlanks_isSuffix behind).trans hbehind).trans hafter

theorem byteLength_append (cs ds : List Char) :
    byteLength (cs ++ ds) = byteLength cs + byteLength ds := by
  induction cs with
  | nil => rw [List.nil_append, byteLength, Nat.zero_add]
  | cons c cs ih => rw [List.cons_append, byteLength, byteLength, ih, Nat.add_assoc]

/-- The bytes that are counted are those of the text. -/
theorem byteLength_eq (cs : List Char) : byteLength cs = (String.ofList cs).utf8ByteSize := by
  induction cs with
  | nil => rfl
  | cons c cs ih =>
    rw [byteLength, ih, String.ofList_cons, String.utf8ByteSize_append,
      String.utf8ByteSize_singleton]

/-- The position in a text where some of it is left. -/
def place (text : String) (rest : List Char) : String.Pos.Raw :=
  ⟨byteLength text.toList - byteLength rest⟩

/-- What is left of a text starts on a boundary of its characters. -/
theorem isValid_place {text : String} (h : rest <:+ text.toList) :
    (place text rest).IsValid text := by
  obtain ⟨before, htext⟩ := h
  refine String.Pos.Raw.isValid_iff_exists_append.2
    ⟨String.ofList before, String.ofList rest, ?_, ?_⟩
  · rw [← String.ofList_append, htext, String.ofList_toList]
  · rw [place, ← htext, byteLength_append, Nat.add_sub_cancel, byteLength_eq]
    rfl

/-! ## Texts of factors -/

theorem exists_ofPowers_iff {numerator denominator : List (String × Exponent)} :
    (∃ a, ofPowers (listed numerator) (listed denominator) = .ok a) ↔
      Fits numerator ∧ Fits denominator := by
  rw [ofPowers, Terms.ofPowers_listed, Terms.ofPowers_listed, ← Terms.exists_raiseAll_iff,
    ← Terms.exists_raiseAll_iff]
  constructor
  · rintro ⟨a, h⟩
    obtain ⟨above, habove, h⟩ := bind_eq_ok_iff.1 h
    obtain ⟨below, hbelow, -⟩ := bind_eq_ok_iff.1 h
    exact ⟨⟨above, habove⟩, below, hbelow⟩
  · rintro ⟨⟨above, habove⟩, below, hbelow⟩
    rw [habove, hbelow]
    exact ⟨⟨above, below⟩, rfl⟩

/-- Listed powers are refused only because those of a symbol become too large. -/
theorem exists_overflow_of_not_fits {numerator denominator : List (String × Exponent)}
    (h : ¬(Fits numerator ∧ Fits denominator)) : ∃ symbol,
      ofPowers (listed numerator) (listed denominator) = .error (.exponentOverflow symbol) := by
  cases houtcome : ofPowers (listed numerator) (listed denominator) with
  | ok a => exact absurd (exists_ofPowers_iff.1 ⟨a, houtcome⟩) h
  | error cause =>
    rw [ofPowers, Terms.ofPowers_listed, Terms.ofPowers_listed] at houtcome
    obtain ⟨symbol, rfl⟩ : ∃ symbol, cause = .exponentOverflow symbol := by
      rcases bind_eq_error_iff.1 houtcome with habove | ⟨above, -, houtcome⟩
      · exact Terms.cause_of_raiseAll habove
      · rcases bind_eq_error_iff.1 houtcome with hbelow | ⟨below, -, hok⟩
        · exact Terms.cause_of_raiseAll hbelow
        · cases hok
    exact ⟨symbol, rfl⟩

/-- Where a text is malformed is where some of it was left. -/
theorem exists_place_of_malformed {text : String} {position : Nat} {reason : Malformed}
    (h : ofText text = .error (.malformedText position reason)) :
    ∃ rest, rest <:+ text.toList ∧ place text rest = ⟨position⟩ := by
  rw [ofText, ofChars] at h
  cases hread : read text.toList with
  | ok a =>
    rw [hread] at h
    cases h
  | error fault =>
    rw [hread] at h
    cases fault with
    | malformed rest reason =>
      cases h
      exact ⟨rest, isSuffix_of_read hread, rfl⟩
    | overflow symbol => cases h

/-- **The texts of factors.** A text is read as a factor just if it is of the grammar and the powers
    that it lists are in range. What a text of the grammar denotes is what is built from the listed
    powers: the same factor, or a failure for the same symbol, whose powers are too large. Each step
    of reading goes forward to a boundary of characters, and where a text is malformed is one. -/
theorem ofText_grammar (text : String) :
    ((∃ a, ofText text = .ok a) ↔ ∃ numerator denominator,
      FactorText numerator denominator text.toList ∧ Fits numerator ∧ Fits denominator) ∧
    (∀ numerator denominator, FactorText numerator denominator text.toList →
      ofText text = ofPowers (listed numerator) (listed denominator) ∧
      (¬(Fits numerator ∧ Fits denominator) → ∃ symbol,
        ofText text = .error (.exponentOverflow symbol) ∧
        ofPowers (listed numerator) (listed denominator) = .error (.exponentOverflow symbol))) ∧
    (∀ cs rest, cs <:+ text.toList → Stops cs rest →
      rest <:+ cs ∧ (place text rest).IsValid text) ∧
    ∀ position reason, ofText text = .error (.malformedText position reason) →
      (⟨position⟩ : String.Pos.Raw).IsValid text := by
  refine ⟨⟨?_, ?_⟩, fun numerator denominator h => ⟨ofText_of_factorText h, ?_⟩, ?_, ?_⟩
  · rintro ⟨a, ha⟩
    obtain ⟨numerator, denominator, htext, habove, hbelow⟩ := exists_factorText ha
    exact ⟨numerator, denominator, htext, Terms.exists_raiseAll_iff.1 ⟨_, habove⟩,
      Terms.exists_raiseAll_iff.1 ⟨_, hbelow⟩⟩
  · rintro ⟨numerator, denominator, htext, hfits⟩
    rw [ofText_of_factorText htext]
    exact exists_ofPowers_iff.2 hfits
  · intro hfits
    obtain ⟨symbol, hoverflow⟩ := exists_overflow_of_not_fits hfits
    exact ⟨symbol, (ofText_of_factorText h).trans hoverflow, hoverflow⟩
  · intro cs rest hcs hstops
    exact ⟨hstops.isSuffix, isValid_place (hstops.isSuffix.trans hcs)⟩
  · intro position reason h
    obtain ⟨rest, hrest, hposition⟩ := exists_place_of_malformed h
    exact hposition ▸ isValid_place hrest

theorem isSymbol_of_letter {c : Char} (hc : c.isDigit = false) (hchar : isSymbolChar c = true) :
    IsSymbol (String.ofList [c]) := by
  refine ⟨⟨c, [], String.toList_ofList, hc⟩, ?_⟩
  rw [String.toList_ofList]
  simpa using hchar

/-- Two powers of one symbol that are too large together, and a caret without digits after a symbol
    of two bytes. -/
theorem ofText_grammar_overflow :
    let numerator := [("m", ⟨2147483647, by decide, by decide⟩), ("m", Exponent.one)]
    FactorText numerator [("s", .one)] " m^2147483647 . m / s".toList ∧ ¬Fits numerator ∧
      (∃ symbol, ofText " m^2147483647 . m / s" = .error (.exponentOverflow symbol)) ∧
      "°^x".toList <:+ "m/°^x".toList ∧ Stops "°^x".toList "x".toList ∧
      (place "m/°^x" "x".toList).IsValid "m/°^x" ∧
      ofText "m/°^x" = .error (.malformedText 5 .expectedExponent) ∧
      (⟨5⟩ : String.Pos.Raw).IsValid "m/°^x" := by
  intro numerator
  have hm : IsSymbol "m" := isSymbol_of_letter (c := 'm') (by decide) (by decide)
  have hs : IsSymbol "s" := isSymbol_of_letter (c := 's') (by decide) (by decide)
  have hspace : AllBlank [' '] := by simp [AllBlank]
  have hall : "2147483647".toList.all Char.isDigit = true := rfl
  have hdigits : IsDigits "2147483647".toList := ⟨by decide, List.all_eq_true.1 hall⟩
  -- The two powers fit one by one, and are too large together.
  have hproduct : ProductText numerator "m^2147483647 . m".toList :=
    .more (.power hm hdigits (by decide)) hspace (.inr rfl) hspace (.term (.bare hm))
  have hbar : DenominatorText [("s", .one)] " / s".toList :=
    .bar hspace hspace (.term (.bare hs))
  have htext : FactorText numerator [("s", .one)] " m^2147483647 . m / s".toList :=
    .intro hspace (.product hproduct) hbar allBlank_nil
  have hfits : ¬Fits numerator := by
    intro h
    exact absurd (h "m") (by decide)
  -- The reader stops behind the caret, where digits should stand.
  have hsuffix : "°^x".toList <:+ "m/°^x".toList := ⟨"m/".toList, by decide⟩
  have hstops : Stops "°^x".toList "x".toList := .term (.inr ⟨.expectedExponent, by cbv⟩)
  have hmalformed : ofText "m/°^x" = .error (.malformedText 5 .expectedExponent) := by cbv
  obtain ⟨symbol, hsymbol, -⟩ :=
    ((ofText_grammar " m^2147483647 . m / s").2.1 _ _ htext).2 fun h => hfits h.1
  obtain ⟨-, -, hplaces, hpositions⟩ := ofText_grammar "m/°^x"
  exact ⟨htext, hfits, ⟨symbol, hsymbol⟩, hsuffix, hstops, (hplaces _ _ hsuffix hstops).2,
    hmalformed, hpositions _ _ hmalformed⟩

end Factor

end UnitCheck
