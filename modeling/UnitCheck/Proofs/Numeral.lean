import UnitCheck.Parser.Literal
import UnitCheck.Proofs.Blanks
import UnitCheck.Proofs.Number.Notation
import UnitCheck.Token.Numeral

/-!
  The extent of numerals.

  A numeral in proper form (`Numeral.Proper`) is found as a whole wherever no identifier character
  and no point follows it (`atStart_append`), and its suffix is told from its number
  (`splitSuffix_chars`).
-/

namespace UnitCheck

open Number (IsDigits IsFraction IsExponent NoDigit forall_char_lt forall_digit splitDigits
  splitDigits_of_noDigit)

/-- No character at the start of the text goes on with a word or a numeral. -/
def Delimited (rest : List Char) : Prop :=
  ∀ c ∈ rest.head?, isIdentifierChar c = false ∧ c ≠ '.'

theorem delimited_nil : Delimited [] := by simp [Delimited]

theorem delimited_cons {c : Char} {cs : List Char} (h : isIdentifierChar c = false)
    (hpoint : c ≠ '.') : Delimited (c :: cs) := by
  simpa [Delimited] using ⟨h, hpoint⟩

theorem isIdentifierChar_of_digit {c : Char} (h : c.isDigit = true) :
    isIdentifierChar c = true :=
  forall_digit (P := fun c => isIdentifierChar c = true) (by decide +kernel) h

theorem not_isIdentifierChar_of_isBlank {c : Char} (h : Text.isBlank c = true) :
    isIdentifierChar c = false :=
  Text.forall_blank (P := fun c => isIdentifierChar c = false) (by decide +kernel) h

/-- No digit is a letter of a suffix. -/
theorem isSuffixLetter_of_digit {c : Char} (h : c.isDigit = true) :
    Parser.isSuffixLetter c = false :=
  forall_digit (P := fun c => Parser.isSuffixLetter c = false) (by decide +kernel) h

theorem Delimited.noDigit {rest : List Char} (h : Delimited rest) : NoDigit rest := by
  intro c hc
  by_contra hdigit
  rw [Bool.not_eq_false] at hdigit
  have := (h c hc).1
  rw [isIdentifierChar_of_digit hdigit] at this
  cases this

/-- A run of identifier characters ends where none follows. -/
theorem takeWhile_isIdentifierChar {run rest : List Char}
    (hrun : ∀ c ∈ run, isIdentifierChar c = true)
    (hrest : ∀ c ∈ rest.head?, isIdentifierChar c = false) :
    (run ++ rest).takeWhile isIdentifierChar = run := by
  rw [List.takeWhile_append_of_pos hrun]
  cases rest with
  | nil => simp
  | cons c cs =>
    have hc := hrest c rfl
    rw [List.takeWhile_cons_of_neg (by simp [hc]), List.append_nil]

namespace Numeral

/-! ## Suffixes -/

/-- A letter that belongs to suffixes only. -/
structure IsLetter (c : Char) : Prop where
  isIdentifierChar : isIdentifierChar c = true
  isSuffixLetter : Parser.isSuffixLetter c = true

theorem isLetter_of_toLower {c : Char} (h : c.toLower ∈ ['u', 'l', 'd', 'f', 'm']) :
    IsLetter c := by
  have hbound : c.toNat < 128 := by
    unfold Char.toLower at h
    split at h
    · next hupper =>
      have : c.toNat ≤ 90 := hupper.2
      omega
    · simp only [List.mem_cons, List.not_mem_nil, or_false] at h
      rcases h with rfl | rfl | rfl | rfl | rfl <;> decide
  have hletter : isIdentifierChar c = true ∧ Parser.isSuffixLetter c = true := by
    refine forall_char_lt (P := fun c => c.toLower ∈ ['u', 'l', 'd', 'f', 'm'] →
      isIdentifierChar c = true ∧ Parser.isSuffixLetter c = true) ?_ hbound h
    decide +kernel
  exact ⟨hletter.1, hletter.2⟩

/-- A suffix consists of letters. -/
theorem isLetter_of_mem_suffix {suffix : List Char}
    (h : (realSuffix? suffix).isSome = true ∨ (integerSuffix? suffix).isSome = true) :
    ∀ c ∈ suffix, IsLetter c := by
  intro c hc
  apply isLetter_of_toLower
  have hmem : c.toLower ∈ foldSuffix suffix := List.mem_map_of_mem hc
  rcases h with h | h
  · unfold realSuffix? at h
    split at h <;> simp_all
  · unfold integerSuffix? at h
    split at h <;> simp_all <;> rcases hmem with hmem | hmem <;> simp [hmem]

/-! ## Extent -/

/-- The parts of a numeral are what they should be, and its suffix suits its form. -/
structure Proper (n : Numeral) : Prop where
  whole : IsDigits n.whole
  fraction : IsFraction n.fraction
  exponent : ∃ power, IsExponent n.exponent power
  suffix : n.suffix = [] ∨ (realSuffix? n.suffix).isSome = true ∨
    n.hasPoint = false ∧ (integerSuffix? n.suffix).isSome = true

namespace Proper

variable {n : Numeral}

theorem isLetter (h : n.Proper) : ∀ c ∈ n.suffix, IsLetter c := by
  rcases h.suffix with hsuffix | hsuffix | hsuffix
  · simp [hsuffix]
  · exact isLetter_of_mem_suffix (.inl hsuffix)
  · exact isLetter_of_mem_suffix (.inr hsuffix.2)

/-- After the number of a numeral no digit, no point and no exponent follows. -/
theorem after_number (h : n.Proper) {rest : List Char} (hrest : Delimited rest) :
    ∀ c ∈ (n.suffix ++ rest).head?, c.isDigit = false ∧ c ≠ '.' ∧ ¬(c = 'e' ∨ c = 'E') := by
  intro c hc
  cases hsuffix : n.suffix with
  -- The delimiter itself comes next.
  | nil =>
    rw [hsuffix, List.nil_append] at hc
    refine ⟨hrest.noDigit c hc, (hrest c hc).2, ?_⟩
    rintro (rfl | rfl)
    · exact absurd (hrest _ hc).1 (by decide)
    · exact absurd (hrest _ hc).1 (by decide)
  | cons d ds =>
    rw [hsuffix] at hc
    obtain rfl : d = c := by simpa using hc
    have hletter := (h.isLetter d (by simp [hsuffix])).isSuffixLetter
    refine ⟨?_, ?_, ?_⟩
    · by_contra hdigit
      rw [Bool.not_eq_false] at hdigit
      rw [isSuffixLetter_of_digit hdigit] at hletter
      cases hletter
    · rintro rfl
      cases hletter
    · rintro (rfl | rfl)
      · cases hletter
      · cases hletter

end Proper

/-- Behind its mark and sign an exponent takes all the digits that stand there. -/
theorem splitExponent_mark {mark : Char} {sign digits : List Char} {negative : Bool}
    (hmark : mark = 'e' ∨ mark = 'E')
    (hsign : sign = [] ∧ negative = false ∨ sign = ['+'] ∧ negative = false ∨
      sign = ['-'] ∧ negative = true)
    (hdigits : IsDigits digits) (rest : List Char) :
    splitExponent (mark :: (sign ++ digits) ++ rest) =
      (mark :: (sign ++ (splitDigits (digits ++ rest)).1), (splitDigits (digits ++ rest)).2) := by
  cases digits with
  | nil => exact absurd rfl hdigits.1
  | cons d ds =>
    have hd : d.isDigit = true := hdigits.2 d List.mem_cons_self
    have hne : (splitDigits (d :: (ds ++ rest))).1.isEmpty = false := by
      rw [splitDigits, List.takeWhile_cons_of_pos hd]
      rfl
    -- Without a sign the first digit stands in its place, and it is none.
    have hnoSign : ¬(d = '+' ∨ d = '-') := by
      rintro (rfl | rfl) <;> cases hd
    rcases hsign with ⟨rfl, -⟩ | ⟨rfl, -⟩ | ⟨rfl, -⟩
    · simp only [List.cons_append, List.nil_append]
      rw [splitExponent, if_pos hmark]
      dsimp only
      rw [if_neg hnoSign, hne]
      rfl
    · simp only [List.cons_append, List.nil_append]
      rw [splitExponent, if_pos hmark]
      dsimp only
      rw [if_pos (.inl rfl), hne]
      rfl
    · simp only [List.cons_append, List.nil_append]
      rw [splitExponent, if_pos hmark]
      dsimp only
      rw [if_pos (.inr rfl), hne]
      rfl

theorem splitExponent_of_isExponent {exponent rest : List Char} {power : Int}
    (h : IsExponent exponent power)
    (hrest : ∀ c ∈ rest.head?, c.isDigit = false ∧ ¬(c = 'e' ∨ c = 'E')) :
    splitExponent (exponent ++ rest) = (exponent, rest) := by
  have hnoDigit : NoDigit rest := fun c hc => (hrest c hc).1
  rcases h with ⟨rfl, -⟩ | ⟨mark, sign, digits, negative, rfl, hmark, hsign, hdigits, -⟩
  · cases rest with
    | nil => rfl
    | cons c cs =>
      rw [List.nil_append]
      unfold splitExponent
      exact if_neg (hrest c rfl).2
  · rw [splitExponent_mark hmark hsign hdigits, splitDigits_of_noDigit hdigits.2 hnoDigit]

theorem splitFraction_of_isFraction {fraction rest : List Char} (h : IsFraction fraction)
    (hrest : ∀ c ∈ rest.head?, c.isDigit = false ∧ c ≠ '.') :
    splitFraction (fraction ++ rest) = (fraction, rest) := by
  have hnoDigit : NoDigit rest := fun c hc => (hrest c hc).1
  rcases h with rfl | ⟨digits, rfl, hdigits⟩
  · rw [List.nil_append]
    unfold splitFraction
    split
    · exact absurd rfl (hrest '.' rfl).2
    · rfl
  · have hsplit := splitDigits_of_noDigit hdigits.2 hnoDigit
    cases digits with
    | nil => exact absurd rfl hdigits.1
    | cons d ds =>
      have hd : d.isDigit = true := hdigits.2 d List.mem_cons_self
      rw [List.cons_append] at hsplit
      simp only [List.cons_append]
      rw [splitFraction, if_pos hd, hsplit]

/-- An exponent goes on with no digits and no fraction. -/
theorem head_exponent_append {exponent rest : List Char} {power : Int}
    (h : IsExponent exponent power) (hrest : ∀ c ∈ rest.head?, c.isDigit = false ∧ c ≠ '.') :
    ∀ c ∈ (exponent ++ rest).head?, c.isDigit = false ∧ c ≠ '.' := by
  rcases h with ⟨rfl, -⟩ | ⟨mark, sign, digits, negative, rfl, hmark, -⟩
  · exact hrest
  · rcases hmark with rfl | rfl <;> simp

/-- A proper numeral is found as a whole. -/
theorem atStart_append {n : Numeral} (h : n.Proper) {rest : List Char} (hrest : Delimited rest) :
    atStart (n.chars ++ rest) = n := by
  obtain ⟨power, hpower⟩ := h.exponent
  have hafter := h.after_number hrest
  have hexponentHead := head_exponent_append hpower
    fun c hc => ⟨(hafter c hc).1, (hafter c hc).2.1⟩
  -- Each part ends where the next one starts.
  have hexponent : splitExponent (n.exponent ++ (n.suffix ++ rest)) =
      (n.exponent, n.suffix ++ rest) :=
    splitExponent_of_isExponent hpower fun c hc => ⟨(hafter c hc).1, (hafter c hc).2.2⟩
  have hfraction : splitFraction (n.fraction ++ (n.exponent ++ (n.suffix ++ rest))) =
      (n.fraction, n.exponent ++ (n.suffix ++ rest)) :=
    splitFraction_of_isFraction h.fraction hexponentHead
  have hwhole : splitDigits (n.whole ++ (n.fraction ++ (n.exponent ++ (n.suffix ++ rest)))) =
      (n.whole, n.fraction ++ (n.exponent ++ (n.suffix ++ rest))) := by
    apply splitDigits_of_noDigit h.whole.2
    exact h.fraction.noDigit_append fun c hc => (hexponentHead c hc).1
  have hrun : (n.suffix ++ rest).takeWhile isIdentifierChar = n.suffix :=
    takeWhile_isIdentifierChar (fun c hc => (h.isLetter c hc).isIdentifierChar)
      fun c hc => (hrest c hc).1
  have hchars : n.chars ++ rest =
      n.whole ++ (n.fraction ++ (n.exponent ++ (n.suffix ++ rest))) := by
    simp only [chars, number, List.append_assoc]
  unfold atStart
  rw [hchars, hwhole]
  dsimp only
  rw [hfraction]
  dsimp only
  rw [hexponent]
  dsimp only
  rw [hrun]
  -- The suffix is kept, for it suits the form.
  obtain ⟨whole, fraction, exponent, suffix⟩ := n
  rcases h.suffix with hsuffix | hsuffix | ⟨hpoint, hsuffix⟩
  · dsimp only at hsuffix
    subst hsuffix
    simp
  · dsimp only at hsuffix
    simp [hsuffix]
  · dsimp only at hsuffix
    have hpoint' : (⟨whole, fraction, exponent, []⟩ : Numeral).hasPoint = false := hpoint
    simp [hsuffix, hpoint']

/-- A numeral begins with the digit that it is found at. -/
theorem exists_chars_atStart {c : Char} (hc : c.isDigit = true) (cs : List Char) :
    ∃ ds, (atStart (c :: cs)).chars = c :: ds := by
  have hwhole : ∃ ds, (atStart (c :: cs)).whole = c :: ds := by
    unfold atStart
    simp only [splitDigits, List.takeWhile_cons, hc, if_true]
    split <;> exact ⟨_, rfl⟩
  obtain ⟨ds, hwhole⟩ := hwhole
  rw [chars, number, hwhole]
  exact ⟨_, rfl⟩

/-- The last character of the number of a numeral is a digit. -/
theorem Proper.isDigit_last {n : Numeral} (h : n.Proper) :
    ∃ cs d, n.number = cs ++ [d] ∧ d.isDigit = true := by
  have hlast : ∀ (before digits : List Char), IsDigits digits →
      ∃ cs d, before ++ digits = cs ++ [d] ∧ d.isDigit = true := by
    intro before digits hdigits
    have hsplit := List.dropLast_concat_getLast hdigits.1
    refine ⟨before ++ digits.dropLast, digits.getLast hdigits.1, ?_, ?_⟩
    · rw [List.append_assoc, hsplit]
    · exact hdigits.2 _ (List.getLast_mem hdigits.1)
  -- The last part that is not empty ends with digits.
  obtain ⟨power, hpower⟩ := h.exponent
  rcases hpower with ⟨hnil, -⟩ | ⟨mark, sign, digits, negative, hexp, -, -, hdigits, -⟩
  · rcases h.fraction with hnil' | ⟨digits, hfraction, hdigits⟩
    · rw [number, hnil, hnil', List.append_nil, List.append_nil]
      simpa using hlast [] n.whole h.whole
    · rw [number, hnil, hfraction, List.append_nil]
      simpa using hlast (n.whole ++ ['.']) digits hdigits
  · rw [number, hexp]
    simpa using hlast (n.whole ++ n.fraction ++ mark :: sign) digits hdigits

/-- The number and the suffix of a proper numeral. -/
theorem splitSuffix_chars {n : Numeral} (h : n.Proper) :
    Parser.splitSuffix n.chars = (n.number, n.suffix) := by
  obtain ⟨cs, d, hnumber, hd⟩ := h.isDigit_last
  have hsuffix : ∀ c ∈ n.suffix.reverse, Parser.isSuffixLetter c = true :=
    fun c hc => (h.isLetter c (List.mem_reverse.1 hc)).isSuffixLetter
  have hdigit := isSuffixLetter_of_digit hd
  have hreverse : n.chars.reverse = n.suffix.reverse ++ d :: cs.reverse := by
    rw [chars, hnumber]
    simp
  rw [Parser.splitSuffix, hreverse, List.dropWhile_append_of_pos hsuffix,
    List.takeWhile_append_of_pos hsuffix, List.dropWhile_cons_of_neg (by simp [hdigit]),
    List.takeWhile_cons_of_neg (by simp [hdigit]), hnumber]
  simp

end Numeral

end UnitCheck
