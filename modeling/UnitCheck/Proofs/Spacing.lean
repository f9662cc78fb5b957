import UnitCheck.Proofs.NumberToken
import UnitCheck.Proofs.Parser.Validation

/-!
  Blanks between tokens.

  The end of a lexeme is found by looking at what follows it: a longer symbol may start there, a
  number may go on with a fraction, an exponent or a suffix, and a name takes all identifier
  characters. `Spaced blanks cs ds` says that `ds` is `cs` with blanks put in behind some of its
  lexemes, or among the blanks there. A lexeme of `cs` is then followed by what it was followed by,
  or by a blank, with which none goes on, so it stays the same (`Spaced.atStart_eq`). The one look
  that goes further is that for a suffix, which is the whole run of identifier characters after a
  number. Where the run is none, it is no part of the number, and blanks leave no suffix of it: a
  run that begins like a suffix is a name, hence one lexeme, in which no blanks are put
  (`Spaced.suffixOf_eq_nil`).
-/

namespace UnitCheck

open Number (IsDigits)
open Text (isBlank AllBlank)

/-! ## Texts with blanks put in -/

/-- Characters with blanks put in once, in front of them or behind blanks and whole lexemes. -/
inductive Spaced (blanks : List Char) : List Char → List Char → Prop where
  | here (rest : List Char) : Spaced blanks rest (blanks ++ rest)
  | blank {c : Char} {rest spaced : List Char} (hblank : isBlank c = true)
      (h : Spaced blanks rest spaced) : Spaced blanks (c :: rest) (c :: spaced)
  | lexeme {c : Char} {run rest spaced : List Char} (hblank : isBlank c = false)
      (hlength : (Lexeme.atStart c (run ++ rest)).length = (c :: run).length)
      (h : Spaced blanks rest spaced) : Spaced blanks (c :: run ++ rest) (c :: run ++ spaced)

namespace Spaced

variable {blanks rest spaced : List Char}

theorem append_blanks {run : List Char} (hrun : AllBlank run) (h : Spaced blanks rest spaced) :
    Spaced blanks (run ++ rest) (run ++ spaced) := by
  induction run with
  | nil => exact h
  | cons c run ih =>
    exact .blank (hrun c List.mem_cons_self) (ih fun d hd => hrun d (List.mem_cons_of_mem _ hd))

/-- What follows is a blank, or what followed before. -/
theorem head (hblanks : AllBlank blanks) (h : Spaced blanks rest spaced) :
    ∀ c ∈ spaced.head?, isBlank c = true ∨ c ∈ rest.head? := by
  cases h with
  | here =>
    cases blanks with
    | nil => exact fun c hc => .inr hc
    | cons b bs =>
      intro c hc
      obtain rfl : b = c := by simpa using hc
      exact .inl (hblanks b List.mem_cons_self)
  | blank => exact fun c hc => .inr hc
  | lexeme => exact fun c hc => .inr hc

/-- What is read without blanks was there before. -/
theorem isPrefix (hblanks : AllBlank blanks) (h : Spaced blanks rest spaced)
    {read front : List Char} (hread : ∀ c ∈ read, isBlank c = false)
    (hfront : read <+: front ++ spaced) : read <+: front ++ rest := by
  induction h generalizing front with
  | here rest =>
    cases blanks with
    | nil => exact hfront
    | cons b bs =>
      -- The first blank is not read, so neither is anything behind it.
      have hb : front ++ [b] <+: front ++ (b :: bs ++ rest) :=
        (List.prefix_append_right_inj _).2 ⟨bs ++ rest, rfl⟩
      rcases List.prefix_or_prefix_of_prefix hfront hb with hle | hge
      · rcases List.prefix_concat_iff.1 hle with rfl | hle
        · have hnone := hread b (by simp)
          rw [hblanks b List.mem_cons_self] at hnone
          cases hnone
        · exact hle.trans (List.prefix_append _ _)
      · have hnone := hread b (hge.subset (by simp))
        rw [hblanks b List.mem_cons_self] at hnone
        cases hnone
  | @blank c rest spaced _ _ ih =>
    have hmore := @ih (front ++ [c])
    rw [List.append_assoc, List.append_assoc] at hmore
    exact hmore hfront
  | @lexeme c run rest spaced _ _ _ ih =>
    have hmore := @ih (front ++ (c :: run))
    rw [List.append_assoc, List.append_assoc] at hmore
    exact hmore hfront

end Spaced

theorem eq_of_isPrefix_append {found run rest : List Char} (h : found <+: run ++ rest)
    (hlength : found.length = run.length) : found = run :=
  (List.prefix_of_prefix_length_le h (List.prefix_append run rest) hlength.le).eq_of_length hlength

/-! ## Symbols -/

namespace Symbol

theorem atStart?_eq_lessThan_iff {cs : List Char} :
    atStart? ('<' :: cs) = some lessThan ↔ ∀ c ∈ cs.head?, c ≠ '=' ∧ c ≠ '>' := by
  cases cs with
  | nil => simp [atStart?]
  | cons d ds =>
    by_cases hequal : d = '='
    · simp [atStart?, hequal]
    · by_cases hgreater : d = '>'
      · simp [atStart?, hgreater]
      · simp [atStart?, hequal, hgreater]

theorem atStart?_eq_greaterThan_iff {cs : List Char} :
    atStart? ('>' :: cs) = some greaterThan ↔ ∀ c ∈ cs.head?, c ≠ '=' := by
  cases cs with
  | nil => simp [atStart?]
  | cons d ds =>
    by_cases hequal : d = '='
    · simp [atStart?, hequal]
    · simp [atStart?, hequal]

/-- A symbol stays the longest one if a blank follows it, or what followed before. -/
theorem atStart?_of_head {symbol : Symbol} {rest spaced : List Char}
    (h : atStart? (symbol.chars ++ rest) = some symbol)
    (hhead : ∀ c ∈ spaced.head?, isBlank c = true ∨ c ∈ rest.head?) :
    atStart? (symbol.chars ++ spaced) = some symbol := by
  -- Only two symbols start longer ones.
  cases symbol with
  | lessThan =>
    refine atStart?_eq_lessThan_iff.2 fun c hc => ?_
    rcases hhead c hc with hblank | hsame
    · constructor <;> (rintro rfl; cases hblank)
    · exact atStart?_eq_lessThan_iff.1 h c hsame
  | greaterThan =>
    refine atStart?_eq_greaterThan_iff.2 fun c hc => ?_
    rcases hhead c hc with hblank | hsame
    · rintro rfl
      cases hblank
    · exact atStart?_eq_greaterThan_iff.1 h c hsame
  | _ => rfl

end Symbol

/-! ## Names -/

theorem startsName_of_isLetter {c : Char} (h : Numeral.IsLetter c) : StartsName c := by
  have hletter := h.isSuffixLetter
  simp only [Parser.isSuffixLetter, Bool.and_eq_true] at hletter
  exact startsName_of_isAlpha hletter.1.1

/-- A run of identifier characters that ends somewhere still ends there. -/
theorem Spaced.takeWhile_eq {blanks rest spaced : List Char} (hblanks : AllBlank blanks)
    (h : Spaced blanks rest spaced) {run : List Char}
    (hrun : ((run ++ rest).takeWhile isIdentifierChar).length = run.length) :
    (run ++ rest).takeWhile isIdentifierChar = run ∧
      (run ++ spaced).takeWhile isIdentifierChar = run := by
  have htake : (run ++ rest).takeWhile isIdentifierChar = run :=
    eq_of_isPrefix_append (List.takeWhile_prefix _) hrun
  have hall : ∀ c ∈ run, isIdentifierChar c = true := by
    intro c hc
    rw [← htake] at hc
    exact List.mem_takeWhile_imp hc
  refine ⟨htake, takeWhile_isIdentifierChar hall fun c hc => ?_⟩
  rcases h.head hblanks c hc with hblank | hsame
  · exact not_isIdentifierChar_of_isBlank hblank
  -- A character that goes on with the run would have been taken.
  · obtain ⟨tail, rfl⟩ : ∃ tail, rest = c :: tail := List.head?_eq_some_iff.1 hsame
    rw [List.takeWhile_append_of_pos hall] at htake
    by_contra hc
    rw [Bool.not_eq_false] at hc
    rw [List.takeWhile_cons_of_pos hc] at htake
    simp at htake

/-! ## Numbers -/

theorem not_isBlank_of_digit {c : Char} (h : c.isDigit = true) : isBlank c = false :=
  (Lexeme.atStart_of_digit h []).1

theorem IsNumber.not_isBlank {number : List Char} (h : IsNumber number) :
    ∀ c ∈ number, isBlank c = false := by
  obtain ⟨whole, fraction, exponent, power, rfl, hwhole, hfraction, hexponent⟩ := h
  have hdigits : ∀ digits, IsDigits digits → ∀ c ∈ digits, isBlank c = false :=
    fun digits hdigits c hc => not_isBlank_of_digit (hdigits.2 c hc)
  intro c hc
  rw [List.mem_append, List.mem_append] at hc
  -- Each part is digits, but for the point, the mark and the sign.
  rcases hc with hc | hc | hc
  · exact hdigits whole hwhole c hc
  · rcases hfraction with rfl | ⟨digits, rfl, hfraction⟩
    · cases hc
    · rcases List.mem_cons.1 hc with rfl | hc
      · decide
      · exact hdigits digits hfraction c hc
  · rcases hexponent with ⟨rfl, -⟩ | ⟨mark, sign, digits, negative, rfl, hmark, hsign, hexp, -⟩
    · cases hc
    · rw [List.mem_cons, List.mem_append] at hc
      rcases hc with rfl | hc | hc
      · rcases hmark with rfl | rfl <;> decide
      · rcases hsign with ⟨rfl, -⟩ | ⟨rfl, -⟩ | ⟨rfl, -⟩
        · cases hc
        · rw [List.mem_singleton.1 hc]
          decide
        · rw [List.mem_singleton.1 hc]
          decide
      · exact hdigits digits hexp c hc

namespace Numeral

theorem suffixOf_nil (number : List Char) : suffixOf number [] = [] := by
  unfold suffixOf
  split <;> rfl

theorem suffixOf_eq_self {number run : List Char} (h : suffixOf number run ≠ []) :
    suffixOf number run = run := by
  unfold suffixOf at h ⊢
  split
  · rfl
  · next hnot => exact absurd (if_neg hnot) h

/-- No run that starts with anything but a letter is a suffix. -/
theorem suffixOf_cons {c : Char} (hc : ¬ StartsName c) (number run : List Char) :
    suffixOf number (c :: run) = [] := by
  rcases suffixOf_suits number (c :: run) with hnil | hsuits
  · exact hnil
  · by_contra hne
    rw [suffixOf_eq_self hne] at hsuits
    have hletter : IsLetter c := by
      rcases hsuits with hreal | ⟨-, hinteger⟩
      · exact isLetter_of_mem_suffix (.inl hreal) c List.mem_cons_self
      · exact isLetter_of_mem_suffix (.inr hinteger) c List.mem_cons_self
    exact hc (startsName_of_isLetter hletter)

end Numeral

namespace Spaced

open Numeral (NumberAt suffixOf suffixOf_nil suffixOf_eq_self suffixOf_cons)

variable {blanks rest spaced number suffix : List Char}

/-- If the run in front is no suffix, there is none with blanks put in. A run that begins like a
    suffix is a name, which has only one lexeme. -/
theorem suffixOf_eq_nil (hblanks : AllBlank blanks) (h : Spaced blanks rest spaced)
    (hnone : suffixOf number (rest.takeWhile isIdentifierChar) = []) :
    suffixOf number (spaced.takeWhile isIdentifierChar) = [] := by
  -- Blanks end the run where they stand, and a lexeme that starts a name is the whole run.
  cases h with
  | here =>
    cases blanks with
    | nil => exact hnone
    | cons b bs =>
      have hb := not_isIdentifierChar_of_isBlank (hblanks b List.mem_cons_self)
      rw [List.cons_append, List.takeWhile_cons_of_neg (by simp [hb])]
      exact suffixOf_nil number
  | @blank c rest spaced hc =>
    rw [List.takeWhile_cons_of_neg (by simp [not_isIdentifierChar_of_isBlank hc])]
    exact suffixOf_nil number
  | @lexeme c run rest spaced hc hlength h =>
    by_cases hstart : StartsName c
    · rw [Lexeme.atStart_of_startsName hstart, Lexeme.word, ← List.cons_append] at hlength
      obtain ⟨hrun, hrun'⟩ := h.takeWhile_eq hblanks hlength
      rw [hrun] at hnone
      rw [hrun']
      exact hnone
    · rw [List.cons_append, List.takeWhile_cons]
      split
      · exact suffixOf_cons hstart number _
      · exact suffixOf_nil number

/-- The longest number stays the longest, with the same suffix. -/
theorem numberAt (hblanks : AllBlank blanks) (h : Spaced blanks rest spaced)
    (hnumber : NumberAt (number ++ (suffix ++ rest)) number suffix rest) :
    NumberAt (number ++ (suffix ++ spaced)) number suffix spaced where
  text_eq := rfl
  isNumber := hnumber.isNumber
  longest other hother hfront := by
    rw [← List.append_assoc] at hfront
    apply hnumber.longest other hother
    rw [← List.append_assoc]
    exact h.isPrefix hblanks hother.not_isBlank hfront
  suffix_eq := by
    have hsuffix := hnumber.suffix_eq
    by_cases hnil : suffix = []
    · subst hnil
      exact (h.suffixOf_eq_nil hblanks hsuffix.symm).symm
    -- The suffix is the whole run, which ends where it did.
    · have hself := suffixOf_eq_self (fun hempty => hnil (hsuffix.trans hempty))
      have hrun := hsuffix.trans hself
      rw [(h.takeWhile_eq hblanks (congrArg List.length hrun.symm)).2]
      rwa [← hrun] at hsuffix

end Spaced

/-! ## Numerals and names -/

namespace Lexeme

theorem isNumeral_numeral {c : Char} (hc : c.isDigit = true) (cs : List Char) :
    (⟨(numeral (c :: cs)).kind, (numeral (c :: cs)).value, .start⟩ : Token).IsNumeral
      (Numeral.atStart (c :: cs)).number (Numeral.atStart (c :: cs)).suffix :=
  Numeral.isNumeral_atStart hc cs rfl rfl

/-- The lexeme of a numeral depends on its number and its suffix only. -/
theorem numeral_congr {c : Char} (hc : c.isDigit = true) (cs ds : List Char)
    (hnumber : (Numeral.atStart (c :: ds)).number = (Numeral.atStart (c :: cs)).number)
    (hsuffix : (Numeral.atStart (c :: ds)).suffix = (Numeral.atStart (c :: cs)).suffix) :
    numeral (c :: ds) = numeral (c :: cs) := by
  have htoken := isNumeral_numeral hc ds
  rw [hnumber, hsuffix] at htoken
  have hkind : (numeral (c :: ds)).kind = (numeral (c :: cs)).kind :=
    htoken.kind.trans (isNumeral_numeral hc cs).kind.symm
  have hchars : (Numeral.atStart (c :: ds)).chars = (Numeral.atStart (c :: cs)).chars := by
    rw [Numeral.chars, Numeral.chars, hnumber, hsuffix]
  unfold numeral at hkind ⊢
  dsimp only at hkind ⊢
  rw [hkind, hchars]

end Lexeme

namespace Spaced

variable {blanks rest spaced run : List Char} {c : Char}

/-- A numeral stays the same. -/
theorem numeral_eq (hblanks : AllBlank blanks) (h : Spaced blanks rest spaced)
    (hc : c.isDigit = true)
    (hlength : (Lexeme.numeral (c :: (run ++ rest))).length = (c :: run).length) :
    Lexeme.numeral (c :: (run ++ spaced)) = Lexeme.numeral (c :: (run ++ rest)) := by
  have hnumber := Numeral.numberAt_atStart hc (run ++ rest)
  have hcongr := Lexeme.numeral_congr hc (run ++ rest)
  have hchars : (Numeral.atStart (c :: (run ++ rest))).chars = c :: run :=
    eq_of_isPrefix_append (Numeral.chars_atStart_isPrefix (c :: run ++ rest)) hlength
  have hrest : (c :: (run ++ rest)).drop (c :: run).length = rest := List.drop_left
  rw [hchars, hrest] at hnumber
  generalize Numeral.atStart (c :: (run ++ rest)) = n at hnumber hcongr hchars
  -- The numeral is the whole run, so both texts are its parts with something behind.
  have htext : ∀ after, c :: (run ++ after) = n.number ++ (n.suffix ++ after) := by
    intro after
    rw [← List.append_assoc, ← Numeral.chars, hchars, List.cons_append]
  rw [htext rest] at hnumber
  have hspaced := h.numberAt hblanks hnumber
  rw [← htext spaced] at hspaced
  -- There is only one number in front of a text, and one suffix behind it.
  obtain ⟨hsame, hsame'⟩ := hspaced.unique (Numeral.numberAt_atStart hc (run ++ spaced))
  exact hcongr _ hsame hsame'

/-- A name stays the same. -/
theorem word_eq (hblanks : AllBlank blanks) (h : Spaced blanks rest spaced)
    (hlength : (Lexeme.word (c :: (run ++ rest))).length = (c :: run).length) :
    Lexeme.word (c :: (run ++ spaced)) = Lexeme.word (c :: (run ++ rest)) := by
  rw [Lexeme.word, ← List.cons_append] at hlength
  obtain ⟨hrun, hrun'⟩ := h.takeWhile_eq hblanks hlength
  rw [List.cons_append] at hrun hrun'
  rw [Lexeme.word, Lexeme.word, hrun, hrun']

end Spaced

/-! ## Quoted literals -/

namespace Lexeme

variable {rest run : List Char}

/-- A quoted text that is read as some characters is read so whatever follows these. -/
theorem readQuoted_of_length {mark : Char} {value after : List Char}
    (h : Text.readQuoted mark (run ++ rest) = some (value, after))
    (hlength : 1 + ((run ++ rest).length - after.length) = 1 + run.length) :
    after = rest ∧ ∀ other, Text.readQuoted mark (run ++ other) = some (value, other) := by
  obtain ⟨read, hread, hother⟩ := Text.exists_of_readQuoted h
  have hsame : run.length = read.length := by
    rw [hread, List.length_append] at hlength
    omega
  obtain ⟨rfl, rfl⟩ := List.append_inj hread hsame
  exact ⟨rfl, hother⟩

/-- A string literal stays the same, whatever follows it. -/
theorem string_eq (hlength : (string (run ++ rest)).length = 1 + run.length)
    (hvalid : (string (run ++ rest)).kind ≠ .invalid) (other : List Char) :
    string (run ++ other) = string (run ++ rest) := by
  unfold string at hlength hvalid ⊢
  cases hread : Text.readQuoted '"' (run ++ rest) with
  | none =>
    rw [hread] at hvalid
    exact absurd rfl hvalid
  | some outcome =>
    obtain ⟨value, after⟩ := outcome
    rw [hread] at hlength
    obtain ⟨rfl, hother⟩ := readQuoted_of_length hread hlength
    rw [hother other]
    simp

/-- A character literal stays the same, whatever follows it. -/
theorem character_eq (hlength : (character (run ++ rest)).length = 1 + run.length)
    (hvalid : (character (run ++ rest)).kind ≠ .invalid) (other : List Char) :
    character (run ++ other) = character (run ++ rest) := by
  unfold character at hlength hvalid ⊢
  -- The literal is closed within the run, for it is as long as the run and valid.
  cases hread : Text.readQuoted '\'' (run ++ rest) with
  | none =>
    rw [hread] at hvalid
    exact absurd rfl hvalid
  | some outcome =>
    obtain ⟨value, after⟩ := outcome
    rw [hread] at hlength hvalid
    dsimp only at hlength hvalid ⊢
    split at hvalid
    · next hone =>
      rw [if_pos hone] at hlength
      obtain ⟨rfl, hother⟩ := readQuoted_of_length hread hlength
      rw [hother other]
      simp [hone]
    · exact absurd rfl hvalid

end Lexeme

/-! ## Lexemes and words -/

/-- A lexeme that is valid stays the same if blanks are put in behind it. -/
theorem Spaced.atStart_eq {blanks rest spaced run : List Char} {c : Char}
    (hblanks : AllBlank blanks) (h : Spaced blanks rest spaced)
    (hlength : (Lexeme.atStart c (run ++ rest)).length = (c :: run).length)
    (hvalid : (Lexeme.atStart c (run ++ rest)).kind ≠ .invalid) :
    Lexeme.atStart c (run ++ spaced) = Lexeme.atStart c (run ++ rest) := by
  unfold Lexeme.atStart at hlength hvalid ⊢
  cases hsymbol : Symbol.atStart? (c :: (run ++ rest)) with
  | some symbol =>
    rw [hsymbol] at hlength
    -- A symbol does not depend on what follows, unless that could make it longer.
    have hfront : symbol.chars <+: c :: run ++ rest := Symbol.isPrefix_of_atStart? hsymbol
    have hchars := eq_of_isPrefix_append hfront hlength
    rw [← List.cons_append, ← hchars] at hsymbol
    have hspaced := Symbol.atStart?_of_head hsymbol (h.head hblanks)
    rw [hchars, List.cons_append] at hspaced
    rw [hspaced]
  | none =>
    -- No symbol is in front in either text, and the other kinds are told by the first character.
    have hnone : Symbol.atStart? (c :: (run ++ spaced)) = none :=
      Symbol.atStart?_eq_none_iff.2 (Symbol.atStart?_eq_none_iff.1 hsymbol)
    rw [hsymbol] at hlength hvalid
    rw [hnone]
    dsimp only at hlength hvalid ⊢
    rw [List.length_cons, Nat.add_comm] at hlength
    split_ifs at hlength hvalid ⊢
    · exact Lexeme.string_eq hlength hvalid spaced
    · exact Lexeme.character_eq hlength hvalid spaced
    · next hc => exact h.numeral_eq hblanks hc (hlength.trans (Nat.add_comm _ _))
    · exact h.word_eq hblanks (hlength.trans (Nat.add_comm _ _))
    · rfl

/-- Blanks that are put in change no words. -/
theorem Spaced.scan_eq {blanks cs ds : List Char} (hblanks : AllBlank blanks)
    (h : Spaced blanks cs ds) (hvalid : ∀ word ∈ Word.scan cs, word.kind ≠ .invalid) :
    Word.scan ds = Word.scan cs := by
  -- Induction on where the blanks are put in: here, behind a blank, or behind a lexeme.
  induction h with
  | here rest => exact Word.scan_blanks hblanks rest
  | blank hblank h ih =>
    rw [Word.scan_blank hblank] at hvalid ⊢
    rw [Word.scan_blank hblank, ih hvalid]
  | @lexeme c run rest spaced hblank hlength h ih =>
    have hscan : ∀ after, Lexeme.atStart c (run ++ after) = Lexeme.atStart c (run ++ rest) →
        Word.scan (c :: run ++ after) = ⟨(Lexeme.atStart c (run ++ rest)).kind,
          (Lexeme.atStart c (run ++ rest)).value⟩ :: Word.scan after := by
      intro after hsame
      apply Word.scan_lexeme hblank
      rw [hsame, ← hlength]
    rw [hscan rest rfl] at hvalid ⊢
    have hword := hvalid _ List.mem_cons_self
    rw [hscan spaced (h.atStart_eq hblanks hlength hword),
      ih fun word hmem => hvalid word (List.mem_cons_of_mem _ hmem)]

/-! ## What is passed -/

/-- The first characters of a text are blanks and whole lexemes, so blanks that are put in
    somewhere behind them are put in the text. -/
structure Passed (text passed after : List Char) : Prop where
  text_eq : text = passed ++ after
  spaced {blanks spaced : List Char} (h : Spaced blanks after spaced) :
    Spaced blanks text (passed ++ spaced)

namespace Passed

theorem nil (text : List Char) : Passed text [] text := ⟨rfl, fun h => h⟩

theorem trans {text passed rest passed' after : List Char} (h : Passed text passed rest)
    (h' : Passed rest passed' after) : Passed text (passed ++ passed') after where
  text_eq := by rw [List.append_assoc, ← h'.text_eq, h.text_eq]
  spaced hafter := by
    rw [List.append_assoc]
    exact h.spaced (h'.spaced hafter)

theorem of_allBlank {run : List Char} (h : AllBlank run) (after : List Char) :
    Passed (run ++ after) run after :=
  ⟨rfl, fun hafter => hafter.append_blanks h⟩

theorem of_holds {piece : Cursor.Piece} {before after : List Char} {token : Token}
    (h : piece.Holds before after token) : Passed (piece.chars ++ after) piece.chars after where
  text_eq := rfl
  spaced hafter := by
    obtain ⟨c, cs, hslice, hblank, hlength⟩ := h.lexeme
    obtain ⟨run, hrun⟩ : ∃ run, piece.slice = c :: run := by
      cases hpiece : piece.slice with
      | nil => exact absurd hpiece h.nonempty
      | cons d run =>
        rw [hpiece] at hslice
        exact ⟨run, by rw [(List.cons.inj hslice).1]⟩
    rw [hrun] at hslice hlength
    obtain rfl := (List.cons.inj hslice).2
    rw [Cursor.Piece.chars, List.append_assoc, List.append_assoc, hrun]
    exact .append_blanks h.blank (.lexeme hblank hlength hafter)

end Passed

namespace Cursor

/-- What calls pass are blanks and whole lexemes. -/
theorem exists_passed (n : Nat) (before rest : List Char) :
    ∃ passed after, Passed rest passed after ∧
      (behind before rest).afterCalls n = behind (before ++ passed) after := by
  induction n generalizing before rest with
  | zero => exact ⟨[], rest, .nil rest, by rw [List.append_nil]; rfl⟩
  | succ n ih =>
    by_cases hblank : AllBlank rest
    · obtain ⟨passed, after, hpassed, hcalls⟩ := ih (before ++ rest) []
      have hrest := Passed.of_allBlank hblank []
      rw [List.append_nil] at hrest
      refine ⟨rest ++ passed, after, hrest.trans hpassed, ?_⟩
      rw [afterCalls, next_behind_of_blank before hblank, hcalls, List.append_assoc]
    · obtain ⟨piece, rest, token, rfl, hpiece, hnext⟩ := exists_piece before hblank
      obtain ⟨passed, after, hpassed, hcalls⟩ := ih (before ++ piece.chars) rest
      refine ⟨piece.chars ++ passed, after, (Passed.of_holds hpiece).trans hpassed, ?_⟩
      rw [afterCalls, hnext, hcalls, List.append_assoc]

theorem place_next (cursor : Cursor) : cursor.next.1.place = cursor.skipBlanks.place := by
  unfold next
  dsimp only
  split <;> rfl

/-- Right before a token no more than blanks have been passed since the last call. -/
theorem exists_passed_before (n : Nat) (before rest : List Char) :
    ∃ passed after, Passed rest passed after ∧
      ((behind before rest).token n).place = Place.behind (before ++ passed) := by
  obtain ⟨passed, after, hpassed, hcalls⟩ := exists_passed n before rest
  have hsplit : after.takeWhile isBlank ++ Text.skipBlanks after = after :=
    List.takeWhile_append_dropWhile
  have hblanks := Passed.of_allBlank (List.all_eq_true.1 List.all_takeWhile :
    AllBlank (after.takeWhile isBlank)) (Text.skipBlanks after)
  rw [hsplit] at hblanks
  refine ⟨_, _, hpassed.trans hblanks, ?_⟩
  rw [token, place_next, hcalls, skipBlanks_behind, List.append_assoc]
  rfl

/-- Some call finds the end of the text. -/
theorem exists_token_end (text : String) :
    ∃ n, (start text.toList).token n = .endOfText (Place.behind text.toList) := by
  obtain ⟨pieces, trailing, hpasses⟩ := exists_pieces [] text.toList
  exact ⟨pieces.length, congrArg Prod.fst (hpasses.finish pieces.length (Nat.le_refl _))⟩

/-- Each token of a text is that of a call. -/
theorem exists_token_of_mem {text : String} {token : Token} (h : token ∈ Token.ofText text) :
    ∃ n, (start text.toList).token n = token := by
  obtain ⟨pieces, trailing, hpasses⟩ := exists_pieces [] text.toList
  have hscan : (start text.toList).scan = _ := hpasses.scan
  rw [Token.ofText, hscan] at h
  rcases List.mem_append.1 h with h | h
  · obtain ⟨n, -, hn⟩ := List.mem_map.1 h
    exact ⟨n, hn⟩
  · obtain ⟨n, hend⟩ := exists_token_end text
    exact ⟨n, hend.trans (List.mem_singleton.1 h).symm⟩

end Cursor

/-! ## Places between tokens -/

/-- A place of a text at which no token is split: its start or its end, right before a token, or
    right behind the token of a call. -/
inductive IsGap (text : String) : Nat → Prop where
  | start : IsGap text 0
  | finish : IsGap text text.toList.length
  | before {token : Token} (h : token ∈ Token.ofText text) : IsGap text token.place.position
  | behind (n : Nat) :
    IsGap text ((Cursor.start text.toList).afterCalls (n + 1)).place.position

/-- A text with another one put in at a place. -/
def insertAt (text : String) (position : Nat) (more : String) : String :=
  String.ofList (text.toList.take position ++ (more.toList ++ text.toList.drop position))

namespace IsGap

variable {text : String} {position : Nat}

theorem exists_passed (h : IsGap text position) :
    ∃ passed after, Passed text.toList passed after ∧ position = passed.length := by
  have htoken : ∀ n, ∃ passed after, Passed text.toList passed after ∧
      ((Cursor.start text.toList).token n).place.position = passed.length := by
    intro n
    obtain ⟨passed, after, hpassed, hplace⟩ := Cursor.exists_passed_before n [] text.toList
    exact ⟨passed, after, hpassed, congrArg Place.position hplace⟩
  cases h with
  | start => exact ⟨[], text.toList, .nil _, rfl⟩
  | finish =>
    -- The token of the end stands there.
    obtain ⟨n, hend⟩ := Cursor.exists_token_end text
    obtain ⟨passed, after, hpassed, hposition⟩ := htoken n
    rw [hend] at hposition
    exact ⟨passed, after, hpassed, hposition⟩
  | before hmem =>
    obtain ⟨n, rfl⟩ := Cursor.exists_token_of_mem hmem
    exact htoken n
  | behind n =>
    obtain ⟨passed, after, hpassed, hcalls⟩ := Cursor.exists_passed (n + 1) [] text.toList
    exact ⟨passed, after, hpassed, congrArg (fun cursor => cursor.place.position) hcalls⟩

theorem isSpaced (h : IsGap text position) (blanks : String) :
    Spaced blanks.toList text.toList (insertAt text position blanks).toList := by
  obtain ⟨passed, after, hpassed, rfl⟩ := h.exists_passed
  have hhere : Spaced blanks.toList after (blanks.toList ++ after) := .here after
  have hspaced := hpassed.spaced hhere
  rw [insertAt, String.toList_ofList]
  rw [hpassed.text_eq] at hspaced ⊢
  rwa [List.take_left, List.drop_left]

end IsGap

/-! ## Words and trees -/

/-- What a text is read as depends on its words only. -/
theorem Expr.ofText_of_scan_eq {text other : String} {tree : Expr}
    (hscan : Word.scan other.toList = Word.scan text.toList) (h : Expr.ofText text = .ok tree) :
    Expr.ofText other = .ok tree := by
  obtain ⟨phrase, n, hderives, hn, hbuild, -⟩ := Expr.ofTextWith_sound h
  rw [← hscan] at hderives
  exact (Expr.ofText_eq_ok_iff hderives tree).2 ⟨hn, hbuild⟩

/-- **Blanks between tokens mean nothing.** If no token of a text is invalid, blanks that are put in
    at its start or its end, or right before or behind a token, change neither the kind nor the
    value of any token. The text is then read as a tree just if it was read as that tree before,
    whichever units are allowed. -/
theorem blanks_insignificant {text blanks : String} {position : Nat}
    (hvalid : ∀ token ∈ Token.ofText text, token.kind ≠ .invalid) (hgap : IsGap text position)
    (hblanks : ∀ c ∈ blanks.toList, isBlank c = true) :
    Word.ofText (insertAt text position blanks) = Word.ofText text ∧
      ∀ (allowed : String → Bool) (tree : Expr),
        Expr.ofTextWith allowed (insertAt text position blanks) = .ok tree ↔
          Expr.ofTextWith allowed text = .ok tree := by
  have hwords : ∀ word ∈ Word.scan text.toList, word.kind ≠ .invalid := by
    intro word hword
    have hmem : word ∈ Word.ofText text := by
      rw [Word.ofText_eq]
      exact List.mem_append_left _ hword
    obtain ⟨token, htoken, rfl⟩ := List.mem_map.1 hmem
    exact hvalid token htoken
  have hscan := (hgap.isSpaced blanks).scan_eq hblanks hwords
  refine ⟨by rw [Word.ofText_eq, Word.ofText_eq, hscan], fun allowed tree => ?_⟩
  rw [Expr.ofTextWith_eq_ok_iff, Expr.ofTextWith_eq_ok_iff]
  exact and_congr_left fun _ =>
    ⟨Expr.ofText_of_scan_eq hscan.symm, Expr.ofText_of_scan_eq hscan⟩

/-- Blanks between a number and its unit. -/
theorem blanks_insignificant_unit :
    (∀ token ∈ Token.ofText "5km<=x", token.kind ≠ .invalid) ∧ IsGap "5km<=x" 1 ∧
      (∀ c ∈ "\t\n".toList, isBlank c = true) ∧
      insertAt "5km<=x" 1 "\t\n" = "5\t\nkm<=x" ∧
      Word.ofText "5\t\nkm<=x" = Word.ofText "5km<=x" ∧
      ∀ (allowed : String → Bool) (tree : Expr),
        Expr.ofTextWith allowed "5\t\nkm<=x" = .ok tree ↔
          Expr.ofTextWith allowed "5km<=x" = .ok tree := by
  have htokens : (Token.ofText "5km<=x").map Token.kind =
      [.intLiteral, .identifier, .symbol .lessThanOrEqual, .identifier, .eof] := by cbv
  have hvalid : ∀ token ∈ Token.ofText "5km<=x", token.kind ≠ .invalid := by
    intro token htoken
    have hkind := List.mem_map_of_mem (f := Token.kind) htoken
    rw [htokens] at hkind
    intro h
    rw [h] at hkind
    simp at hkind
  have hposition : ((Cursor.start "5km<=x".toList).afterCalls (0 + 1)).place.position = 1 := rfl
  -- The first token is the number, so behind it blanks may be put in.
  have hgap : IsGap "5km<=x" 1 := hposition ▸ .behind 0
  have hblanks : ∀ c ∈ "\t\n".toList, isBlank c = true := by
    have hlist : "\t\n".toList = ['\t', '\n'] := rfl
    rw [hlist]
    simp only [List.forall_mem_cons]
    exact ⟨by decide, by decide, by simp⟩
  have hinsert : insertAt "5km<=x" 1 "\t\n" = "5\t\nkm<=x" := rfl
  have hmain := blanks_insignificant hvalid hgap hblanks
  rw [hinsert] at hmain
  exact ⟨hvalid, hgap, hblanks, hinsert, hmain⟩

end UnitCheck
