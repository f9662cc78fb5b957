import Mathlib
import UnitCheck.Proofs.Lexing
import UnitCheck.Proofs.Numeral
import UnitCheck.Proofs.Quotation

/-!
  Written words.

  `Reads cs words` says that characters are these words wherever no identifier character and no
  point follows them. Names, numerals and quoted texts are read as one word; symbols and blanks
  hold no matter what follows, so texts that are put together with them are read piece by piece.
-/

namespace UnitCheck

open Number (forall_char_lt forall_digit)
open Text (isBlank)

/-! ## Scanning one word -/

theorem Word.scan_nil : Word.scan [] = [] := Word.scan_of_blank rfl

/-- A blank in front of a text is no part of its words. -/
theorem Word.scan_blank {c : Char} (hc : isBlank c = true) (cs : List Char) :
    Word.scan (c :: cs) = Word.scan cs := by
  have hskip : Text.skipBlanks (c :: cs) = Text.skipBlanks cs := by
    rw [Text.skipBlanks_cons, if_pos hc]
  cases h : Text.skipBlanks cs with
  | nil => rw [Word.scan_of_blank h, Word.scan_of_blank (hskip.trans h)]
  | cons d rest => rw [Word.scan_of_cons h, Word.scan_of_cons (hskip.trans h)]

theorem Word.scan_blanks {blanks : List Char} (h : Text.AllBlank blanks) (cs : List Char) :
    Word.scan (blanks ++ cs) = Word.scan cs := by
  induction blanks with
  | nil => rfl
  | cons c blanks ih =>
    rw [List.cons_append, scan_blank (h c List.mem_cons_self),
      ih fun d hd => h d (List.mem_cons_of_mem _ hd)]

/-- The lexeme at the start of a text is its first word. -/
theorem Word.scan_lexeme {c : Char} {cs rest : List Char} {kind : Token.Kind} {value : String}
    (hblank : isBlank c = false)
    (h : Lexeme.atStart c (cs ++ rest) = ⟨kind, value, (c :: cs).length⟩) :
    Word.scan (c :: cs ++ rest) = ⟨kind, value⟩ :: Word.scan rest := by
  have hskip : Text.skipBlanks (c :: cs ++ rest) = c :: (cs ++ rest) := by
    rw [List.cons_append, Text.skipBlanks_cons, if_neg (by simp [hblank])]
  rw [Word.scan_of_cons hskip, h]
  dsimp only
  rw [← List.cons_append, List.drop_left]

namespace Symbol

/-- The word that a symbol is. -/
def word (symbol : Symbol) : Word := ⟨.symbol symbol, String.ofList symbol.chars⟩

theorem kind_openParen : openParen.word.kind = .symbol .openParen := rfl

theorem kind_closeParen : closeParen.word.kind = .symbol .closeParen := rfl

/-- A symbol is read where no longer one starts. -/
theorem scan {symbol : Symbol} {rest : List Char}
    (h : Symbol.atStart? (symbol.chars ++ rest) = some symbol) :
    Word.scan (symbol.chars ++ rest) = symbol.word :: Word.scan rest := by
  have hchars : ∃ c cs, symbol.chars = c :: cs ∧ isBlank c = false := by
    cases symbol <;> exact ⟨_, _, rfl, by decide⟩
  obtain ⟨c, cs, hchars, hblank⟩ := hchars
  have hlexeme : Lexeme.atStart c (cs ++ rest) =
      ⟨.symbol symbol, String.ofList symbol.chars, (c :: cs).length⟩ := by
    rw [hchars, List.cons_append] at h
    rw [Lexeme.atStart, h, ← hchars]
  rw [hchars, Word.scan_lexeme hblank hlexeme]
  rfl

end Symbol

/-- A name is read where it ends. -/
theorem IsName.scan {run rest : List Char} (h : IsName run)
    (hrest : ∀ c ∈ rest.head?, isIdentifierChar c = false) :
    Word.scan (run ++ rest) =
      ⟨Lexeme.wordKind (String.ofList run), String.ofList run⟩ :: Word.scan rest := by
  obtain ⟨⟨c, cs, rfl, hstart⟩, hrun⟩ := h
  apply Word.scan_lexeme hstart.not_blank
  rw [Lexeme.atStart_of_startsName hstart, Lexeme.word, ← List.cons_append,
    takeWhile_isIdentifierChar hrun hrest]

theorem startsName_of_isAlpha {c : Char} (h : c.isAlpha = true) : StartsName c := by
  have hbound : c.toNat < 128 := by
    simp only [Char.isAlpha, Char.isUpper, Char.isLower, Bool.or_eq_true, Bool.and_eq_true,
      decide_eq_true_eq] at h
    rcases h with ⟨-, h⟩ | ⟨-, h⟩
    · exact Nat.lt_of_le_of_lt (show c.toNat ≤ 90 from h) (by decide)
    · exact Nat.lt_of_le_of_lt (show c.toNat ≤ 122 from h) (by decide)
  have hall : isIdentifierStart c = true ∧ isBlank c = false ∧ c ∉ symbolChars ∧ c ≠ '"' ∧
      c ≠ '\'' ∧ c.isDigit = false := by
    refine forall_char_lt (P := fun c => c.isAlpha = true → isIdentifierStart c = true ∧
      isBlank c = false ∧ c ∉ symbolChars ∧ c ≠ '"' ∧ c ≠ '\'' ∧ c.isDigit = false) ?_ hbound h
    decide +kernel
  obtain ⟨hstart, hblank, hsymbol, hquote, hmark, hdigit⟩ := hall
  exact ⟨hstart, hblank, hsymbol, hquote, hmark, hdigit⟩

theorem isName_of_letters {run : List Char} (hne : run ≠ []) (h : run.all Char.isAlpha = true) :
    IsName run := by
  have hstart : ∀ c ∈ run, StartsName c :=
    fun c hc => startsName_of_isAlpha (List.all_eq_true.1 h c hc)
  refine ⟨?_, fun c hc => isIdentifierChar_of_start (hstart c hc).start⟩
  cases run with
  | nil => exact absurd rfl hne
  | cons c cs => exact ⟨c, cs, rfl, hstart c List.mem_cons_self⟩

/-- A digit starts a numeral. -/
theorem Lexeme.atStart_of_digit {c : Char} (h : c.isDigit = true) (cs : List Char) :
    isBlank c = false ∧ Lexeme.atStart c cs = Lexeme.numeral (c :: cs) := by
  have hother : isBlank c = false ∧ c ∉ symbolChars ∧ c ≠ '"' ∧ c ≠ '\'' := by
    refine forall_digit (P := fun c =>
      isBlank c = false ∧ c ∉ symbolChars ∧ c ≠ '"' ∧ c ≠ '\'') ?_ h
    decide +kernel
  obtain ⟨hblank, hsymbol, hquote, hmark⟩ := hother
  refine ⟨hblank, ?_⟩
  unfold Lexeme.atStart
  rw [Symbol.atStart?_eq_none_iff.2 hsymbol]
  dsimp only
  rw [if_neg hquote, if_neg hmark, if_pos h]

/-! ## Words wherever they stand -/

/-- The characters are these words, whatever delimiter follows. -/
def Reads (cs : List Char) (words : List Word) : Prop :=
  ∀ rest, Delimited rest → Word.scan (cs ++ rest) = words ++ Word.scan rest

namespace Reads

variable {cs ds : List Char} {ws vs : List Word}

/-- They are the words of the characters alone. -/
theorem scan_eq (h : Reads cs ws) : Word.scan cs = ws := by
  have := h [] delimited_nil
  rwa [List.append_nil, Word.scan_nil, List.append_nil] at this

/-- A text whose first character is a delimiter follows. -/
theorem append {c : Char} (h : Reads cs ws) (hc : isIdentifierChar c = false) (hpoint : c ≠ '.')
    (h' : Reads (c :: ds) vs) : Reads (cs ++ c :: ds) (ws ++ vs) := by
  intro rest hrest
  rw [List.append_assoc, List.append_assoc, ← h' rest hrest]
  exact h _ (delimited_cons hc hpoint)

theorem space (h : Reads cs ws) : Reads (' ' :: cs) ws := by
  intro rest hrest
  rw [List.cons_append, Word.scan_blank Text.isBlank_space]
  exact h rest hrest

/-- A symbol that no longer symbol starts with comes first. -/
theorem symbol (symbol : Symbol) (h : Reads cs ws)
    (hsymbol : ∀ rest, Symbol.atStart? (symbol.chars ++ rest) = some symbol) :
    Reads (symbol.chars ++ cs) (symbol.word :: ws) := by
  intro rest hrest
  rw [List.append_assoc, Symbol.scan (hsymbol _), h rest hrest, List.cons_append]

end Reads

theorem reads_nil : Reads [] [] := fun _ _ => rfl

theorem IsName.reads {run : List Char} (h : IsName run) :
    Reads run [⟨Lexeme.wordKind (String.ofList run), String.ofList run⟩] :=
  fun _ hrest => h.scan fun c hc => (hrest c hc).1

theorem Numeral.Proper.exists_chars {n : Numeral} (h : n.Proper) :
    ∃ c cs, n.chars = c :: cs ∧ c.isDigit = true := by
  obtain ⟨hne, hdigits⟩ := h.whole
  cases hwhole : n.whole with
  | nil => exact absurd hwhole hne
  | cons c cs =>
    rw [hwhole] at hdigits
    exact ⟨c, cs ++ n.fraction ++ n.exponent ++ n.suffix, by simp [chars, number, hwhole],
      hdigits c List.mem_cons_self⟩

theorem Numeral.Proper.reads {n : Numeral} (h : n.Proper) :
    Reads n.chars [⟨if n.isReal then .realLiteral else .intLiteral, String.ofList n.chars⟩] := by
  intro rest hrest
  obtain ⟨c, cs, hchars, hdigit⟩ := h.exists_chars
  obtain ⟨hblank, hlexeme⟩ := Lexeme.atStart_of_digit hdigit (cs ++ rest)
  have hn := atStart_append h hrest
  rw [hchars]
  apply Word.scan_lexeme hblank
  rw [hlexeme, Lexeme.numeral, ← List.cons_append, ← hchars, hn]

/-! ## Quoted texts -/

theorem reads_string (cs : List Char) :
    Reads (Text.quote '"' cs) [⟨.stringLiteral, String.ofList (Text.reread cs)⟩] := by
  intro rest _
  have hread := Text.readQuoted_escape (.inl rfl) cs rest
  apply Word.scan_lexeme (by decide)
  rw [List.append_assoc, List.singleton_append]
  show Lexeme.string (Text.escape cs ++ '"' :: rest) = _
  rw [Lexeme.string, hread]
  simp only [List.length_append, List.length_cons, List.length_nil]
  congr 1
  omega

/-- Only a character that is read as one character is a character literal. -/
theorem reads_character (c : Char) :
    Reads (Text.quote '\'' [c])
      [if Text.isPlain c then ⟨.charLiteral, String.ofList [c]⟩
        else ⟨.invalid, (LexicalError.characterLength
          (String.ofList (Text.rereadChar c))).message⟩] := by
  intro rest _
  have hread := Text.readQuoted_escape (.inr rfl) [c] rest
  rw [Text.reread, List.flatMap_cons, List.flatMap_nil, List.append_nil] at hread
  have hlexeme : ∀ word : Word, Lexeme.character (Text.escape [c] ++ '\'' :: rest) =
      ⟨word.kind, word.value, (Text.quote '\'' [c]).length⟩ →
        Word.scan (Text.quote '\'' [c] ++ rest) = [word] ++ Word.scan rest := by
    intro word h
    apply Word.scan_lexeme (by decide)
    rw [List.append_assoc, List.singleton_append]
    exact h
  have hlength : 1 + ((Text.escape [c] ++ '\'' :: rest).length - rest.length) =
      (Text.quote '\'' [c]).length := by
    rw [Text.quote]
    simp only [List.length_append, List.length_cons, List.length_nil]
    omega
  -- The lexeme is a literal when one character was read, and else an error of the same length.
  apply hlexeme _
  rw [Lexeme.character, hread]
  dsimp only
  rw [hlength]
  cases hplain : Text.isPlain c with
  | true =>
    have hself : Text.rereadChar c = [c] := if_pos hplain
    rw [hself]
    rfl
  | false =>
    have hlong := Text.length_rereadChar hplain
    rw [if_neg (by omega)]
    rfl

end UnitCheck
