import UnitCheck.Proofs.Words

/-!
  How the words of a text look.

  `Lexed` lists the forms of the words that a text can have. Names are runs of identifier
  characters that start like a name (`IsName`); only the keywords and the names of types among
  them are no identifiers.
-/

namespace UnitCheck

open Text (isBlank)

/-! ## Symbols -/

/-- The characters that symbols start with. -/
def symbolChars : List Char := ['+', '-', '*', '/', '%', '=', '<', '>', '(', ')', ',', '.', '?']

theorem Symbol.atStart?_eq_none_iff {c : Char} {cs : List Char} :
    Symbol.atStart? (c :: cs) = none ↔ c ∉ symbolChars := by
  unfold Symbol.atStart?
  split
  · next h => cases h; simp [symbolChars]
  · next h => cases h; simp [symbolChars]
  · next h => cases h; simp [symbolChars]
  · next h =>
    cases h
    split <;> simp_all [symbolChars]
  · next h => cases h

/-! ## Names -/

/-- A character that starts a name, which is no blank, no symbol, no quote and no digit. -/
structure StartsName (c : Char) : Prop where
  start : isIdentifierStart c = true
  not_blank : isBlank c = false
  not_symbol : c ∉ symbolChars
  ne_quote : c ≠ '"'
  ne_mark : c ≠ '\''
  not_digit : c.isDigit = false

/-- A run of identifier characters that starts like a name. -/
def IsName (run : List Char) : Prop :=
  (∃ c cs, run = c :: cs ∧ StartsName c) ∧ ∀ c ∈ run, isIdentifierChar c = true

theorem isIdentifierChar_of_start {c : Char} (h : isIdentifierStart c = true) :
    isIdentifierChar c = true := by
  simp only [isIdentifierStart, isIdentifierChar, Text.isAlphanumeric, Bool.or_eq_true] at h ⊢
  rcases h with h | h
  · exact .inl (.inl h)
  · exact .inr h

/-- Where a name starts, the lexeme is the whole run of identifier characters. -/
theorem Lexeme.atStart_of_startsName {c : Char} (h : StartsName c) (cs : List Char) :
    Lexeme.atStart c cs = Lexeme.word (c :: cs) := by
  unfold Lexeme.atStart
  rw [Symbol.atStart?_eq_none_iff.2 h.not_symbol]
  dsimp only
  rw [if_neg h.ne_quote, if_neg h.ne_mark, if_neg (by simp [h.not_digit]), if_pos h.start]

/-! ## Words of a text -/

/-- The forms of the words of a text. -/
inductive Lexed : Word → Prop where
  | symbol (symbol : Symbol) : Lexed ⟨.symbol symbol, String.ofList symbol.chars⟩
  | string (value : List Char) : Lexed ⟨.stringLiteral, String.ofList value⟩
  | character (c : Char) : Lexed ⟨.charLiteral, String.ofList [c]⟩
  | numeral {c : Char} {cs : List Char} {kind : Token.Kind} (h : c.isDigit = true)
      (hkind : kind =
        if (Numeral.atStart (c :: cs)).isReal then .realLiteral else .intLiteral) :
      Lexed ⟨kind, String.ofList (Numeral.atStart (c :: cs)).chars⟩
  | name {run : List Char} {kind : Token.Kind} (h : IsName run)
      (hkind : kind = Lexeme.wordKind (String.ofList run)) : Lexed ⟨kind, String.ofList run⟩
  | invalid (error : LexicalError) : Lexed ⟨.invalid, error.message⟩

theorem lexed_string (cs : List Char) :
    Lexed ⟨(Lexeme.string cs).kind, (Lexeme.string cs).value⟩ := by
  unfold Lexeme.string
  split
  · exact .string _
  · exact .invalid .unterminatedString

theorem lexed_character (cs : List Char) :
    Lexed ⟨(Lexeme.character cs).kind, (Lexeme.character cs).value⟩ := by
  unfold Lexeme.character
  split
  · dsimp only
    split
    · next hlength =>
      obtain ⟨c, rfl⟩ := List.length_eq_one_iff.1 hlength
      exact .character c
    · exact .invalid (.characterLength _)
  · exact .invalid .unterminatedCharacter

/-- The lexeme at a character that is no blank has one of the forms. -/
theorem lexed_atStart {c : Char} {cs : List Char} (hblank : isBlank c = false) :
    Lexed ⟨(Lexeme.atStart c cs).kind, (Lexeme.atStart c cs).value⟩ := by
  unfold Lexeme.atStart
  split
  · exact .symbol _
  · next hsymbol =>
    split
    · exact lexed_string cs
    · next hquote =>
      split
      · exact lexed_character cs
      · next hmark =>
        split
        · next hdigit => exact .numeral hdigit rfl
        · next hdigit =>
          split
          -- All the other forms were ruled out, so a name starts here.
          · next hstart =>
            refine .name ⟨⟨c, cs.takeWhile isIdentifierChar, ?_, ?_⟩, ?_⟩ rfl
            · rw [List.takeWhile_cons, if_pos (isIdentifierChar_of_start hstart)]
            · exact ⟨hstart, hblank, Symbol.atStart?_eq_none_iff.1 hsymbol, hquote, hmark,
                by simpa using hdigit⟩
            · exact List.all_eq_true.1 List.all_takeWhile
          · exact .invalid (.unexpectedCharacter c)

theorem lexed_of_mem_scan {word : Word} {cs : List Char} (h : word ∈ Word.scan cs) :
    Lexed word := by
  fun_induction Word.scan cs with
  | case1 => cases h
  | case2 cs c rest heq lexeme ih =>
    rcases List.mem_cons.1 h with rfl | h
    · exact lexed_atStart (Text.not_isBlank_of_skipBlanks_eq_cons heq)
    · exact ih h

namespace Lexed

variable {word : Word}

/-- The word of a name is a keyword, the name of a type or an identifier. -/
theorem wordKind_cases (run : String) :
    (∃ keyword, Lexeme.wordKind run = .keyword keyword) ∨ Lexeme.wordKind run = .typeName ∨
      Lexeme.wordKind run = .identifier := by
  unfold Lexeme.wordKind
  split
  · exact .inl ⟨_, rfl⟩
  · split
    · exact .inr (.inl rfl)
    · exact .inr (.inr rfl)

/-- No word of a text is that of the end. -/
theorem kind_ne_eof (h : Lexed word) : word.kind ≠ .eof := by
  cases h with
  | numeral _ hkind =>
    rw [hkind]
    split <;> simp
  | @name run _ _ hkind =>
    rw [hkind]
    rcases wordKind_cases (String.ofList run) with ⟨_, h⟩ | h | h <;> simp [h]
  | _ => simp

/-- A character literal holds one character. -/
theorem eq_character (h : Lexed word) (hkind : word.kind = .charLiteral) :
    ∃ c, word.value = String.ofList [c] := by
  cases h with
  | character c => exact ⟨c, rfl⟩
  | numeral _ h =>
    refine absurd (h.symm.trans hkind) ?_
    split <;> simp
  | @name run _ _ h =>
    refine absurd (h.symm.trans hkind) ?_
    rcases wordKind_cases (String.ofList run) with ⟨_, h⟩ | h | h <;> simp [h]
  | _ => cases hkind

/-- Only a number can fail to convert. -/
theorem isNumber_of_error (h : Lexed word) {cause : SyntaxError}
    (herror : word.literal? = some (.error cause)) :
    word.kind = .intLiteral ∨ word.kind = .realLiteral := by
  unfold Word.literal? Parser.literalValue? at herror
  split at herror
  · next hkind => exact .inl hkind
  · next hkind => exact .inr hkind
  · next hkind =>
    obtain ⟨c, hvalue⟩ := h.eq_character hkind
    rw [hvalue] at herror
    simp at herror
  all_goals cases herror

end Lexed

end UnitCheck
