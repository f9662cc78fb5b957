import UnitCheck.Proofs.Places
import UnitCheck.Proofs.Scanning
import UnitCheck.Proofs.Sentences

/-!
  Any text as a literal.

  A text is put between quotes by a backslash in front of each of its quotes and backslashes, and of
  nothing else (`Text.enclose`). The reader takes a protected character as it is, and no other
  character of the text begins an escape or ends the literal, so it finds the closing quote and
  nothing before it (`Text.readQuoted_protect`). An enclosed text is therefore one lexeme, with the
  text for its value. This is not the form that literals are written in: that has escapes for other
  characters, too, and not all of them are read again.
-/

namespace UnitCheck

/-! ## Texts in quotes -/

namespace Text

/-- A text with a backslash in front of each quote of the given sort and of each backslash. -/
def protect (mark : Char) (cs : List Char) : List Char :=
  cs.flatMap fun c => if c = mark ∨ c = '\\' then ['\\', c] else [c]

/-- A text in quotes. -/
def enclose (mark : Char) (cs : List Char) : List Char := mark :: (protect mark cs ++ [mark])

theorem protect_cons (mark c : Char) (cs : List Char) :
    protect mark (c :: cs) =
      (if c = mark ∨ c = '\\' then ['\\', c] else [c]) ++ protect mark cs := rfl

theorem IsMark.ne_backslash {mark : Char} (h : IsMark mark) : mark ≠ '\\' := by
  rcases h with rfl | rfl <;> decide

/-- A backslash in front of a quote or a backslash leaves that alone. -/
theorem unescapeChar_of_protected {mark c : Char} (hmark : IsMark mark) (h : c = mark ∨ c = '\\') :
    unescapeChar c = [c] := by
  rcases h with rfl | rfl
  · rcases hmark with rfl | rfl <;> rfl
  · rfl

/-- What is protected is read as it was, up to the quote behind it. -/
theorem readQuoted_protect {mark : Char} (hmark : IsMark mark) (cs rest : List Char) :
    readQuoted mark (protect mark cs ++ mark :: rest) = some (cs, rest) := by
  induction cs with
  | nil =>
    rw [protect, List.flatMap_nil, List.nil_append, readQuoted.eq_def]
    exact if_pos rfl
  | cons c cs ih =>
    rw [protect_cons, List.append_assoc]
    by_cases h : c = mark ∨ c = '\\'
    -- The backslash and the character behind it are passed together.
    · rw [if_pos h, List.cons_append, List.singleton_append,
        readQuoted_escaped hmark.ne_backslash, ih, unescapeChar_of_protected hmark h]
      rfl
    · obtain ⟨hquote, hbackslash⟩ := not_or.1 h
      rw [if_neg h, List.singleton_append, readQuoted_cons hquote hbackslash, ih]
      rfl

end Text

/-! ## Texts that are one lexeme -/

/-- A text that is one lexeme has its token, and that of the end right behind the text. -/
theorem Token.ofText_of_lexeme {c : Char} {cs : List Char} {kind : Token.Kind} {value : String}
    (hblank : Text.isBlank c = false)
    (h : Lexeme.atStart c cs = ⟨kind, value, (c :: cs).length⟩) :
    Token.ofText (String.ofList (c :: cs)) =
      [⟨kind, value, .start⟩, .endOfText (Place.behind (c :: cs))] := by
  have hskip : Text.skipBlanks (c :: cs) = c :: cs := by
    rw [Text.skipBlanks_cons, if_neg (by simp [hblank])]
  -- The lexeme starts at once, for its first character is no white space.
  have hstart : (Cursor.start (c :: cs)).skipBlanks = Cursor.start (c :: cs) := by
    rw [Cursor.skipBlanks]
    change (Cursor.start (c :: cs)).advance ((c :: cs).takeWhile Text.isBlank).length = _
    rw [List.takeWhile_cons_of_neg (by simp [hblank])]
    rfl
  have hpass : (Cursor.start (c :: cs)).advance (c :: cs).length =
      Cursor.behind (c :: cs) [] := by
    have hadvance := Cursor.advance_behind [] (c :: cs) []
    rwa [List.append_nil, List.nil_append] at hadvance
  -- The first token is the lexeme, and the cursor behind it is at the end of the text.
  have hnext : (Cursor.start (c :: cs)).next =
      (⟨kind, value, .start⟩, Cursor.behind (c :: cs) []) := by
    rw [Cursor.next_of_cons hskip, h, hstart, hpass]
    rfl
  have hend : (Cursor.behind (c :: cs) []).scan = ([], Place.behind (c :: cs)) := by
    rw [Cursor.scan, dif_pos (by rfl)]
    rfl
  rw [Token.ofText, String.toList_ofList, Cursor.scan, dif_neg (by rw [Cursor.start, hskip]; simp),
    hnext, hend]
  rfl

/-- A text that is one literal is read as it, whichever units are allowed. -/
theorem Expr.ofTextWith_of_literal (allowed : String → Bool) {text : String} {word : Word}
    {value : Literal} (hscan : Word.scan text.toList = [word])
    (hvalue : word.literal? = some (.ok value)) :
    Expr.ofTextWith allowed text = .ok (.literal 0 value none) := by
  have hderives : Derives (.expression (.literal (.ok value) none)) (Word.scan text.toList) 2 := by
    rw [hscan]
    exact .expression_of_operand (.literal hvalue)
  exact Expr.ofTextWith_eq_ok hderives (by simp [Phrase.units]) (by decide) rfl

/-- A text that is one lexeme of a literal is tokenized and read as it. -/
theorem Expr.reads_lexeme (allowed : String → Bool) {c : Char} {cs : List Char}
    {kind : Token.Kind} {text : String} {value : Literal} (hblank : Text.isBlank c = false)
    (h : Lexeme.atStart c cs = ⟨kind, text, (c :: cs).length⟩)
    (hvalue : (⟨kind, text⟩ : Word).literal? = some (.ok value)) :
    Token.ofText (String.ofList (c :: cs)) =
        [⟨kind, text, .start⟩, .endOfText (Place.behind (c :: cs))] ∧
      Expr.ofTextWith allowed (String.ofList (c :: cs)) = .ok (.literal 0 value none) := by
  refine ⟨Token.ofText_of_lexeme hblank h, Expr.ofTextWith_of_literal allowed ?_ hvalue⟩
  have hscan : Word.scan (c :: cs ++ []) = ⟨kind, text⟩ :: Word.scan [] :=
    Word.scan_lexeme hblank (by rwa [List.append_nil])
  rwa [List.append_nil, Word.scan_nil, ← String.toList_ofList (l := c :: cs)] at hscan

/-! ## Enclosed texts -/

theorem Lexeme.atStart_enclosed_string (cs : List Char) :
    Lexeme.atStart '"' (Text.protect '"' cs ++ ['"']) =
      ⟨.stringLiteral, String.ofList cs, (Text.enclose '"' cs).length⟩ := by
  have hread := Text.readQuoted_protect (.inl rfl) cs []
  show Lexeme.string (Text.protect '"' cs ++ ['"']) = _
  rw [Lexeme.string, hread]
  dsimp only
  rw [List.length_nil, Nat.sub_zero, Nat.add_comm]
  rfl

theorem Lexeme.atStart_enclosed_character (c : Char) :
    Lexeme.atStart '\'' (Text.protect '\'' [c] ++ ['\'']) =
      ⟨.charLiteral, String.ofList [c], (Text.enclose '\'' [c]).length⟩ := by
  have hread := Text.readQuoted_protect (.inr rfl) [c] []
  show Lexeme.character (Text.protect '\'' [c] ++ ['\'']) = _
  rw [Lexeme.character, hread]
  dsimp only
  rw [if_pos (List.length_singleton), List.length_nil, Nat.sub_zero, Nat.add_comm]
  rfl

/-- The text of a string as a literal, with its quotes and backslashes protected. -/
def enclosedString (s : String) : String := String.ofList (Text.enclose '"' s.toList)

/-- The text of a character as a literal, protected if it is a quote or a backslash. -/
def enclosedCharacter (c : Char) : String := String.ofList (Text.enclose '\'' [c])

theorem enclosedString_read (allowed : String → Bool) (s : String) :
    Token.ofText (enclosedString s) =
        [⟨.stringLiteral, s, .start⟩, .endOfText (Place.behind (enclosedString s).toList)] ∧
      Expr.ofTextWith allowed (enclosedString s) = .ok (.literal 0 (.string s) none) := by
  have hvalue : (⟨.stringLiteral, String.ofList s.toList⟩ : Word).literal? =
      some (.ok (.string s)) := by
    rw [String.ofList_toList]
    rfl
  have hread := Expr.reads_lexeme allowed (by decide) (Lexeme.atStart_enclosed_string s.toList)
    hvalue
  rw [String.ofList_toList] at hread
  rw [enclosedString, String.toList_ofList]
  exact hread

theorem enclosedCharacter_read (allowed : String → Bool) (c : Char) :
    Token.ofText (enclosedCharacter c) =
        [⟨.charLiteral, String.singleton c, .start⟩,
          .endOfText (Place.behind (enclosedCharacter c).toList)] ∧
      Expr.ofTextWith allowed (enclosedCharacter c) = .ok (.literal 0 (.char c) none) := by
  have hvalue : (⟨.charLiteral, String.ofList [c]⟩ : Word).literal? = some (.ok (.char c)) := by
    simp [Word.literal?, Parser.literalValue?]
  have hread := Expr.reads_lexeme allowed (by decide) (Lexeme.atStart_enclosed_character c) hvalue
  rw [enclosedCharacter, String.toList_ofList]
  exact hread

/-- An enclosed text tells the string, since that is read from it. -/
theorem enclosedString_inj {s s' : String} : enclosedString s = enclosedString s' ↔ s = s' := by
  refine ⟨fun h => ?_, congrArg _⟩
  have hread := (enclosedString_read (fun _ => true) s).2
  rw [h, (enclosedString_read _ s').2] at hread
  cases hread
  rfl

theorem enclosedCharacter_inj {c c' : Char} :
    enclosedCharacter c = enclosedCharacter c' ↔ c = c' := by
  refine ⟨fun h => ?_, congrArg _⟩
  have hread := (enclosedCharacter_read (fun _ => true) c).2
  rw [h, (enclosedCharacter_read _ c').2] at hread
  cases hread
  rfl

/-- **Literals carry any text.** A string in double quotes, with a backslash in front of each double
    quote and each backslash in it, is one token of a string literal with the string for its value,
    and is read as the literal of that value, whichever units are allowed. So is a character in
    single quotes, with a backslash in front of it if it is a single quote or a backslash.
    Different values have different texts, and their literals are not equal. -/
theorem enclosed_texts_read (allowed : String → Bool) :
    (∀ s : String,
      Token.ofText (enclosedString s) =
          [⟨.stringLiteral, s, .start⟩, .endOfText (Place.behind (enclosedString s).toList)] ∧
        Expr.ofTextWith allowed (enclosedString s) = .ok (.literal 0 (.string s) none)) ∧
    (∀ s s' : String, (enclosedString s = enclosedString s' ↔ s = s') ∧
      ((Expr.literal 0 (.string s) none).same (.literal 0 (.string s') none) = true ↔ s = s')) ∧
    (∀ c : Char,
      Token.ofText (enclosedCharacter c) =
          [⟨.charLiteral, String.singleton c, .start⟩,
            .endOfText (Place.behind (enclosedCharacter c).toList)] ∧
        Expr.ofTextWith allowed (enclosedCharacter c) = .ok (.literal 0 (.char c) none)) ∧
    ∀ c c' : Char, (enclosedCharacter c = enclosedCharacter c' ↔ c = c') ∧
      ((Expr.literal 0 (.char c) none).same (.literal 0 (.char c') none) = true ↔ c = c') := by
  refine ⟨enclosedString_read allowed, fun s s' => ⟨enclosedString_inj, ?_⟩,
    enclosedCharacter_read allowed, fun c c' => ⟨enclosedCharacter_inj, ?_⟩⟩
  · simp [Expr.same, Literal.same]
  · simp [Expr.same, Literal.same]

/-- A backslash in front of a letter is protected, so that the two are read as they were. -/
example : enclosedString "a\"\\n" = "\"a\\\"\\\\n\"" := by decide

end UnitCheck
