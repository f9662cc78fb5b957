import Mathlib.Data.List.TakeWhile
import UnitCheck.Proofs.Lexing

/-!
  Where the tokens of a text stand.

  A cursor that has passed some characters of a text stands right behind them (`Cursor.behind`):
  its place counts them, the line feeds among them and the characters since the last of these. Every
  character that is passed keeps this, so blanks and lexemes do, and so do calls of `Cursor.next`.
  A call passes some blanks and one lexeme, and no lexeme reaches past the end of the text
  (`Lexeme.fits_atStart`). A text is therefore the pieces that the calls pass, one after the other,
  with nothing left out (`Cursor.exists_pieces`).
-/

namespace UnitCheck

open Text (isBlank)

/-! ## Places -/

/-- The place behind some characters: how many they are, one line more than there are line feeds
    among them, and the column of what follows the characters since the last line feed. -/
def Place.behind (before : List Char) : Place :=
  ⟨before.length, 1 + before.count '\n', 1 + (before.reverse.takeWhile (· ≠ '\n')).length⟩

theorem Place.after_behind (before : List Char) (c : Char) :
    (behind before).after c = behind (before ++ [c]) := by
  -- A line feed starts a line, and any other character is one column more.
  by_cases h : c = '\n'
  · subst h
    simp [after, behind, Nat.add_assoc]
  · simp [after, behind, h, Nat.add_comm]

/-! ## What a numeral takes -/

namespace Numeral

open Number (splitDigits splitDigits_append)

theorem splitFraction_append (cs : List Char) :
    (splitFraction cs).1 ++ (splitFraction cs).2 = cs := by
  unfold splitFraction
  split
  · next d cs =>
    split
    · rw [List.cons_append, splitDigits_append]
    · rfl
  · rfl

theorem splitExponent_append (cs : List Char) :
    (splitExponent cs).1 ++ (splitExponent cs).2 = cs := by
  unfold splitExponent
  split
  · rfl
  · next e cs =>
    split
    · split
      · rfl
      · next s ds =>
        -- What is split off depends on a sign, and both ways it comes from the text.
        have hsigned := splitDigits_append ds
        have hplain := splitDigits_append (s :: ds)
        dsimp only
        split
        · split
          · rfl
          · rw [List.cons_append, List.cons_append, hsigned]
        · split
          · rfl
          · rw [List.cons_append, hplain]
    · rfl

/-- A numeral is the text that it is found at the start of, up to its end. -/
theorem chars_atStart_isPrefix (cs : List Char) : (atStart cs).chars <+: cs := by
  have hwhole := splitDigits_append cs
  have hfraction := splitFraction_append (splitDigits cs).2
  have hexponent := splitExponent_append (splitFraction (splitDigits cs).2).2
  unfold atStart
  dsimp only
  generalize (splitDigits cs).2 = rest at hwhole hfraction hexponent ⊢
  generalize (splitFraction rest).2 = rest' at hfraction hexponent ⊢
  generalize (splitExponent rest').2 = rest'' at hexponent ⊢
  have hnumber : (splitDigits cs).1 ++ (splitFraction rest).1 ++ (splitExponent rest').1 ++
      rest'' = cs := by
    rw [List.append_assoc, hexponent, List.append_assoc, hfraction, hwhole]
  -- The suffix is a run of the rest, or there is none.
  split
  · refine ⟨rest''.dropWhile isIdentifierChar, ?_⟩
    rw [chars, number, List.append_assoc, List.takeWhile_append_dropWhile, hnumber]
  · refine ⟨rest'', ?_⟩
    rw [chars, number, List.append_nil, hnumber]

end Numeral

/-! ## What a lexeme takes -/

/-- A kind of tokens whose value is their text. The value of a quoted literal is what the quotes
    hold, and invalid text and the end of a text have values of other sorts. -/
def Token.Kind.keepsText : Token.Kind → Bool
  | .stringLiteral | .charLiteral | .invalid | .eof => false
  | _ => true

namespace Lexeme

/-- The lexeme takes characters that are there, and they are its value if its kind keeps the
    text. -/
structure Fits (lexeme : Lexeme) (cs : List Char) : Prop where
  length_le : lexeme.length ≤ cs.length
  value_eq : lexeme.kind.keepsText = true → lexeme.value = String.ofList (cs.take lexeme.length)

theorem fits_of_isPrefix {kind : Token.Kind} {run cs : List Char} (h : run <+: cs) :
    Fits ⟨kind, String.ofList run, run.length⟩ cs :=
  ⟨h.length_le, fun _ => by rw [← List.prefix_iff_eq_take.1 h]⟩

theorem fits_of_quoted {lexeme : Lexeme} {cs : List Char} (h : lexeme.kind.keepsText = false)
    (hlength : lexeme.length ≤ cs.length) : Fits lexeme cs :=
  ⟨hlength, fun hkeeps => absurd (h.symm.trans hkeeps) (by simp)⟩

theorem fits_string (c : Char) (cs : List Char) : Fits (string cs) (c :: cs) := by
  unfold string
  split
  · refine fits_of_quoted rfl ?_
    simp only [List.length_cons]
    omega
  · refine fits_of_quoted rfl ?_
    simp only [invalid, List.length_cons]
    omega

theorem fits_character (c : Char) (cs : List Char) : Fits (character cs) (c :: cs) := by
  unfold character
  split
  · dsimp only
    split
    · refine fits_of_quoted rfl ?_
      simp only [List.length_cons]
      omega
    · refine fits_of_quoted rfl ?_
      simp only [invalid, List.length_cons]
      omega
  · refine fits_of_quoted rfl ?_
    simp only [invalid, List.length_cons]
    omega

theorem fits_atStart (c : Char) (cs : List Char) : Fits (atStart c cs) (c :: cs) := by
  unfold atStart
  split
  · next symbol hsymbol => exact fits_of_isPrefix (Symbol.isPrefix_of_atStart? hsymbol)
  · split
    · exact fits_string c cs
    · split
      · exact fits_character c cs
      · split
        · exact fits_of_isPrefix (Numeral.chars_atStart_isPrefix _)
        · split
          · exact fits_of_isPrefix (List.takeWhile_prefix _)
          · refine fits_of_quoted rfl ?_
            simp [invalid]

/-- The characters that the lexeme at the start of a text takes. -/
theorem exists_slice (c : Char) (cs : List Char) :
    ∃ slice after, c :: cs = slice ++ after ∧ slice ≠ [] ∧
      (atStart c cs).length = slice.length ∧
      ((atStart c cs).kind.keepsText = true → (atStart c cs).value = String.ofList slice) := by
  obtain ⟨hlength, hvalue⟩ := fits_atStart c cs
  have hpos := atStart_length_pos c cs
  have htake : ((c :: cs).take (atStart c cs).length).length = (atStart c cs).length := by
    rw [List.length_take, Nat.min_eq_left hlength]
  refine ⟨_, _, (List.take_append_drop (atStart c cs).length (c :: cs)).symm, ?_, htake.symm,
    hvalue⟩
  rw [← List.length_pos_iff, htake]
  exact hpos

end Lexeme

/-! ## Cursors -/

namespace Cursor

/-- The cursor right behind some characters of a text, before the rest. -/
def behind (before rest : List Char) : Cursor := ⟨rest, Place.behind before⟩

theorem advance_behind (before run rest : List Char) :
    (behind before (run ++ rest)).advance run.length = behind (before ++ run) rest := by
  induction run generalizing before with
  | nil => rw [List.append_nil]; rfl
  | cons c run ih =>
    -- The first character goes over to those that are behind.
    have hpass : (behind before (c :: run ++ rest)).advance (c :: run).length =
        (⟨run ++ rest, (Place.behind before).after c⟩ : Cursor).advance run.length := rfl
    rw [hpass, Place.after_behind]
    exact (ih (before ++ [c])).trans (by rw [List.append_assoc, List.singleton_append])

theorem skipBlanks_behind (before rest : List Char) :
    (behind before rest).skipBlanks =
      behind (before ++ rest.takeWhile isBlank) (Text.skipBlanks rest) := by
  have hsplit : rest.takeWhile isBlank ++ Text.skipBlanks rest = rest :=
    List.takeWhile_append_dropWhile
  have hadvance := advance_behind before (rest.takeWhile isBlank) (Text.skipBlanks rest)
  rw [hsplit] at hadvance
  exact hadvance

/-- The characters that a call passes. -/
structure Piece where
  blanks : List Char
  slice : List Char

/-- The piece as it stands in the text. -/
def Piece.chars (piece : Piece) : List Char := piece.blanks ++ piece.slice

/-- The token that is read off a piece, with the characters before the piece and those after
    it. The lexeme is as long as the slice, so no character of it is missing. -/
structure Piece.Holds (piece : Piece) (before after : List Char) (token : Token) : Prop where
  blank : ∀ c ∈ piece.blanks, isBlank c = true
  nonempty : piece.slice ≠ []
  lexeme : ∃ c cs, piece.slice ++ after = c :: cs ∧ isBlank c = false ∧
    (Lexeme.atStart c cs).length = piece.slice.length
  kind : token.kind ≠ .eof
  place : token.place = Place.behind (before ++ piece.blanks)
  value : token.kind.keepsText = true → token.value = String.ofList piece.slice

theorem next_behind_of_blank (before : List Char) {rest : List Char}
    (h : ∀ c ∈ rest, isBlank c = true) :
    (behind before rest).next =
      (.endOfText (Place.behind (before ++ rest)), behind (before ++ rest) []) := by
  have hblanks : rest.takeWhile isBlank = rest := List.takeWhile_eq_self_iff.2 h
  have hrest : Text.skipBlanks rest = [] := List.dropWhile_eq_nil_iff.2 h
  have hskip := skipBlanks_behind before rest
  rw [hblanks, hrest] at hskip
  rw [next_of_blank hrest, hskip]
  rfl

/-- A call passes one piece, unless only blanks are left. -/
theorem exists_piece (before : List Char) {rest : List Char} (h : ¬ ∀ c ∈ rest, isBlank c = true) :
    ∃ (piece : Piece) (after : List Char) (token : Token), rest = piece.chars ++ after ∧
      piece.Holds before after token ∧
      (behind before rest).next = (token, behind (before ++ piece.chars) after) := by
  cases hrest : Text.skipBlanks rest with
  | nil => exact absurd (List.dropWhile_eq_nil_iff.1 hrest) h
  | cons c cs =>
    have hblank := Text.not_isBlank_of_skipBlanks_eq_cons hrest
    have hkind : (Lexeme.atStart c cs).kind ≠ .eof := (lexed_atStart hblank).kind_ne_eof
    obtain ⟨slice, after, hslice, hne, hlength, hvalue⟩ := Lexeme.exists_slice c cs
    have hsplit : rest.takeWhile isBlank ++ Text.skipBlanks rest = rest :=
      List.takeWhile_append_dropWhile
    have hskip := skipBlanks_behind before rest
    have hpass := advance_behind (before ++ rest.takeWhile isBlank) slice after
    -- The call skips the blanks, reads the lexeme behind them and passes as much as that takes.
    rw [hrest] at hsplit hskip
    rw [← hslice, ← hlength, List.append_assoc] at hpass
    have hnext : (behind before rest).next = _ := next_of_cons hrest
    rw [hskip, hpass] at hnext
    refine ⟨⟨rest.takeWhile isBlank, slice⟩, after, _, ?_, ?_, hnext⟩
    · rw [Piece.chars, List.append_assoc, ← hslice, hsplit]
    · exact {
        blank := fun d hd => List.all_eq_true.1 List.all_takeWhile d hd
        nonempty := hne
        lexeme := ⟨c, cs, hslice.symm, hblank, hlength⟩
        kind := hkind
        place := rfl
        value := hvalue }

/-! ## Calls one after the other -/

/-- The cursor after some calls. -/
def afterCalls : Nat → Cursor → Cursor
  | 0, cursor => cursor
  | n + 1, cursor => afterCalls n cursor.next.2

/-- The token of a call that comes after some others. -/
def token (cursor : Cursor) (n : Nat) : Token := (cursor.afterCalls n).next.1

theorem token_zero (cursor : Cursor) : cursor.token 0 = cursor.next.1 := rfl

theorem token_succ (cursor : Cursor) (n : Nat) : cursor.token (n + 1) = cursor.next.2.token n :=
  rfl

/-- The pieces as they stand in the text. -/
def chars (pieces : List Piece) : List Char := pieces.flatMap Piece.chars

/-- The calls from a cursor on pass the pieces, one piece each, and then find the end. -/
structure Passes (before rest : List Char) (pieces : List Piece) (trailing : List Char) :
    Prop where
  /-- Nothing is left out. -/
  text : rest = chars pieces ++ trailing
  blank : ∀ c ∈ trailing, isBlank c = true
  /-- Each piece has the token of its call. -/
  piece : ∀ (i : Nat) (piece : Piece), pieces[i]? = some piece →
    piece.Holds (before ++ chars (pieces.take i)) (chars (pieces.drop (i + 1)) ++ trailing)
      ((behind before rest).token i)
  /-- After some calls the cursor stands right behind the pieces of these calls. -/
  cursor : ∀ i ≤ pieces.length, (behind before rest).afterCalls i =
    behind (before ++ chars (pieces.take i)) (chars (pieces.drop i) ++ trailing)
  /-- After that every call finds the end of the text and leaves the cursor there. -/
  finish : ∀ i, pieces.length ≤ i → ((behind before rest).afterCalls i).next =
    (.endOfText (Place.behind (before ++ rest)), behind (before ++ rest) [])
  scan : (behind before rest).scan =
    ((List.range pieces.length).map (behind before rest).token, Place.behind (before ++ rest))

/-- Where only blanks are left, every call finds the end. -/
theorem passes_nil (before : List Char) {rest : List Char} (h : ∀ c ∈ rest, isBlank c = true) :
    Passes before rest [] rest where
  text := rfl
  blank := h
  piece i piece hpiece := by cases hpiece
  cursor i hi := by
    obtain rfl := Nat.le_zero.1 hi
    rw [List.take_nil, chars, List.flatMap_nil, List.append_nil]
    rfl
  finish i _ := by
    induction i generalizing before rest with
    | zero => rw [afterCalls, next_behind_of_blank before h]
    | succ i ih =>
      -- The call before has left nothing, not even blanks.
      have hnil : ∀ c ∈ ([] : List Char), isBlank c = true := by simp
      have hagain := ih (before ++ rest) hnil (Nat.zero_le i)
      rw [List.append_nil] at hagain
      rw [afterCalls, next_behind_of_blank before h]
      exact hagain
  scan := by
    have hskip : Text.skipBlanks (behind before rest).rest = [] := List.dropWhile_eq_nil_iff.2 h
    have hplace := congrArg (fun call => call.2.place) (next_behind_of_blank before h)
    rw [next_of_blank hskip] at hplace
    rw [Cursor.scan, dif_pos hskip, List.length_nil, List.range_zero, List.map_nil]
    exact congrArg _ hplace

/-- One more call in front. -/
theorem Passes.cons {before after trailing : List Char} {piece : Piece} {pieces : List Piece}
    {token : Token} (h : Passes (before ++ piece.chars) after pieces trailing)
    (hpiece : piece.Holds before after token)
    (hnext : (behind before (piece.chars ++ after)).next =
      (token, behind (before ++ piece.chars) after)) :
    Passes before (piece.chars ++ after) (piece :: pieces) trailing where
  text := by rw [h.text, chars, chars, List.flatMap_cons, List.append_assoc]
  blank := h.blank
  piece i other hother := by
    cases i with
    | zero =>
      obtain rfl := Option.some.inj hother
      rw [token_zero, hnext]
      simpa [chars, h.text] using hpiece
    | succ i =>
      have hrest := h.piece i other hother
      rw [token_succ, hnext]
      simpa [chars] using hrest
  cursor i hi := by
    cases i with
    | zero => simp [chars, h.text, afterCalls]
    | succ i =>
      have hrest := h.cursor i (Nat.le_of_succ_le_succ hi)
      rw [afterCalls, hnext, hrest]
      simp [chars]
  finish i hi := by
    cases i with
    | zero => cases hi
    | succ i =>
      have hrest := h.finish i (Nat.le_of_succ_le_succ hi)
      rw [List.append_assoc] at hrest
      rw [afterCalls, hnext]
      exact hrest
  scan := by
    -- A call that finds a token is not the last of the scan.
    have hskip : Text.skipBlanks (behind before (piece.chars ++ after)).rest ≠ [] := by
      intro hnil
      have htoken : token = .endOfText _ :=
        congrArg Prod.fst (hnext.symm.trans (next_of_blank hnil))
      exact hpiece.kind (by rw [htoken]; rfl)
    have hlater : (behind before (piece.chars ++ after)).token ∘ Nat.succ =
        (behind (before ++ piece.chars) after).token := by
      funext i
      rw [Function.comp_apply, token_succ, hnext]
    rw [Cursor.scan, dif_neg hskip, List.length_cons, List.range_succ_eq_map, List.map_cons,
      List.map_map, token_zero, hlater, hnext, h.scan, List.append_assoc]

/-- The calls pass a whole text. -/
theorem exists_pieces (before rest : List Char) :
    ∃ pieces trailing, Passes before rest pieces trailing := by
  -- By induction on the characters that are left, of which every piece has one at least.
  induction hn : rest.length using Nat.strongRecOn generalizing before rest with
  | ind n ih =>
    subst hn
    by_cases hblank : ∀ c ∈ rest, isBlank c = true
    · exact ⟨[], rest, passes_nil before hblank⟩
    · obtain ⟨piece, after, token, rfl, hpiece, hnext⟩ := exists_piece before hblank
      have hshorter : after.length < (piece.chars ++ after).length := by
        have hpos := List.length_pos_iff.2 hpiece.nonempty
        rw [List.length_append, Piece.chars, List.length_append]
        omega
      obtain ⟨pieces, trailing, hrest⟩ := ih _ hshorter (before ++ piece.chars) after rfl
      exact ⟨piece :: pieces, trailing, hrest.cons hpiece hnext⟩

theorem length_le_chars {pieces : List Piece} (h : ∀ piece ∈ pieces, piece.slice ≠ []) :
    pieces.length ≤ (chars pieces).length := by
  induction pieces with
  | nil => exact Nat.zero_le _
  | cons piece pieces ih =>
    have hrest := ih fun other hother => h other (List.mem_cons_of_mem _ hother)
    have hpos := List.length_pos_iff.2 (h piece List.mem_cons_self)
    have hchars : chars (piece :: pieces) = piece.blanks ++ piece.slice ++ chars pieces := rfl
    rw [hchars, List.length_append, List.length_append, List.length_cons]
    omega

/-- There are at most as many pieces as characters. -/
theorem Passes.length_le {before rest trailing : List Char} {pieces : List Piece}
    (h : Passes before rest pieces trailing) : pieces.length ≤ rest.length := by
  have hpieces : ∀ piece ∈ pieces, piece.slice ≠ [] := by
    intro piece hpiece
    obtain ⟨i, hi⟩ := List.mem_iff_getElem?.1 hpiece
    exact (h.piece i piece hi).nonempty
  have hle := length_le_chars hpieces
  rw [h.text, List.length_append]
  omega

/-- **Tokens are located exactly.** A text is what calls of `next` pass, piece by piece, and at
    the end some blanks. A piece is some blanks and the characters of a token, of which there is
    at least one. The token stands where these start, and they are its value if its kind keeps the
    text. There are no more pieces than characters, and after them every call finds the end of the
    text. The tokens of the text are those of the calls up to the first that finds the end. -/
theorem next_lossless (text : String) :
    ∃ pieces trailing, Passes [] text.toList pieces trailing ∧
      pieces.length ≤ text.toList.length ∧
      Token.ofText text = (List.range (pieces.length + 1)).map (start text.toList).token := by
  -- The start of a text is the place behind no characters.
  obtain ⟨pieces, trailing, h⟩ := exists_pieces [] text.toList
  refine ⟨pieces, trailing, h, h.length_le, ?_⟩
  have hend : (start text.toList).token pieces.length = .endOfText (Place.behind text.toList) :=
    congrArg Prod.fst (h.finish pieces.length (Nat.le_refl _))
  have hscan : (start text.toList).scan =
      ((List.range pieces.length).map (start text.toList).token, Place.behind text.toList) :=
    h.scan
  rw [Token.ofText, hscan, List.range_succ, List.map_append, List.map_singleton, hend]

/-- A token of two characters on the second line. -/
example : (start "a\n <= b".toList).token 1 = ⟨.symbol .lessThanOrEqual, "<=", ⟨3, 2, 2⟩⟩ := by
  cbv

end Cursor

end UnitCheck
