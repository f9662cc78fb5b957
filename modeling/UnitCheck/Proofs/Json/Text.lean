import UnitCheck.Json.Text
import UnitCheck.Proofs.Number.Notation

/-!
  Strings of JSON are read back.

  Each character is written as one piece: itself, a letter after a backslash, or the unit that is
  its number (`readPieces_charText`). Only control characters are written as units, so no unit is
  half of a surrogate pair, and the pieces make up the text again.
-/

namespace UnitCheck.Json

/-- A piece stands for a character: it is the character or, below the blank, its number. -/
inductive StandsFor : Char → Char ⊕ Nat → Prop where
  | character (c : Char) : StandsFor c (.inl c)
  | unit (c : Char) (h : c.toNat < 0x20) : StandsFor c (.inr c.toNat)

/-- A unit that is half of no surrogate pair is a character, whatever follows it. -/
theorem joinPieces_unit {unit : Nat} (hhigh : isHighHalf unit = false)
    (hlow : isLowHalf unit = false) (pieces : List (Char ⊕ Nat)) :
    joinPieces (.inr unit :: pieces) = (joinPieces pieces).map (Char.ofNat unit :: ·) := by
  -- What follows is looked at only after the first half of a pair.
  cases pieces with
  | nil => simp [joinPieces, hhigh, hlow]
  | cons next pieces => cases next <;> simp [joinPieces, hhigh, hlow]

theorem joinPieces_of_standsFor {cs : List Char} {pieces : List (Char ⊕ Nat)}
    (h : List.Forall₂ StandsFor cs pieces) : joinPieces pieces = some cs := by
  induction h with
  | nil => rfl
  | @cons c piece cs pieces hpiece _ ih =>
    cases hpiece with
    | character => rw [joinPieces, ih, Option.map_some]
    | unit hlt =>
      have hhigh : isHighHalf c.toNat = false := by
        simp only [isHighHalf, Bool.and_eq_false_iff, decide_eq_false_iff_not]
        omega
      have hlow : isLowHalf c.toNat = false := by
        simp only [isLowHalf, Bool.and_eq_false_iff, decide_eq_false_iff_not]
        omega
      rw [joinPieces_unit hhigh hlow, ih, Option.map_some, Char.ofNat_toNat]

/-- Four digits with two zeros in front name the number of a control character. -/
theorem hexUnit?_of_lt {n : Nat} (h : n < 0x20) :
    hexUnit? '0' '0' (Nat.digitChar (n / 16)) (Nat.digitChar (n % 16)) = some n := by
  have hall : ∀ n < 0x20,
      hexUnit? '0' '0' (Nat.digitChar (n / 16)) (Nat.digitChar (n % 16)) = some n := by decide
  exact hall n h

theorem readPieces_escape {letter c : Char} (h : escapeLetter? letter = some c)
    (rest : List Char) : readPieces ('\\' :: letter :: rest) =
      (readPieces rest).map fun (pieces, after) => (.inl c :: pieces, after) := by
  have hletter : letter ≠ 'u' := by
    rintro rfl
    cases h
  rw [readPieces]
  · rw [h]
    cases readPieces rest <;> rfl
  · rintro a b c d rest' hu -
    exact hletter hu

theorem readPieces_plain {c : Char} (hquote : c ≠ '"') (hslash : c ≠ '\\')
    (hcontrol : ¬ c.toNat < 0x20) (rest : List Char) : readPieces (c :: rest) =
      (readPieces rest).map fun (pieces, after) => (.inl c :: pieces, after) := by
  rw [readPieces]
  · rw [if_neg (not_or.2 ⟨hcontrol, hslash⟩)]
    cases readPieces rest <;> rfl
  · exact hquote
  · exact fun _ _ _ _ _ h _ => hslash h
  · exact fun _ _ h _ => hslash h

/-- A character that is written is read as one piece that stands for it. -/
theorem readPieces_charText (c : Char) : ∃ piece, StandsFor c piece ∧ ∀ rest,
    readPieces (charText c ++ rest) =
      (readPieces rest).map fun (pieces, after) => (piece :: pieces, after) := by
  -- The characters with a letter of their own, then control characters by their code, then the
  -- others.
  unfold charText
  split
  · exact ⟨_, .character _, readPieces_escape rfl⟩
  · exact ⟨_, .character _, readPieces_escape rfl⟩
  · exact ⟨_, .character _, readPieces_escape rfl⟩
  · exact ⟨_, .character _, readPieces_escape rfl⟩
  · exact ⟨_, .character _, readPieces_escape rfl⟩
  · exact ⟨_, .character _, readPieces_escape rfl⟩
  · exact ⟨_, .character _, readPieces_escape rfl⟩
  · next hquote hslash _ _ _ _ _ =>
    split
    · next hcontrol =>
      refine ⟨_, .unit c hcontrol, fun rest => ?_⟩
      simp only [List.cons_append, List.nil_append]
      rw [readPieces, hexUnit?_of_lt hcontrol]
      cases readPieces rest <;> rfl
    · next hcontrol => exact ⟨_, .character c, readPieces_plain hquote hslash hcontrol⟩

/-- The characters of a text are read piece by piece, up to the closing quote. -/
theorem exists_readPieces (cs rest : List Char) : ∃ pieces, List.Forall₂ StandsFor cs pieces ∧
    readPieces (cs.flatMap charText ++ '"' :: rest) = some (pieces, rest) := by
  induction cs with
  | nil => exact ⟨[], .nil, by rw [List.flatMap_nil, List.nil_append, readPieces]⟩
  | cons c cs ih =>
    obtain ⟨pieces, hpieces, hread⟩ := ih
    obtain ⟨piece, hpiece, hc⟩ := readPieces_charText c
    refine ⟨piece :: pieces, .cons hpiece hpieces, ?_⟩
    rw [List.flatMap_cons, List.append_assoc, hc, hread]
    rfl

/-- A text in quotes is read back, whatever follows it. -/
theorem readString_stringText (cs rest : List Char) :
    ∃ after, stringText cs ++ rest = '"' :: after ∧
      readString after = some (some (String.ofList cs), rest) := by
  obtain ⟨pieces, hpieces, hread⟩ := exists_readPieces cs rest
  refine ⟨cs.flatMap charText ++ '"' :: rest, ?_, ?_⟩
  · rw [stringText, List.cons_append, List.append_assoc]
    rfl
  · rw [readString, hread]
    show some ((joinPieces pieces).map String.ofList, rest) = _
    rw [joinPieces_of_standsFor hpieces]
    rfl

end UnitCheck.Json
