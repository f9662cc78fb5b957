import Mathlib
import UnitCheck.Proofs.Lexing
import UnitCheck.Proofs.Parser.Completeness

/-!
  Texts and sentences.

  A text has an expression when its words are a sentence, and then the expression is the one that
  the sentence denotes. Only two things keep a sentence from being read: more parts open at once
  than there may be, and a number that is out of the range of its type.
-/

namespace UnitCheck

/-- The words of the tokens that a parser of the text starts with. -/
theorem Parser.words_ofText (text : String) :
    (Parser.ofText text).tokens.map Token.word = Word.scan text.toList :=
  map_word_scan _

/-- The words of a text before that of its end. -/
theorem Word.eq_scan_of_ofText {text : String} {words : List Word}
    (h : Word.ofText text = words ++ [Word.endOfText]) : words = Word.scan text.toList := by
  rw [Word.ofText_eq] at h
  exact (List.append_cancel_right h).symm

/-- A text that is read is a sentence that needs no more room than there is. -/
theorem Expr.ofTextWith_sound {allowed : String → Bool} {text : String} {tree : Expr}
    (h : Expr.ofTextWith allowed text = .ok tree) :
    ∃ phrase n, Derives (.expression phrase) (Word.scan text.toList) n ∧ n ≤ maxDepth ∧
      phrase.build 0 = .ok tree ∧ ∀ unit ∈ phrase.units, allowed unit = true := by
  rw [Expr.ofTextWith] at h
  rcases hrun : (Parser.ofText text).parse allowed with ⟨result, q⟩
  rw [hrun] at h
  cases h
  obtain ⟨phrase, words, n, hderives, hn, ⟨read, hread, hwords, -⟩, hbuild, hunits, heof⟩ :=
    Parser.parse_sound hrun
  -- No token of a text is that of its end, so all of them have been read.
  have hscan := Parser.words_ofText text
  have hrest : q.tokens = [] := by
    cases htokens : q.tokens with
    | nil => rfl
    | cons token rest =>
      have hmem : token.word ∈ Word.scan text.toList := by
        rw [← hscan, hread, htokens]
        simp
      rw [Parser.current_of_cons htokens] at heof
      exact absurd heof (lexed_of_mem_scan hmem).kind_ne_eof
  rw [hrest, List.append_nil] at hread
  rw [hread, hwords] at hscan
  exact ⟨phrase, n, hscan ▸ hderives, hn, hbuild, hunits⟩

/-- What a text answers whose words are a sentence over allowed units: the tree, if there is room
    for it, or that there is too little room, or the failure of a literal that does not convert. -/
theorem Expr.ofTextWith_complete (allowed : String → Bool) {text : String} {phrase : Phrase}
    {n : Nat} (h : Derives (.expression phrase) (Word.scan text.toList) n)
    (hunits : ∀ unit ∈ phrase.units, allowed unit = true) :
    (∃ tree, n ≤ maxDepth ∧ phrase.build 0 = .ok tree ∧ Expr.ofTextWith allowed text = .ok tree) ∨
    (maxDepth < n ∧ Expr.ofTextWith allowed text = .error (.parse .tooDeep)) ∨
    ∃ cause, phrase.build 0 = .error cause ∧
      Expr.ofTextWith allowed text = .error (.parse cause) := by
  have hanswers := Parser.parse_complete h (Parser.words_ofText text) hunits
  rw [Expr.ofTextWith]
  generalize (Parser.ofText text).parse allowed = outcome at hanswers
  cases hanswers with
  | done hn hbuild => exact .inl ⟨_, hn, hbuild, rfl⟩
  | tooDeep hn => exact .inr (.inl ⟨hn, rfl⟩)
  | unread hbuild => exact .inr (.inr ⟨_, hbuild, rfl⟩)

/-- A sentence over allowed units that there is room for is read if its literals convert. -/
theorem Expr.ofTextWith_eq_ok {allowed : String → Bool} {text : String} {phrase : Phrase} {n : Nat}
    {tree : Expr} (h : Derives (.expression phrase) (Word.scan text.toList) n)
    (hunits : ∀ unit ∈ phrase.units, allowed unit = true) (hn : n ≤ maxDepth)
    (hbuild : phrase.build 0 = .ok tree) : Expr.ofTextWith allowed text = .ok tree := by
  rcases Expr.ofTextWith_complete allowed h hunits with ⟨read, -, hread, hok⟩ | ⟨hdeep, -⟩ |
    ⟨cause, hcause, -⟩
  · cases hbuild.symm.trans hread
    exact hok
  · exact absurd hn (Nat.not_le.2 hdeep)
  · cases hbuild.symm.trans hcause

/-- A text whose words are a sentence is read just when its literals convert and there is room
    for it. -/
theorem Expr.ofText_eq_ok_iff {text : String} {phrase : Phrase} {n : Nat}
    (h : Derives (.expression phrase) (Word.scan text.toList) n) (tree : Expr) :
    Expr.ofText text = .ok tree ↔ n ≤ maxDepth ∧ phrase.build 0 = .ok tree := by
  constructor
  · intro htree
    rcases Expr.ofTextWith_complete (fun _ => true) h (by simp) with ⟨read, hn, hbuild, hok⟩ |
      ⟨-, hdeep⟩ | ⟨cause, -, herror⟩
    · cases htree.symm.trans hok
      exact ⟨hn, hbuild⟩
    · cases htree.symm.trans hdeep
    · cases htree.symm.trans herror
  · rintro ⟨hn, hbuild⟩
    exact Expr.ofTextWith_eq_ok h (by simp) hn hbuild

/-- A text whose words are a sentence that denotes a tree nests too deeply if there is less room
    than it needs. -/
theorem Expr.ofText_eq_tooDeep {text : String} {phrase : Phrase} {n : Nat} {tree : Expr}
    (h : Derives (.expression phrase) (Word.scan text.toList) n)
    (hbuild : phrase.build 0 = .ok tree) (hroom : maxDepth < n) :
    Expr.ofText text = .error (.parse .tooDeep) := by
  rcases Expr.ofTextWith_complete (fun _ => true) h (by simp) with ⟨-, hn, -⟩ | ⟨-, hdeep⟩ |
    ⟨cause, hcause, -⟩
  · exact absurd hn (Nat.not_le.2 hroom)
  · exact hdeep
  · cases hbuild.symm.trans hcause

/-- A text is read as a tree only if its words are a sentence that denotes the tree and needs no
    more room than there is. Where they are a sentence, it is read so, unless the sentence needs
    more room or a number does not convert. -/
theorem Expr.ofText_sentence (text : String) :
    (∀ tree, Expr.ofText text = .ok tree →
      ∃ words phrase n, Word.ofText text = words ++ [Word.endOfText] ∧
        Derives (.expression phrase) words n ∧ n ≤ maxDepth ∧ phrase.build 0 = .ok tree) ∧
    ∀ words phrase n, Word.ofText text = words ++ [Word.endOfText] →
      Derives (.expression phrase) words n →
        (∃ tree, n ≤ maxDepth ∧ phrase.build 0 = .ok tree ∧ Expr.ofText text = .ok tree) ∨
        (maxDepth < n ∧ Expr.ofText text = .error (.parse .tooDeep)) ∨
        ∃ word ∈ words, ∃ cause, (word.kind = .intLiteral ∨ word.kind = .realLiteral) ∧
          word.literal? = some (.error cause) ∧ phrase.build 0 = .error cause ∧
            Expr.ofText text = .error (.parse cause) := by
  constructor
  · intro tree h
    obtain ⟨phrase, n, hderives, hn, hbuild, -⟩ := Expr.ofTextWith_sound h
    exact ⟨Word.scan text.toList, phrase, n, Word.ofText_eq text, hderives, hn, hbuild⟩
  · intro words phrase n hwords hderives
    obtain rfl := Word.eq_scan_of_ofText hwords
    rcases Expr.ofTextWith_complete (fun _ => true) hderives (by simp) with hread | hdeep |
      ⟨cause, hbuild, hanswer⟩
    · exact .inl hread
    · exact .inr (.inl hdeep)
    -- The literal that does not convert is a word of the text, and so a number.
    · have hmem := Phrase.mem_literals_of_error hbuild
      have hliterals : phrase.literals = (Word.scan text.toList).filterMap Word.literal? :=
        hderives.sameLiterals
      rw [hliterals] at hmem
      obtain ⟨word, hword, hliteral⟩ := List.mem_filterMap.1 hmem
      exact .inr (.inr ⟨word, hword, cause, (lexed_of_mem_scan hword).isNumber_of_error hliteral,
        hliteral, hbuild, hanswer⟩)

/-- A sum is read as its sentence denotes; a number past its range is a sentence with room to
    spare, and yet refused for that range. -/
theorem Expr.ofText_sentence_sum :
    (Expr.ofText "a + 1" = .ok (.binary 2 .add (.field 0 "a") (.literal 1 (.int 1) none)) ∧
      ∃ words phrase n, Word.ofText "a + 1" = words ++ [Word.endOfText] ∧
        Derives (.expression phrase) words n ∧ n ≤ maxDepth ∧
        phrase.build 0 = .ok (.binary 2 .add (.field 0 "a") (.literal 1 (.int 1) none))) ∧
    Derives (.expression (.literal (.error (.integerRange "4294967296")) none))
      [⟨.intLiteral, "4294967296"⟩] 2 ∧
    Expr.ofText "4294967296" = .error (.parse (.integerRange "4294967296")) := by
  have hliteral : Word.literal? ⟨.intLiteral, "4294967296"⟩ =
      some (.error (.integerRange "4294967296")) := by cbv
  have hwords : Word.ofText "4294967296" =
      [⟨.intLiteral, "4294967296"⟩] ++ [Word.endOfText] := by cbv
  have hsum : Expr.ofText "a + 1" =
      .ok (.binary 2 .add (.field 0 "a") (.literal 1 (.int 1) none)) := by cbv
  have hnumber := Derives.expression_of_operand (.literal hliteral)
  refine ⟨⟨hsum, (Expr.ofText_sentence "a + 1").1 _ hsum⟩, hnumber, ?_⟩
  rcases (Expr.ofText_sentence "4294967296").2 _ _ _ hwords hnumber with
    ⟨tree, -, hbuild, -⟩ | ⟨hdeep, -⟩ | ⟨word, -, cause, -, -, hbuild, hanswer⟩
  · cases hbuild
  · exact absurd hdeep (by decide)
  · cases hbuild
    exact hanswer

end UnitCheck
