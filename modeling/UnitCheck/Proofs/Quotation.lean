import UnitCheck.Text.Escape

/-!
  Quoted texts that are read again.

  Reading undoes the escapes with a letter, but it knows no code points: the escape of a character
  that is written by its code point stands for itself. So a quoted text comes back as `reread`, and
  unchanged just when all its characters are plain (`reread_eq_self_iff`).
-/

namespace UnitCheck.Text

/-- A character whose written form stands for it. -/
def isPlain (c : Char) : Bool :=
  c = '\t' || c = '\r' || c = '\n' || (0x20 ≤ c.toNat && c.toNat ≤ 0x7e)

/-- What the written form of a character stands for. -/
def rereadChar (c : Char) : List Char := if isPlain c then [c] else escapeChar c

/-- What a written text stands for. -/
def reread (cs : List Char) : List Char := cs.flatMap rereadChar

/-! ## Reading a character -/

/-- What was read of a quoted text, with more in front of it. -/
def prepend (run : List Char) (outcome : Option (List Char × List Char)) :
    Option (List Char × List Char) :=
  outcome.map fun (value, rest) => (run ++ value, rest)

@[simp] theorem prepend_some (run value rest : List Char) :
    prepend run (some (value, rest)) = some (run ++ value, rest) := rfl

theorem prepend_prepend (run run' : List Char) (outcome : Option (List Char × List Char)) :
    prepend run (prepend run' outcome) = prepend (run ++ run') outcome := by
  cases outcome with
  | none => rfl
  | some outcome => simp [prepend]

theorem readQuoted_cons {mark c : Char} (hmark : c ≠ mark) (hescape : c ≠ '\\')
    (cs : List Char) : readQuoted mark (c :: cs) = prepend [c] (readQuoted mark cs) := by
  rw [readQuoted.eq_def]
  dsimp only
  rw [if_neg hmark, if_neg hescape]
  rfl

theorem readQuoted_escaped {mark : Char} (hmark : mark ≠ '\\') (e : Char) (cs : List Char) :
    readQuoted mark ('\\' :: e :: cs) = prepend (unescapeChar e) (readQuoted mark cs) := by
  rw [readQuoted, if_neg hmark.symm, if_pos rfl]
  rfl

/-- Characters that are no quote and no backslash stand for themselves. -/
theorem readQuoted_append {mark : Char} {run : List Char}
    (hrun : ∀ c ∈ run, c ≠ mark ∧ c ≠ '\\') (cs : List Char) :
    readQuoted mark (run ++ cs) = prepend run (readQuoted mark cs) := by
  induction run with
  | nil =>
    cases h : readQuoted mark cs with
    | none => exact h
    | some outcome => exact h
  | cons c run ih =>
    obtain ⟨hmark, hescape⟩ := hrun c List.mem_cons_self
    rw [List.cons_append, readQuoted_cons hmark hescape,
      ih fun d hd => hrun d (List.mem_cons_of_mem _ hd), prepend_prepend, List.singleton_append]

/-- What is read of a quoted text does not depend on what follows the closing quote. -/
theorem exists_of_readQuoted {mark : Char} {cs value rest : List Char}
    (h : readQuoted mark cs = some (value, rest)) :
    ∃ read, cs = read ++ rest ∧
      ∀ other, readQuoted mark (read ++ other) = some (value, other) := by
  -- Induction on the reader, which takes one character at a time, or two with a backslash.
  fun_induction readQuoted mark cs generalizing value with
  | case1 => cases h
  | case2 cs =>
    cases h
    refine ⟨[mark], rfl, fun other => ?_⟩
    rw [List.singleton_append, readQuoted.eq_def]
    exact if_pos rfl
  | case3 => cases h
  | case4 e cs hmark ih =>
    obtain ⟨⟨value', rest'⟩, hread, heq⟩ := Option.map_eq_some_iff.1 h
    cases heq
    obtain ⟨read, rfl, hother⟩ := ih hread
    refine ⟨'\\' :: e :: read, rfl, fun other => ?_⟩
    rw [List.cons_append, List.cons_append, readQuoted_escaped (Ne.symm hmark), hother]
    rfl
  | case5 c cs hmark hescape ih =>
    obtain ⟨⟨value', rest'⟩, hread, heq⟩ := Option.map_eq_some_iff.1 h
    cases heq
    obtain ⟨read, rfl, hother⟩ := ih hread
    refine ⟨c :: read, rfl, fun other => ?_⟩
    rw [List.cons_append, readQuoted_cons hmark hescape, hother]
    rfl

/-! ## Writing -/

/-- A quote of a literal. -/
def IsMark (mark : Char) : Prop := mark = '"' ∨ mark = '\''

theorem IsMark.ne {mark c : Char} (h : IsMark mark) (hc : c ≠ '"' ∧ c ≠ '\'') : c ≠ mark := by
  rcases h with rfl | rfl
  · exact hc.1
  · exact hc.2

theorem mem_digitChar {c : Char} {n : Nat} (h : c ∈ Nat.toDigits 16 n) :
    ∃ d < 16, c = d.digitChar := by
  induction n using Nat.strongRecOn with
  | ind n ih =>
    rw [Nat.toDigits_eq_if (by decide)] at h
    split at h
    · next hlt => exact ⟨n, hlt, List.mem_singleton.1 h⟩
    · next hge =>
      rcases List.mem_append.1 h with h | h
      · exact ih (n / 16) (by omega) h
      · exact ⟨n % 16, Nat.mod_lt n (by decide), List.mem_singleton.1 h⟩

/-- The digits of a code point are no quotes and no backslashes. -/
theorem ne_of_mem_toDigits {c : Char} {n : Nat} (h : c ∈ Nat.toDigits 16 n) :
    (c ≠ '"' ∧ c ≠ '\'') ∧ c ≠ '\\' := by
  obtain ⟨d, hd, rfl⟩ := mem_digitChar h
  have hall : ∀ d < 16,
      (d.digitChar ≠ '"' ∧ d.digitChar ≠ '\'') ∧ d.digitChar ≠ '\\' := by decide
  exact hall d hd

/-- A character that is not plain is written by its code point. -/
theorem escapeChar_of_not_isPlain {c : Char} (h : isPlain c = false) :
    escapeChar c = '\\' :: 'u' :: '\x7b' :: (Nat.toDigits 16 c.toNat ++ ['\x7d']) := by
  unfold escapeChar
  split
  · cases h
  · cases h
  · cases h
  · cases h
  · cases h
  · cases h
  · have hrange : ¬(0x20 ≤ c.toNat ∧ c.toNat ≤ 0x7e) := by
      intro hrange
      simp [isPlain, hrange] at h
    rw [if_neg hrange]
    rfl

/-- The digits of a code point are read as they are. -/
theorem readQuoted_codePoint {mark : Char} (hmark : IsMark mark) (n : Nat) (cs : List Char) :
    readQuoted mark ('\x7b' :: (Nat.toDigits 16 n ++ ['\x7d']) ++ cs) =
      prepend ('\x7b' :: (Nat.toDigits 16 n ++ ['\x7d'])) (readQuoted mark cs) := by
  apply readQuoted_append
  intro d hd
  rw [List.mem_cons, List.mem_append, List.mem_singleton] at hd
  rcases hd with rfl | hd | rfl
  · exact ⟨hmark.ne (by decide), by decide⟩
  · exact ⟨hmark.ne (ne_of_mem_toDigits hd).1, (ne_of_mem_toDigits hd).2⟩
  · exact ⟨hmark.ne (by decide), by decide⟩

/-- The written form of a character is read as what it stands for. -/
theorem readQuoted_escapeChar {mark : Char} (hmark : IsMark mark) (c : Char) (cs : List Char) :
    readQuoted mark (escapeChar c ++ cs) = prepend (rereadChar c) (readQuoted mark cs) := by
  have hbackslash : mark ≠ '\\' := by
    rcases hmark with rfl | rfl <;> decide
  cases hplain : isPlain c with
  | false =>
    rw [rereadChar, hplain, if_neg (by decide), escapeChar_of_not_isPlain hplain]
    simp only [List.cons_append]
    -- The backslash and its letter stand for themselves, as the code point after them does.
    rw [readQuoted_escaped hbackslash, ← List.cons_append, readQuoted_codePoint hmark,
      prepend_prepend]
    rfl
  | true =>
    rw [rereadChar, if_pos hplain]
    unfold escapeChar
    split
    · exact readQuoted_escaped hbackslash 't' cs
    · exact readQuoted_escaped hbackslash 'r' cs
    · exact readQuoted_escaped hbackslash 'n' cs
    · exact readQuoted_escaped hbackslash '\'' cs
    · exact readQuoted_escaped hbackslash '"' cs
    · exact readQuoted_escaped hbackslash '\\' cs
    · next htab hreturn hline hsingle hdouble hslash =>
      have hrange : 0x20 ≤ c.toNat ∧ c.toNat ≤ 0x7e := by
        simp only [isPlain, Bool.or_eq_true, Bool.and_eq_true, decide_eq_true_eq] at hplain
        rcases hplain with ((h | h) | h) | h
        · exact absurd h htab
        · exact absurd h hreturn
        · exact absurd h hline
        · exact h
      rw [if_pos hrange]
      exact readQuoted_cons (hmark.ne ⟨hdouble, hsingle⟩) hslash cs

/-- A quoted text is read as what it stands for. -/
theorem readQuoted_escape {mark : Char} (hmark : IsMark mark) (cs rest : List Char) :
    readQuoted mark (escape cs ++ mark :: rest) = some (reread cs, rest) := by
  induction cs with
  | nil =>
    show readQuoted mark (mark :: rest) = some ([], rest)
    unfold readQuoted
    exact if_pos rfl
  | cons c cs ih =>
    rw [escape, List.flatMap_cons, List.append_assoc, ← escape, readQuoted_escapeChar hmark, ih,
      prepend_some, reread, reread, List.flatMap_cons]

/-! ## Texts that come back -/

theorem reread_of_plain {cs : List Char} (h : cs.all isPlain = true) : reread cs = cs := by
  induction cs with
  | nil => rfl
  | cons c cs ih =>
    rw [List.all_cons, Bool.and_eq_true] at h
    rw [reread, List.flatMap_cons, rereadChar, if_pos h.1, ← reread, ih h.2, List.singleton_append]

theorem length_rereadChar {c : Char} (h : isPlain c = false) : 1 < (rereadChar c).length := by
  rw [rereadChar, if_neg (by simp [h])]
  simp [escapeChar_of_not_isPlain h]

theorem length_le_length_reread (cs : List Char) : cs.length ≤ (reread cs).length := by
  induction cs with
  | nil => exact Nat.le_refl _
  | cons c cs ih =>
    have hc : 1 ≤ (rereadChar c).length := by
      cases hplain : isPlain c with
      | true => simp [rereadChar, hplain]
      | false => exact Nat.le_of_lt (length_rereadChar hplain)
    rw [reread, List.flatMap_cons, List.length_append, List.length_cons, ← reread]
    omega

/-- Only plain texts come back as they were. -/
theorem reread_eq_self_iff {cs : List Char} : reread cs = cs ↔ cs.all isPlain = true := by
  refine ⟨fun h => ?_, reread_of_plain⟩
  induction cs with
  | nil => rfl
  | cons c cs ih =>
    rw [reread, List.flatMap_cons, ← reread] at h
    cases hplain : isPlain c with
    | true =>
      rw [rereadChar, if_pos hplain, List.singleton_append] at h
      rw [List.all_cons, hplain, ih (List.cons.inj h).2, Bool.true_and]
    | false =>
      -- A code point takes more than one character, and nothing takes less.
      have hlength := congrArg List.length h
      rw [List.length_append, List.length_cons] at hlength
      have hc := length_rereadChar hplain
      have hcs := length_le_length_reread cs
      omega

end UnitCheck.Text
