import Mathlib.Data.List.TakeWhile
import UnitCheck.Text.Blank

/-!
  Blanks around texts.
-/

namespace UnitCheck.Text

variable {blanks : List Char}

/-- What holds of all blanks, by their numbers. -/
theorem forall_blank {P : Char → Prop}
    (h : ∀ span ∈ blankSpans, ∀ k < span.2 + 1 - span.1, P (Char.ofNat (span.1 + k))) {c : Char}
    (hc : isBlank c = true) : P c := by
  obtain ⟨span, hspan, hfirst, hlast⟩ := exists_span_of_inSpans hc
  have hP := h span hspan (c.toNat - span.1) (by omega)
  rwa [Nat.add_sub_cancel' hfirst, Char.ofNat_toNat] at hP

/-- Blanks, or nothing. -/
def AllBlank (cs : List Char) : Prop := ∀ c ∈ cs, isBlank c = true

theorem allBlank_nil : AllBlank [] := by simp [AllBlank]

theorem AllBlank.append {blanks' : List Char} (h : AllBlank blanks) (h' : AllBlank blanks') :
    AllBlank (blanks ++ blanks') :=
  fun c hc => (List.mem_append.1 hc).elim (h c) (h' c)

/-- A text is the blanks in front of it and what is left without them. -/
theorem exists_blanks (cs : List Char) :
    ∃ blanks, AllBlank blanks ∧ cs = blanks ++ skipBlanks cs :=
  ⟨cs.takeWhile isBlank, List.all_eq_true.1 List.all_takeWhile,
    List.takeWhile_append_dropWhile.symm⟩

theorem skipBlanks_isSuffix (cs : List Char) : skipBlanks cs <:+ cs := List.dropWhile_suffix _

theorem skipBlanks_append (h : AllBlank blanks) (cs : List Char) :
    skipBlanks (blanks ++ cs) = skipBlanks cs :=
  List.dropWhile_append_of_pos h

theorem skipBlanks_of_allBlank (h : AllBlank blanks) : skipBlanks blanks = [] :=
  List.dropWhile_eq_nil_iff.2 h

theorem skipBlanks_of_not_isBlank {c : Char} (h : isBlank c = false) (cs : List Char) :
    skipBlanks (c :: cs) = c :: cs := by
  rw [skipBlanks_cons, h, if_neg (by decide)]

theorem skipBlanks_skipBlanks (cs : List Char) : skipBlanks (skipBlanks cs) = skipBlanks cs := by
  obtain ⟨blanks, hblanks, hcs⟩ := exists_blanks cs
  have hskip := skipBlanks_append hblanks (skipBlanks cs)
  rw [← hcs] at hskip
  exact hskip.symm

end UnitCheck.Text
