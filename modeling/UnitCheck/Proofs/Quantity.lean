import UnitCheck.Proofs.Factor.Text
import UnitCheck.Proofs.Number.Signed
import UnitCheck.Proofs.Spacing
import UnitCheck.Quantity

/-!
  The text of a quantity reads back as the quantity.

  Neither the text of a value nor that of a unit has a blank in it (`Number.noBlank_floatText`,
  `Factor.noBlank_chars`). So the first blank in the text of a quantity is what stands between the
  two, and a reader that splits there and trims has both again, however many blanks there are
  between and around them (`ofText_parts`). A unit that is empty is left out, and so it is read
  again, since a text without a unit has the empty one.
-/

namespace UnitCheck

/-! ## Texts without blanks -/

namespace Text

variable {cs ds before after : List Char}

/-- A text without blanks. -/
def NoBlank (cs : List Char) : Prop := ∀ c ∈ cs, isBlank c = false

theorem noBlank_nil : NoBlank [] := by simp [NoBlank]

theorem allBlank_of_all (h : cs.all isBlank = true) : AllBlank cs := List.all_eq_true.1 h

theorem noBlank_of_all (h : cs.all (!isBlank ·) = true) : NoBlank cs := by
  simpa [NoBlank] using h

theorem NoBlank.cons {c : Char} (hc : isBlank c = false) (h : NoBlank cs) : NoBlank (c :: cs) :=
  List.forall_mem_cons.2 ⟨hc, h⟩

theorem NoBlank.append (h : NoBlank cs) (h' : NoBlank ds) : NoBlank (cs ++ ds) :=
  List.forall_mem_append.2 ⟨h, h'⟩

/-- A text neither starts nor ends with a blank. -/
structure Trimmed (cs : List Char) : Prop where
  first : ∀ c ∈ cs.head?, isBlank c = false
  last : ∀ c ∈ cs.getLast?, isBlank c = false

theorem NoBlank.trimmed (h : NoBlank cs) : Trimmed cs :=
  ⟨fun c hc => h c (List.mem_of_mem_head? hc), fun c hc => h c (List.mem_of_mem_getLast? hc)⟩

theorem skipBlanks_of_head (h : ∀ c ∈ cs.head?, isBlank c = false) : skipBlanks cs = cs := by
  cases cs with
  | nil => rfl
  | cons c cs => exact skipBlanks_of_not_isBlank (h c rfl) cs

/-- Blanks around a text are trimmed, and nothing else is. -/
theorem trimBlanks_append (hbefore : AllBlank before) (hafter : AllBlank after)
    (h : Trimmed cs) : trimBlanks (before ++ (cs ++ after)) = cs := by
  cases cs with
  | nil =>
    rw [trimBlanks, List.nil_append, skipBlanks_of_allBlank (hbefore.append hafter)]
    rfl
  | cons c cs =>
    have hblanks : AllBlank after.reverse := fun b hb => hafter b (List.mem_reverse.1 hb)
    have hlast : ∀ d ∈ (c :: cs).reverse.head?, isBlank d = false := by
      rw [List.head?_reverse]
      exact h.last
    rw [trimBlanks, skipBlanks_append hbefore, List.cons_append,
      skipBlanks_of_not_isBlank (h.first c rfl), ← List.cons_append, List.reverse_append,
      skipBlanks_append hblanks, skipBlanks_of_head hlast, List.reverse_reverse]

end Text

open Text (AllBlank allBlank_nil allBlank_of_all NoBlank noBlank_nil noBlank_of_all Trimmed isBlank
  trimBlanks trimBlanks_append)

/-! ## Values -/

namespace Number

/-- No number is written with a blank. -/
theorem Style.noBlank_number (style : Style) {f : Format} (hf : Format.WithinDecimalRange f)
    (negative : Bool) (code : Nat) : NoBlank (style.number f negative code) := by
  rw [Style.number]
  split
  · exact noBlank_of_all (by decide)
  · next hcode =>
    have hsign : NoBlank (if negative then ['-'] else []) := by
      cases negative with
      | true => exact noBlank_nil.cons (by decide)
      | false => exact noBlank_nil
    refine hsign.append ?_
    by_cases hfinite : code < f.infinity
    · obtain ⟨whole, fraction, exponent, htext, hwritten, -⟩ :=
        Format.exists_written hf style hfinite
      obtain ⟨power, hexponent⟩ := hwritten.isExponent
      rw [htext]
      exact IsNumber.not_isBlank
        ⟨whole, fraction, exponent, power, rfl, hwritten.isDigits, hwritten.isFraction, hexponent⟩
    -- What is not finite is infinity, which is written as a word unless it is zero.
    · obtain rfl : code = f.infinity := by omega
      unfold Style.magnitude
      split
      · split
        · exact noBlank_of_all (by decide)
        · exact noBlank_of_all (by decide)
      · rw [if_pos rfl]
        exact noBlank_of_all (by decide)

theorem noBlank_floatText (style : Style) (x : Float) : NoBlank (floatText style x) :=
  style.noBlank_number Format.binary64_withinDecimalRange _ _

/-- A text without characters is no number. -/
theorem readFloat_nil : readFloat [] = none := rfl

end Number

/-! ## Units -/

namespace Factor

theorem noBlank_entryText {e : String × Exponent} (h : IsSymbol e.1) : NoBlank (entryText e) := by
  have hsymbol : NoBlank e.1.toList := fun c hc => not_isBlank_of_isSymbolChar (h.chars c hc)
  rw [entryText]
  refine hsymbol.append ?_
  split
  · exact noBlank_nil
  · exact .cons (by decide) fun c hc =>
      not_isBlank_of_digit ((Number.isDigits_toDigits _).2 c hc)

theorem noBlank_intercalate {entries : List (String × Exponent)}
    (h : ∀ e ∈ entries, IsSymbol e.1) : NoBlank (['*'].intercalate (entries.map entryText)) := by
  induction entries with
  | nil => exact noBlank_nil
  | cons e entries ih =>
    obtain ⟨hhead, hrest⟩ := List.forall_mem_cons.1 h
    cases entries with
    | nil =>
      rw [List.map_singleton, List.intercalate_singleton]
      exact noBlank_entryText hhead
    | cons f entries =>
      rw [List.map_cons, List.map_cons, List.intercalate_cons_cons, List.append_assoc]
      exact (noBlank_entryText hhead).append ((ih hrest).cons (by decide))

theorem noBlank_sideText {t : Terms} (h : ∀ symbol ∈ t.symbols, IsSymbol symbol) :
    NoBlank (sideText t) :=
  noBlank_intercalate fun e he => h e.1 (List.mem_map_of_mem he)

/-- No unit is written with a blank if its symbols can be read. -/
theorem noBlank_chars {a : Factor} (h : ∀ symbol ∈ a.symbols, IsSymbol symbol) :
    NoBlank a.chars := by
  have hnumerator := noBlank_sideText fun s hs => h s (List.mem_append_left _ hs)
  have hdenominator := noBlank_sideText fun s hs => h s (List.mem_append_right _ hs)
  rw [chars]
  refine NoBlank.append ?_ ?_
  · split
    · exact noBlank_nil.cons (by decide)
    · exact hnumerator
  · split
    · exact noBlank_nil
    · exact hdenominator.cons (by decide)

/-- What is written of a factor has characters. -/
theorem chars_ne_nil {a : Factor} (h : ∀ symbol ∈ a.symbols, IsSymbol symbol) : a.chars ≠ [] := by
  intro hnil
  have hread := ofText_text h
  rw [text, hnil] at hread
  cases hread

end Factor

/-! ## Quantities -/

namespace Quantity

variable {before number between unit after : List Char} {value : Float}

/-- The unit that a text denotes behind the number, where there may be none. -/
def unitOfChars (cs : List Char) : Except UnitError Factor :=
  if cs = [] then .ok .one else Factor.ofChars cs

/-- A text is read in two parts, which its first blank separates. -/
theorem ofText_eq (text : String) :
    ofText text =
      match Number.readFloat ((trimBlanks text.toList).takeWhile (!isBlank ·)) with
      | none => .error (.malformedText 0 .expectedNumber)
      | some value =>
        (unitOfChars (trimBlanks ((trimBlanks text.toList).dropWhile (!isBlank ·)))).map
          (⟨value, ·⟩) := by
  unfold ofText
  dsimp only
  cases Number.readFloat ((trimBlanks text.toList).takeWhile (!isBlank ·)) with
  | none => rfl
  | some value =>
    dsimp only
    cases trimBlanks ((trimBlanks text.toList).dropWhile (!isBlank ·)) with
    | nil => rfl
    | cons c unit =>
      rw [unitOfChars, if_neg (List.cons_ne_nil c unit)]
      dsimp only
      cases Factor.ofChars (c :: unit) <;> rfl

/-- Blanks around the number and what follows it are passed. -/
theorem ofText_split {tail : List Char} (hbefore : AllBlank before) (hafter : AllBlank after)
    (hnumber : NoBlank number) (hvalue : Number.readFloat number = some value)
    (hfirst : ∀ c ∈ tail.head?, isBlank c = true)
    (hlast : ∀ c ∈ tail.getLast?, isBlank c = false) :
    ofText (String.ofList (before ++ (number ++ tail ++ after))) =
      (unitOfChars (trimBlanks tail)).map (⟨value, ·⟩) := by
  have hne : number ≠ [] := by
    rintro rfl
    rw [Number.readFloat_nil] at hvalue
    cases hvalue
  -- Neither end is blank, so only what stands around is trimmed.
  have htrimmed : Trimmed (number ++ tail) := by
    constructor
    · rw [List.head?_append_of_ne_nil _ hne]
      exact hnumber.trimmed.first
    · cases tail with
      | nil =>
        rw [List.append_nil]
        exact hnumber.trimmed.last
      | cons c cs =>
        rw [List.getLast?_append_of_ne_nil _ (List.cons_ne_nil c cs)]
        exact hlast
  have hpart : ∀ c ∈ number, (!isBlank c) = true := fun c hc => by rw [hnumber c hc]; rfl
  have hstop : ∀ c ∈ tail.head?, (!isBlank c) = false := fun c hc => by rw [hfirst c hc]; rfl
  -- The number ends at the first blank, or with the text.
  obtain ⟨htake, hdrop⟩ := Factor.span_append hpart hstop
  rw [ofText_eq, String.toList_ofList, trimBlanks_append hbefore hafter htrimmed, htake, hdrop,
    hvalue]

/-- A number alone, with blanks around it, is a quantity without a unit. -/
theorem ofText_number (hbefore : AllBlank before) (hafter : AllBlank after)
    (hnumber : NoBlank number) (hvalue : Number.readFloat number = some value) :
    ofText (String.ofList (before ++ (number ++ after))) = .ok ⟨value, .one⟩ := by
  have hsplit : ofText (String.ofList (before ++ (number ++ [] ++ after))) = _ :=
    ofText_split hbefore hafter hnumber hvalue (by simp) (by simp)
  rwa [List.append_nil] at hsplit

/-- A number and a unit, with blanks between and around them, are a quantity if the unit can be
    read. -/
theorem ofText_parts (hbefore : AllBlank before) (hbetween : AllBlank between)
    (hne : between ≠ []) (hafter : AllBlank after) (hnumber : NoBlank number)
    (hvalue : Number.readFloat number = some value) (hunit : Trimmed unit) (hunitNe : unit ≠ []) :
    ofText (String.ofList (before ++ (number ++ (between ++ unit) ++ after))) =
      (Factor.ofChars unit).map (⟨value, ·⟩) := by
  have hfirst : ∀ c ∈ (between ++ unit).head?, isBlank c = true := by
    rw [List.head?_append_of_ne_nil _ hne]
    exact fun c hc => hbetween c (List.mem_of_mem_head? hc)
  have hlast : ∀ c ∈ (between ++ unit).getLast?, isBlank c = false := by
    rw [List.getLast?_append_of_ne_nil _ hunitNe]
    exact hunit.last
  have htrim := trimBlanks_append hbetween allBlank_nil hunit
  rw [List.append_nil] at htrim
  rw [ofText_split hbefore hafter hnumber hvalue hfirst hlast, htrim, unitOfChars, if_neg hunitNe]

/-- What is read as a quantity has a unit whose symbols can be read. -/
theorem isSymbol_of_ofText {text : String} {quantity : Quantity Float}
    (h : ofText text = .ok quantity) :
    ∀ symbol ∈ quantity.unit.symbols, Factor.IsSymbol symbol := by
  rw [ofText_eq] at h
  split at h
  · cases h
  · generalize trimBlanks (List.dropWhile _ _) = cs at h
    rw [unitOfChars] at h
    split at h
    · cases h
      exact fun symbol hs => absurd hs List.not_mem_nil
    · cases hunit : Factor.ofChars cs with
      | error cause =>
        rw [hunit] at h
        cases h
      | ok a =>
        rw [hunit] at h
        cases h
        -- The unit was read, and what is read has only symbols that can be read.
        have hread : Factor.ofText (String.ofList cs) = .ok a := by
          rw [Factor.ofText, String.toList_ofList, hunit]
        exact Factor.isSymbol_of_ofText hread

theorem eq_one_of_isEmpty {a : Factor} (h : a.isEmpty = true) : a = .one := by
  obtain ⟨⟨above, habove⟩, ⟨below, hbelow⟩⟩ := a
  simp only [Factor.isEmpty, Terms.isEmpty, Bool.and_eq_true, List.isEmpty_iff] at h
  obtain ⟨rfl, rfl⟩ := h
  rfl

/-- The parts of a quantity that is written are read as they are, whatever blanks stand between and
    around them. -/
theorem ofText_spaced {quantity : Quantity Float} (hvalue : quantity.value.isNaN = false)
    (hunit : ∀ symbol ∈ quantity.unit.symbols, Factor.IsSymbol symbol)
    (hbefore : AllBlank before) (hbetween : AllBlank between) (hne : between ≠ [])
    (hafter : AllBlank after) :
    ofText (String.ofList (before ++
      (Number.floatText .plain quantity.value ++ (between ++ quantity.unit.chars) ++ after))) =
        .ok quantity := by
  have hread : Factor.ofChars quantity.unit.chars = .ok quantity.unit := by
    have htext := Factor.ofText_text hunit
    rwa [Factor.ofText, Factor.text, String.toList_ofList] at htext
  rw [ofText_parts hbefore hbetween hne hafter (Number.noBlank_floatText .plain _)
    (Number.readFloat_floatText .plain hvalue) (Factor.noBlank_chars hunit).trimmed
    (Factor.chars_ne_nil hunit), hread]
  rfl

/-- **What is written of a quantity is read as the quantity.** -/
theorem ofText_text {quantity : Quantity Float} (hvalue : quantity.value.isNaN = false)
    (hunit : ∀ symbol ∈ quantity.unit.symbols, Factor.IsSymbol symbol) :
    ofText quantity.text = .ok quantity := by
  obtain ⟨value, unit⟩ := quantity
  -- The unit one is left out, and without it there is no blank either.
  cases hempty : unit.isEmpty with
  | true =>
    obtain rfl := eq_one_of_isEmpty hempty
    have hbare := ofText_number allBlank_nil allBlank_nil (Number.noBlank_floatText .plain value)
      (Number.readFloat_floatText .plain hvalue)
    rwa [List.nil_append] at hbare
  | false =>
    have hblank : AllBlank [' '] := allBlank_of_all (by decide)
    have hspaced := ofText_spaced hvalue hunit allBlank_nil hblank (by simp) allBlank_nil
    rw [List.nil_append, List.append_nil, List.singleton_append] at hspaced
    dsimp only at hspaced
    rw [text]
    dsimp only
    rw [hempty, if_neg (by decide), hspaced]

/-- **Texts of quantities are read again.** A quantity whose value is no NaN and whose unit has
    symbols that can be read is read from what is written of it, and so it is with any blanks around
    its value and its unit and any, but at least one, between them. Every text that is read as a
    quantity with such a value, however its parts are written and whatever blanks it has, gives such
    a quantity. -/
theorem text_reread :
    (∀ quantity : Quantity Float, quantity.value.isNaN = false →
      (∀ symbol ∈ quantity.unit.symbols, Factor.IsSymbol symbol) →
        ofText quantity.text = .ok quantity ∧
        ∀ before between after : List Char, AllBlank before → AllBlank between → between ≠ [] →
          AllBlank after →
            ofText (String.ofList (before ++ (Number.floatText .plain quantity.value ++
              (between ++ quantity.unit.chars) ++ after))) = .ok quantity) ∧
    ∀ (text : String) (quantity : Quantity Float), ofText text = .ok quantity →
      quantity.value.isNaN = false →
        (∀ symbol ∈ quantity.unit.symbols, Factor.IsSymbol symbol) ∧
          ofText quantity.text = .ok quantity := by
  refine ⟨fun quantity hvalue hunit => ⟨ofText_text hvalue hunit, ?_⟩, ?_⟩
  · intro before between after hbefore hbetween hne hafter
    exact ofText_spaced hvalue hunit hbefore hbetween hne hafter
  · intro text quantity h hvalue
    have hunit := isSymbol_of_ofText h
    exact ⟨hunit, ofText_text hvalue hunit⟩

/-- A text with blanks in many places, and two texts of what it denotes. -/
theorem text_reread_respelled :
    let quantity : Quantity Float := ⟨Float.ofBits 0xBFE0000000000000, ⟨.empty, .single "s" .one⟩⟩
    ofText "\t -5.0e-1 \n1 / s " = .ok quantity ∧ quantity.value.isNaN = false ∧
      quantity.text = "-0.5 1/s" ∧ (∀ symbol ∈ quantity.unit.symbols, Factor.IsSymbol symbol) ∧
      ofText quantity.text = .ok quantity ∧ ofText "-0.5\t\t1/s\n" = .ok quantity := by
  intro quantity
  have hread : ofText "\t -5.0e-1 \n1 / s " = .ok quantity := by
    have hbefore : AllBlank ['\t', ' '] := allBlank_of_all (by decide)
    have hbetween : AllBlank [' ', '\n'] := allBlank_of_all (by decide)
    have hafter : AllBlank [' '] := allBlank_of_all (by decide)
    have hnumber : NoBlank "-5.0e-1".toList := noBlank_of_all (by decide)
    have hvalue : Number.readFloat "-5.0e-1".toList = some quantity.value := by decide +kernel
    have htrimmed : Trimmed ['1', ' ', '/', ' ', 's'] := ⟨by simp; decide, by simp; decide⟩
    have hparts := ofText_parts hbefore hbetween (by simp) hafter hnumber hvalue htrimmed (by simp)
    have hunit : Factor.ofChars ['1', ' ', '/', ' ', 's'] = .ok quantity.unit := by cbv
    rw [hunit] at hparts
    exact hparts
  have hvalue : quantity.value.isNaN = false := by decide +kernel
  have hnumber : Number.floatText .plain quantity.value = "-0.5".toList := by decide +kernel
  obtain ⟨hwritten, hreread⟩ := text_reread
  obtain ⟨hunit, -⟩ := hreread _ quantity hread hvalue
  obtain ⟨htext, hspaced⟩ := hwritten quantity hvalue hunit
  have hmore := hspaced [] ['\t', '\t'] ['\n'] allBlank_nil (allBlank_of_all (by decide)) (by simp)
    (allBlank_of_all (by decide))
  rw [hnumber] at hmore
  have hchars : quantity.text = "-0.5 1/s" := by
    rw [text, hnumber]
    decide
  exact ⟨hread, hvalue, hchars, hunit, htext, hmore⟩

end Quantity

end UnitCheck
