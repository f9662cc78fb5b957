import UnitCheck.Proofs.Number.Float
import UnitCheck.Proofs.Numeral
import UnitCheck.Proofs.Parser.Steps
import UnitCheck.Proofs.Places
import UnitCheck.Proofs.Scanning

/-!
  Numbers among the tokens of a text.

  Three parts make a number (`IsNumber`), and each of them is taken as far as it goes, so what the
  lexer finds is the longest number in front of the text (`Numeral.numberAt_atStart`). The run after
  it is a suffix as a whole or not at all. Letters of suffixes are neither digits nor marks of
  exponents, hence the parser, which looks for the suffix from the other end, splits the token at
  the same place and finds a suffix that selects a type; only the range of that type can be missed.
-/

namespace UnitCheck

open Number (IsDigits IsFraction IsExponent NoDigit noDigit_cons noDigit_nil splitDigits
  splitDigits_append splitDigits_of_noDigit)

/-! ## Numbers -/

/-- Digits, then maybe a point with digits, then maybe an exponent with digits. -/
def IsNumber (cs : List Char) : Prop :=
  ∃ whole fraction exponent power, cs = whole ++ (fraction ++ exponent) ∧ IsDigits whole ∧
    IsFraction fraction ∧ IsExponent exponent power

namespace Numeral

/-! ## Parts at the start of a text -/

theorem forall_isDigit_splitDigits (cs : List Char) : ∀ c ∈ (splitDigits cs).1, c.isDigit = true :=
  List.all_eq_true.1 List.all_takeWhile

theorem isPrefix_splitDigits {ds : List Char} (h : ∀ c ∈ ds, c.isDigit = true)
    (rest : List Char) : ds <+: (splitDigits (ds ++ rest)).1 := by
  rw [splitDigits, List.takeWhile_append_of_pos h]
  exact List.prefix_append _ _

/-- Digits that are found where one stands. -/
theorem isDigits_splitDigits {c : Char} (hc : c.isDigit = true) (cs : List Char) :
    IsDigits (splitDigits (c :: cs)).1 := by
  refine ⟨?_, forall_isDigit_splitDigits _⟩
  rw [splitDigits, List.takeWhile_cons_of_pos hc]
  exact List.cons_ne_nil _ _

theorem isFraction_splitFraction (cs : List Char) : IsFraction (splitFraction cs).1 := by
  unfold splitFraction
  split
  · split
    · next hd => exact .inr ⟨_, rfl, isDigits_splitDigits hd _⟩
    · exact .inl rfl
  · exact .inl rfl

theorem isExponent_splitExponent (cs : List Char) :
    ∃ power, IsExponent (splitExponent cs).1 power := by
  have hnone : ∃ power, IsExponent [] power := ⟨0, .inl ⟨rfl, rfl⟩⟩
  -- Digits that were looked for and found.
  have hdigits : ∀ ds : List Char, ¬ (splitDigits ds).1.isEmpty = true →
      IsDigits (splitDigits ds).1 :=
    fun ds h => ⟨by simpa using h, forall_isDigit_splitDigits ds⟩
  unfold splitExponent
  split
  · exact hnone
  · next e cs =>
    split
    · next he =>
      split
      · exact hnone
      · next s ds =>
        dsimp only
        split
        · next hs =>
          split
          · exact hnone
          · next hne =>
            refine ⟨_, .inr ⟨e, [s], _, decide (s = '-'), rfl, he, ?_, hdigits ds hne, rfl⟩⟩
            rcases hs with rfl | rfl <;> simp
        · split
          · exact hnone
          · next hne =>
            exact ⟨_, .inr ⟨e, [], _, false, rfl, he, .inl ⟨rfl, rfl⟩, hdigits _ hne, rfl⟩⟩
    · exact hnone

theorem isPrefix_splitFraction {fraction : List Char} (h : IsFraction fraction)
    (rest : List Char) : fraction <+: (splitFraction (fraction ++ rest)).1 := by
  rcases h with rfl | ⟨digits, rfl, hdigits⟩
  · exact List.nil_prefix
  · have hlongest := isPrefix_splitDigits hdigits.2 rest
    cases digits with
    | nil => exact absurd rfl hdigits.1
    | cons d ds =>
      rw [List.cons_append, List.cons_append, splitFraction,
        if_pos (hdigits.2 d List.mem_cons_self)]
      exact List.cons_prefix_cons.2 ⟨rfl, hlongest⟩

theorem isPrefix_splitExponent {exponent : List Char} {power : Int}
    (h : IsExponent exponent power) (rest : List Char) :
    exponent <+: (splitExponent (exponent ++ rest)).1 := by
  rcases h with ⟨rfl, -⟩ | ⟨mark, sign, digits, negative, rfl, hmark, hsign, hdigits, -⟩
  · exact List.nil_prefix
  · rw [splitExponent_mark hmark hsign hdigits]
    have hlongest := isPrefix_splitDigits hdigits.2 rest
    exact List.cons_prefix_cons.2 ⟨rfl, (List.prefix_append_right_inj sign).2 hlongest⟩

/-- An exponent starts with its mark. -/
theorem head_append_of_ne_nil {exponent : List Char} {power : Int} (h : IsExponent exponent power)
    (hne : exponent ≠ []) (after : List Char) :
    ∀ c ∈ (exponent ++ after).head?, c.isDigit = false ∧ c ≠ '.' := by
  rcases h with ⟨rfl, -⟩ | ⟨mark, sign, digits, negative, rfl, hmark, -⟩
  · exact absurd rfl hne
  · rcases hmark with rfl | rfl <;> simp

theorem noDigit_append_of_ne_nil {fraction exponent : List Char} {power : Int}
    (hfraction : IsFraction fraction) (hexponent : IsExponent exponent power)
    (hne : fraction ++ exponent ≠ []) (after : List Char) :
    NoDigit (fraction ++ exponent ++ after) := by
  rcases hfraction with rfl | ⟨digits, rfl, -⟩
  · exact fun c hc => (head_append_of_ne_nil hexponent hne after c hc).1
  · exact noDigit_cons rfl

/-- A fraction and an exponent in front of a text are part of what is found there. -/
theorem isPrefix_fraction_exponent {f e after fraction exponent behind rest : List Char}
    {power : Int} (hf : IsFraction f) (he : IsExponent e power)
    (hfraction : splitFraction (f ++ (e ++ after)) = (fraction, behind))
    (hexponent : splitExponent behind = (exponent, rest)) :
    f ++ e <+: fraction ++ exponent := by
  by_cases hne : e = []
  · have hlongest := isPrefix_splitFraction hf (e ++ after)
    rw [hfraction] at hlongest
    rw [hne, List.append_nil]
    exact hlongest.trans (List.prefix_append _ _)
  -- The exponent ends the fraction, so this is the same.
  · have hsame := splitFraction_of_isFraction hf (head_append_of_ne_nil he hne after)
    rw [hfraction] at hsame
    obtain ⟨rfl, rfl⟩ := Prod.mk.inj hsame
    have hlongest := isPrefix_splitExponent he after
    rw [hexponent] at hlongest
    exact (List.prefix_append_right_inj _).2 hlongest

/-! ## The longest number -/

/-- The three parts at the start of a text, and the text after them. -/
structure Parts (text whole fraction exponent rest : List Char) : Prop where
  whole : splitDigits text = (whole, fraction ++ (exponent ++ rest))
  fraction : splitFraction (fraction ++ (exponent ++ rest)) = (fraction, exponent ++ rest)
  exponent : splitExponent (exponent ++ rest) = (exponent, rest)

theorem exists_parts (text : List Char) :
    ∃ whole fraction exponent rest, Parts text whole fraction exponent rest := by
  obtain ⟨whole, behind, hwhole⟩ : ∃ whole behind, splitDigits text = (whole, behind) :=
    ⟨_, _, rfl⟩
  obtain ⟨fraction, behind', hfraction⟩ :
      ∃ fraction behind', splitFraction behind = (fraction, behind') := ⟨_, _, rfl⟩
  obtain ⟨exponent, rest, hexponent⟩ :
      ∃ exponent rest, splitExponent behind' = (exponent, rest) := ⟨_, _, rfl⟩
  have hsplit := splitFraction_append behind
  have hsplit' := splitExponent_append behind'
  rw [hfraction] at hsplit
  rw [hexponent] at hsplit'
  subst hsplit'
  subst hsplit
  exact ⟨whole, fraction, exponent, rest, hwhole, hfraction, hexponent⟩

namespace Parts

variable {text whole fraction exponent rest : List Char}

theorem text_eq (h : Parts text whole fraction exponent rest) :
    text = whole ++ (fraction ++ (exponent ++ rest)) := by
  have hsplit := splitDigits_append text
  rw [h.whole] at hsplit
  exact hsplit.symm

/-- Where a digit stands, the parts are those of a number. -/
theorem isNumber {c : Char} {cs : List Char} (h : Parts (c :: cs) whole fraction exponent rest)
    (hc : c.isDigit = true) :
    IsDigits whole ∧ IsFraction fraction ∧ ∃ power, IsExponent exponent power := by
  have hwhole := isDigits_splitDigits hc cs
  have hfraction := isFraction_splitFraction (fraction ++ (exponent ++ rest))
  have hexponent := isExponent_splitExponent (exponent ++ rest)
  rw [h.whole] at hwhole
  rw [h.fraction] at hfraction
  rw [h.exponent] at hexponent
  exact ⟨hwhole, hfraction, hexponent⟩

/-- No number in front of the text goes further than the parts. -/
theorem longest (h : Parts text whole fraction exponent rest) {other : List Char}
    (hother : IsNumber other) (hfront : other <+: text) :
    other <+: whole ++ (fraction ++ exponent) := by
  obtain ⟨digits, f, e, power, rfl, hdigits, hf, he⟩ := hother
  obtain ⟨after, rfl⟩ := hfront
  obtain ⟨hwhole, hfraction, hexponent⟩ := h
  by_cases hfe : f ++ e = []
  · have hlongest := isPrefix_splitDigits hdigits.2 ((f ++ e) ++ after)
    rw [← List.append_assoc, hwhole] at hlongest
    rw [hfe, List.append_nil]
    exact hlongest.trans (List.prefix_append _ _)
  -- A fraction or an exponent ends the digits, so these are the same.
  · have hsame := splitDigits_of_noDigit hdigits.2 (noDigit_append_of_ne_nil hf he hfe after)
    rw [← List.append_assoc, hwhole, List.append_assoc] at hsame
    obtain ⟨rfl, hbehind⟩ := Prod.mk.inj hsame
    rw [hbehind] at hfraction
    exact (List.prefix_append_right_inj _).2
      (isPrefix_fraction_exponent hf he hfraction hexponent)

end Parts

/-! ## Suffixes -/

/-- The suffixes of integers, in small letters. -/
def integerSuffixes : List (List Char) := [['u'], ['l'], ['u', 'l'], ['l', 'u']]

/-- The suffixes of real numbers, in small letters. -/
def realSuffixes : List (List Char) := [['d'], ['f'], ['m']]

/-- The suffixes that may follow a number. Those of integers follow digits alone. -/
def suffixes (number : List Char) : List (List Char) :=
  if number.all Char.isDigit then integerSuffixes ++ realSuffixes else realSuffixes

theorem isSome_integerSuffix?_iff {suffix : List Char} :
    (integerSuffix? suffix).isSome = true ↔ foldSuffix suffix ∈ integerSuffixes := by
  unfold integerSuffix?
  split <;> simp_all [integerSuffixes]

theorem isSome_realSuffix?_iff {suffix : List Char} :
    (realSuffix? suffix).isSome = true ↔ foldSuffix suffix ∈ realSuffixes := by
  unfold realSuffix?
  split <;> simp_all [realSuffixes]

/-- A fraction and an exponent have characters that are no digits. -/
theorem hasPoint_eq_false_iff {whole fraction exponent : List Char} {power : Int}
    (hwhole : IsDigits whole) (hfraction : IsFraction fraction)
    (hexponent : IsExponent exponent power) (suffix : List Char) :
    (⟨whole, fraction, exponent, suffix⟩ : Numeral).hasPoint = false ↔
      (whole ++ (fraction ++ exponent)).all Char.isDigit = true := by
  rw [List.all_append, List.all_append, List.all_eq_true.2 hwhole.2, Bool.true_and, hasPoint]
  rcases hfraction with rfl | ⟨digits, rfl, -⟩
  · rcases hexponent with ⟨rfl, -⟩ | ⟨mark, sign, digits, negative, rfl, rfl | rfl, -⟩
    · simp
    · simp
    · simp
  · simp

/-- What is read of the run after a number. -/
def suffixOf (number run : List Char) : List Char :=
  if foldSuffix run ∈ suffixes number then run else []

/-- The parts of a number make a numeral with what the run after them is read as. -/
theorem Parts.atStart_eq {c : Char} {cs whole fraction exponent rest : List Char}
    (h : Parts (c :: cs) whole fraction exponent rest) (hc : c.isDigit = true) :
    atStart (c :: cs) = ⟨whole, fraction, exponent,
      suffixOf (whole ++ (fraction ++ exponent)) (rest.takeWhile isIdentifierChar)⟩ := by
  obtain ⟨hwhole, hfraction, power, hexponent⟩ := h.isNumber hc
  have hpoint := hasPoint_eq_false_iff hwhole hfraction hexponent []
  unfold atStart
  rw [h.whole]
  dsimp only
  rw [h.fraction]
  dsimp only
  rw [h.exponent]
  dsimp only
  rw [suffixOf]
  generalize rest.takeWhile isIdentifierChar = run
  -- The run is taken just if it is a suffix for a number of this form.
  have hiff : ((realSuffix? run).isSome ||
      !(⟨whole, fraction, exponent, []⟩ : Numeral).hasPoint && (integerSuffix? run).isSome) =
        true ↔ foldSuffix run ∈ suffixes (whole ++ (fraction ++ exponent)) := by
    rw [Bool.or_eq_true, Bool.and_eq_true, Bool.not_eq_true', hpoint, isSome_realSuffix?_iff,
      isSome_integerSuffix?_iff, suffixes]
    split
    · next hall => simp [hall, or_comm]
    · next hall => simp [hall]
  by_cases hsuffix : foldSuffix run ∈ suffixes (whole ++ (fraction ++ exponent))
  · rw [if_pos (hiff.2 hsuffix), if_pos hsuffix]
  · rw [if_neg (mt hiff.1 hsuffix), if_neg hsuffix]

/-- What is read of a run is nothing or a suffix that suits the number. -/
theorem suffixOf_suits (number run : List Char) : suffixOf number run = [] ∨
    (realSuffix? (suffixOf number run)).isSome = true ∨
      number.all Char.isDigit = true ∧ (integerSuffix? (suffixOf number run)).isSome = true := by
  rw [isSome_realSuffix?_iff, isSome_integerSuffix?_iff, suffixOf]
  split
  · next hmem =>
    rw [suffixes] at hmem
    split at hmem
    · next hall =>
      rcases List.mem_append.1 hmem with hmem | hmem
      · exact .inr (.inr ⟨hall, hmem⟩)
      · exact .inr (.inl hmem)
    · exact .inr (.inl hmem)
  · exact .inl rfl

/-- What is read of the run at the start of a text, and the text after it. -/
theorem suffixOf_append_drop (number rest : List Char) :
    suffixOf number (rest.takeWhile isIdentifierChar) ++
      rest.drop (suffixOf number (rest.takeWhile isIdentifierChar)).length = rest := by
  rw [suffixOf]
  split
  · rw [← List.prefix_iff_eq_append]
    exact List.takeWhile_prefix _
  · rfl

theorem hasPoint_atStart {c : Char} (hc : c.isDigit = true) (cs : List Char) :
    (atStart (c :: cs)).hasPoint = false ↔
      (atStart (c :: cs)).number.all Char.isDigit = true := by
  obtain ⟨whole, fraction, exponent, rest, hparts⟩ := exists_parts (c :: cs)
  obtain ⟨hwhole, hfraction, power, hexponent⟩ := hparts.isNumber hc
  rw [hparts.atStart_eq hc, hasPoint_eq_false_iff hwhole hfraction hexponent, number,
    List.append_assoc]

theorem proper_atStart {c : Char} (hc : c.isDigit = true) (cs : List Char) :
    (atStart (c :: cs)).Proper := by
  obtain ⟨whole, fraction, exponent, rest, hparts⟩ := exists_parts (c :: cs)
  obtain ⟨hwhole, hfraction, power, hexponent⟩ := hparts.isNumber hc
  rw [hparts.atStart_eq hc]
  refine ⟨hwhole, hfraction, ⟨power, hexponent⟩, ?_⟩
  rw [hasPoint_eq_false_iff hwhole hfraction hexponent]
  exact suffixOf_suits _ _

/-- The number at the start of a text, its suffix, and the text after them. -/
structure NumberAt (text number suffix after : List Char) : Prop where
  text_eq : text = number ++ (suffix ++ after)
  isNumber : IsNumber number
  longest : ∀ other, IsNumber other → other <+: text → other <+: number
  /-- The whole run of identifier characters after the number, if that is a suffix. -/
  suffix_eq : suffix = suffixOf number ((suffix ++ after).takeWhile isIdentifierChar)

theorem numberAt_atStart {c : Char} (hc : c.isDigit = true) (cs : List Char) :
    NumberAt (c :: cs) (atStart (c :: cs)).number (atStart (c :: cs)).suffix
      ((c :: cs).drop (atStart (c :: cs)).chars.length) := by
  obtain ⟨whole, fraction, exponent, rest, hparts⟩ := exists_parts (c :: cs)
  obtain ⟨hwhole, hfraction, power, hexponent⟩ := hparts.isNumber hc
  have htext := hparts.text_eq
  have hlongest := @hparts.longest
  rw [hparts.atStart_eq hc, chars, number, List.append_assoc]
  dsimp only
  generalize hnumber : whole ++ (fraction ++ exponent) = number at hlongest
  -- The suffix and what follows it are the rest.
  have hrest := suffixOf_append_drop number rest
  have hafter : (c :: cs).drop (number ++ suffixOf number (rest.takeWhile
      isIdentifierChar)).length =
        rest.drop (suffixOf number (rest.takeWhile isIdentifierChar)).length := by
    rw [htext, ← List.append_assoc fraction, ← List.append_assoc, hnumber, List.length_append,
      ← List.drop_drop, List.drop_left]
  rw [hafter]
  refine ⟨?_, ⟨whole, fraction, exponent, power, hnumber.symm, hwhole, hfraction, hexponent⟩,
    fun other hother hfront => hlongest hother hfront, ?_⟩
  · rw [hrest, ← hnumber, List.append_assoc, List.append_assoc]
    exact htext
  · rw [hrest]

/-- There is only one longest number, and only one suffix after it. -/
theorem NumberAt.unique {text number suffix after number' suffix' after' : List Char}
    (h : NumberAt text number suffix after) (h' : NumberAt text number' suffix' after') :
    number' = number ∧ suffix' = suffix := by
  have hfront := List.prefix_append number (suffix ++ after)
  have hfront' := List.prefix_append number' (suffix' ++ after')
  rw [← h.text_eq] at hfront
  rw [← h'.text_eq] at hfront'
  have hle := h.longest number' h'.isNumber hfront'
  have hge := h'.longest number h.isNumber hfront
  obtain rfl : number' = number := hle.eq_of_length_le hge.length_le
  have hrest := List.append_cancel_left (h'.text_eq.symm.trans h.text_eq)
  refine ⟨rfl, ?_⟩
  rw [h'.suffix_eq, hrest, ← h.suffix_eq]

end Numeral

/-! ## Values -/

/-- The integer that a literal is. -/
def Literal.integer? : Literal → Option Int
  | int v => some v.toInt
  | uint v => some v.toNat
  | long v => some v.toInt
  | ulong v => some v.toNat
  | _ => none

/-- The least natural number that is too large for an integer type of literals. -/
def ValueType.integerBound : ValueType → Nat
  | int => 2 ^ 31
  | uint => 2 ^ 32
  | long => 2 ^ 63
  | ulong => 2 ^ 64
  | _ => 0

namespace Parser

open Numeral (integerSuffix? realSuffix?)

/-- The type of an integer literal with this suffix. -/
def integerType? (suffix : List Char) : Option ValueType :=
  if suffix.isEmpty then some .int else integerSuffix? suffix

/-- The type of a real literal with this suffix. -/
def realType? (suffix : List Char) : Option ValueType :=
  if suffix.isEmpty then some .double else realSuffix? suffix

variable {text : String} {number suffix : List Char} {type : ValueType}

theorem inRange_eq (bound : Nat) (digits : List Char) (make : Nat → Literal)
    (cause : SyntaxError) :
    (match (below bound digits).map make with
      | some value => (Except.ok value : Except SyntaxError Literal)
      | none => .error cause) =
      if Nat.ofDigitChars 10 digits 0 < bound then .ok (make (Nat.ofDigitChars 10 digits 0))
      else .error cause := by
  by_cases h : Nat.ofDigitChars 10 digits 0 < bound
  · simp [below, h]
  · simp [below, h]

/-- An integer literal is the integer of its digits, unless that is too large for its type. -/
theorem readInteger_eq (hsplit : splitSuffix text.toList = (number, suffix))
    (htype : integerType? suffix = some type) :
    ∃ make : Nat → Literal,
      (∀ n < type.integerBound, (make n).type? = some type ∧ (make n).integer? = some ↑n) ∧
      readInteger text =
        if Nat.ofDigitChars 10 number 0 < type.integerBound then
          .ok (make (Nat.ofDigitChars 10 number 0))
        else .error (.integerRange text) := by
  unfold readInteger
  rw [hsplit]
  dsimp only
  unfold integerType? at htype
  split at htype
  · next hempty =>
    obtain rfl := Option.some.inj htype
    rw [if_pos hempty]
    refine ⟨fun n => .int (.ofNat n), fun n hn => ⟨rfl, ?_⟩, inRange_eq _ _ _ _⟩
    exact congrArg some (Int32.toInt_ofNat_of_lt hn)
  · next hempty =>
    rw [if_neg hempty, htype]
    -- A suffix of an integer selects one of three types, and each has its own range.
    have hcases : type = .uint ∨ type = .long ∨ type = .ulong := by
      unfold integerSuffix? at htype
      split at htype <;> simp_all
    rcases hcases with rfl | rfl | rfl
    · refine ⟨fun n => .uint (.ofNat n), fun n hn => ⟨rfl, ?_⟩, inRange_eq _ _ _ _⟩
      exact congrArg (fun m : Nat => some (m : Int)) (UInt32.toNat_ofNat_of_lt' hn)
    · refine ⟨fun n => .long (.ofNat n), fun n hn => ⟨rfl, ?_⟩, inRange_eq _ _ _ _⟩
      exact congrArg some (Int64.toInt_ofNat_of_lt hn)
    · refine ⟨fun n => .ulong (.ofNat n), fun n hn => ⟨rfl, ?_⟩, inRange_eq _ _ _ _⟩
      exact congrArg (fun m : Nat => some (m : Int)) (UInt64.toNat_ofNat_of_lt' hn)

/-- A number is read in each of the machine formats. -/
theorem exists_read_of_isNumber (h : IsNumber number) (f : Number.Format) :
    ∃ code, f.read number = some (false, code) := by
  obtain ⟨whole, fraction, exponent, power, rfl, hwhole, hfraction, hexponent⟩ := h
  rw [Number.Format.read, Number.splitSign_of_digits hwhole]
  dsimp only
  rw [f.readDecimal_parts hwhole hfraction hexponent]
  exact ⟨_, rfl⟩

/-- A real literal is read by the reader of its type, and only that of decimals may fail. -/
theorem readReal_eq (hnumber : IsNumber number)
    (hsplit : splitSuffix text.toList = (number, suffix))
    (htype : realType? suffix = some type) :
    (type = .double ∧
      ∃ x, Number.readFloat number = some x ∧ readReal text = .ok (.double x)) ∨
    (type = .float ∧
      ∃ x, Number.readFloat32 number = some x ∧ readReal text = .ok (.float x)) ∨
    type = .decimal := by
  -- The form alone makes a double, and a suffix selects one of three types.
  have hcases : type = .double ∨ type = .float ∨ type = .decimal := by
    unfold realType? at htype
    split at htype
    · simp_all
    · unfold realSuffix? at htype
      split at htype <;> simp_all
  unfold readReal
  rw [hsplit]
  dsimp only
  unfold realType? at htype
  rw [htype]
  rcases hcases with rfl | rfl | rfl
  · obtain ⟨code, hcode⟩ := exists_read_of_isNumber hnumber .binary64
    refine .inl ⟨rfl, _, by rw [Number.readFloat, hcode]; rfl, ?_⟩
    rw [Number.readFloat, hcode]
    rfl
  · obtain ⟨code, hcode⟩ := exists_read_of_isNumber hnumber .binary32
    refine .inr (.inl ⟨rfl, _, by rw [Number.readFloat32, hcode]; rfl, ?_⟩)
    rw [Number.readFloat32, hcode]
    rfl
  · exact .inr (.inr rfl)

end Parser

/-! ## Tokens -/

/-- The token of a number with its suffix, and what the parser makes of it. -/
structure Token.IsNumeral (token : Token) (number suffix : List Char) : Prop where
  value : token.value = String.ofList (number ++ suffix)
  kind : token.kind =
    if number.all Char.isDigit = true ∧ Numeral.foldSuffix suffix ∉ Numeral.realSuffixes
    then .intLiteral else .realLiteral
  split : Parser.splitSuffix token.value.toList = (number, suffix)
  /-- An integer is the number of its digits, unless that is too large for its type. -/
  integer : token.kind = .intLiteral → ∃ type, Parser.integerType? suffix = some type ∧
    (Nat.ofDigitChars 10 number 0 < type.integerBound →
      ∃ value, Parser.readInteger token.value = .ok value ∧ value.type? = some type ∧
        value.integer? = some ↑(Nat.ofDigitChars 10 number 0)) ∧
    (type.integerBound ≤ Nat.ofDigitChars 10 number 0 →
      Parser.readInteger token.value = .error (.integerRange token.value))
  /-- A real number that is no decimal has a value. -/
  real : token.kind = .realLiteral → ∃ type, Parser.realType? suffix = some type ∧
    ((type = .double ∧ ∃ x, Number.readFloat number = some x ∧
        Parser.readReal token.value = .ok (.double x)) ∨
      (type = .float ∧ ∃ x, Number.readFloat32 number = some x ∧
        Parser.readReal token.value = .ok (.float x)) ∨
      type = .decimal)

namespace Numeral

/-- Without the form and the suffix of a real number a suffix is one of integers. -/
theorem Proper.exists_integerType {n : Numeral} (h : n.Proper) (hreal : n.isReal = false) :
    ∃ type, Parser.integerType? n.suffix = some type := by
  obtain ⟨-, hnone⟩ := Bool.or_eq_false_iff.1 hreal
  unfold Parser.integerType?
  rcases h.suffix with hsuffix | hsuffix | ⟨-, hsuffix⟩
  · rw [hsuffix]
    exact ⟨.int, rfl⟩
  · rw [hnone] at hsuffix
    cases hsuffix
  · split
    · exact ⟨_, rfl⟩
    · exact Option.isSome_iff_exists.1 hsuffix

/-- After the form of a real number a suffix is one of real numbers. -/
theorem Proper.exists_realType {n : Numeral} (h : n.Proper) (hreal : n.isReal = true) :
    ∃ type, Parser.realType? n.suffix = some type := by
  have hsuffix : n.suffix = [] ∨ (realSuffix? n.suffix).isSome = true := by
    rcases h.suffix with hsuffix | hsuffix | ⟨hpoint, -⟩
    · exact .inl hsuffix
    · exact .inr hsuffix
    · rw [isReal, hpoint, Bool.false_or] at hreal
      exact .inr hreal
  unfold Parser.realType?
  rcases hsuffix with hsuffix | hsuffix
  · rw [hsuffix]
    exact ⟨.double, rfl⟩
  · split
    · exact ⟨_, rfl⟩
    · exact Option.isSome_iff_exists.1 hsuffix

/-- The token of the numeral where a digit stands. -/
theorem isNumeral_atStart {c : Char} (hc : c.isDigit = true) (cs : List Char) {token : Token}
    (hkind : token.kind = if (atStart (c :: cs)).isReal then .realLiteral else .intLiteral)
    (hvalue : token.value = String.ofList (atStart (c :: cs)).chars) :
    token.IsNumeral (atStart (c :: cs)).number (atStart (c :: cs)).suffix := by
  have hproper := proper_atStart hc cs
  have hpoint := hasPoint_atStart hc cs
  have hnumber := (numberAt_atStart hc cs).isNumber
  generalize atStart (c :: cs) = n at hkind hvalue hproper hpoint hnumber ⊢
  -- The parser splits the token where the lexer has put its parts together.
  have hsplit : Parser.splitSuffix token.value.toList = (n.number, n.suffix) := by
    rw [hvalue, String.toList_ofList]
    exact splitSuffix_chars hproper
  -- An integer has only digits and no suffix of a real number.
  have hreal : n.isReal = false ↔
      n.number.all Char.isDigit = true ∧ foldSuffix n.suffix ∉ realSuffixes := by
    rw [isReal, Bool.or_eq_false_iff, hpoint, ← isSome_realSuffix?_iff, Bool.not_eq_true]
  cases hform : n.isReal with
  | false =>
    rw [hform, if_neg (by decide)] at hkind
    refine ⟨hvalue, ?_, hsplit, fun _ => ?_, fun h => ?_⟩
    · rw [hkind, if_pos (hreal.1 hform)]
    · obtain ⟨type, htype⟩ := hproper.exists_integerType hform
      obtain ⟨make, hmake, hread⟩ := Parser.readInteger_eq hsplit htype
      refine ⟨type, htype, fun hlt => ?_, fun hge => ?_⟩
      · rw [if_pos hlt] at hread
        exact ⟨_, hread, hmake _ hlt⟩
      · rw [hread, if_neg (Nat.not_lt.2 hge)]
    · rw [hkind] at h
      cases h
  | true =>
    rw [hform, if_pos rfl] at hkind
    refine ⟨hvalue, ?_, hsplit, fun h => ?_, fun _ => ?_⟩
    · rw [hkind, if_neg fun h => absurd (hreal.2 h) (by simp [hform])]
    · rw [hkind] at h
      cases h
    · obtain ⟨type, htype⟩ := hproper.exists_realType hform
      exact ⟨type, htype, Parser.readReal_eq hnumber hsplit htype⟩

end Numeral

/-! ## Suffixes that are none -/

theorem Parser.cause_of_readReal {text : String} {cause : SyntaxError}
    (h : Parser.readReal text = .error cause) : cause = .realNumber text := by
  unfold Parser.readReal at h
  dsimp only at h
  split at h
  · cases h
  · cases h
    rfl

theorem Token.IsNumeral.literalValue?_ne {token : Token} {number suffix : List Char}
    (h : token.IsNumeral number suffix) (text : String) :
    Parser.literalValue? token ≠ some (.error (.integerSuffix text)) := by
  intro herror
  have hkind := h.kind
  split at hkind
  · obtain ⟨type, -, hfits, hrange⟩ := h.integer hkind
    rw [Parser.literalValue?, hkind] at herror
    have hread : Parser.readInteger token.value = .error (.integerSuffix text) :=
      Option.some.inj herror
    -- The digits fit the type of the suffix or they do not, and neither blames the suffix.
    rcases Nat.lt_or_ge (Nat.ofDigitChars 10 number 0) type.integerBound with hlt | hge
    · obtain ⟨value, hvalue, -⟩ := hfits hlt
      rw [hvalue] at hread
      cases hread
    · rw [hrange hge] at hread
      cases hread
  · rw [Parser.literalValue?, hkind] at herror
    cases Parser.cause_of_readReal (Option.some.inj herror)

/-- No word of a text is an integer with a suffix that is none. -/
theorem Lexed.literal?_ne {word : Word} (h : Lexed word) (text : String) :
    word.literal? ≠ some (.error (.integerSuffix text)) := by
  intro herror
  have hkind := h.isNumber_of_error herror
  cases h with
  | @numeral c cs kind hc hform =>
    exact (Numeral.isNumeral_atStart hc cs hform rfl).literalValue?_ne text herror
  | @name run kind hname hword =>
    rcases Lexed.wordKind_cases (String.ofList run) with ⟨keyword, h⟩ | h | h <;>
      simp [hword, h] at hkind
  | symbol | string | character | invalid => simp at hkind

/-- A parser that was made for a text never tells that letters are no suffix. -/
theorem Parser.parse_ne_integerSuffix {text : String} {p : Parser}
    (h : p.tokens <:+ (Parser.ofText text).tokens) (allowed : String → Bool) (written : String) :
    (p.parse allowed).1 ≠ .error (.parse (.integerSuffix written)) := by
  intro herror
  have hsteps := Parser.steps_parse allowed p
  rw [herror] at hsteps
  rcases hsteps.cause with hcause | hcause | ⟨token, hmem, hvalue⟩
  · cases hcause
  · cases hcause
  · have hscan : token.word ∈ Word.scan text.toList := by
      have hwords := map_word_scan (Cursor.start text.toList)
      exact hwords ▸ List.mem_map_of_mem (h.subset hmem)
    exact (lexed_of_mem_scan hscan).literal?_ne written hvalue

/-! ## Numbers of a text -/

/-- **Numbers are read as they are found.** Where a text goes on with a digit, the next token is
    the longest number there with the run after it, if that is a suffix, and with nothing of the
    run otherwise. The parser finds the same number and the same suffix in it, and a type for the
    suffix: an integer has a value of that type unless its digits exceed the range, and a real
    number of machine format always has one. That letters are no suffix is never told. -/
theorem numbers_read_as_found :
    (∀ (cursor : Cursor) (c : Char) (cs : List Char),
      Text.skipBlanks cursor.rest = c :: cs → c.isDigit = true →
      ∃ number suffix, Numeral.NumberAt (c :: cs) number suffix cursor.next.2.rest ∧
        cursor.next.1.IsNumeral number suffix) ∧
    ∀ (text : String) (p : Parser), p.tokens <:+ (Parser.ofText text).tokens →
      ∀ allowed written, (p.parse allowed).1 ≠ .error (.parse (.integerSuffix written)) := by
  refine ⟨fun cursor c cs hrest hc => ?_, fun text p h => Parser.parse_ne_integerSuffix h⟩
  refine ⟨(Numeral.atStart (c :: cs)).number, (Numeral.atStart (c :: cs)).suffix, ?_⟩
  obtain ⟨-, hlexeme⟩ := Lexeme.atStart_of_digit hc cs
  have hlength : (Lexeme.numeral (c :: cs)).length = (Numeral.atStart (c :: cs)).chars.length := rfl
  rw [Cursor.next_of_cons hrest, hlexeme, Cursor.rest_advance, Cursor.rest_skipBlanks, hrest,
    hlength]
  exact ⟨Numeral.numberAt_atStart hc cs, Numeral.isNumeral_atStart hc cs rfl rfl⟩

/-- The exponent and the suffix of `12e3F` belong to the number, and the sum starts after them. -/
theorem numbers_read_as_found_single :
    let cursor := Cursor.start " 12e3F+1".toList
    Text.skipBlanks cursor.rest = '1' :: "2e3F+1".toList ∧ '1'.isDigit = true ∧
      cursor.next = (⟨.realLiteral, "12e3F", ⟨1, 1, 2⟩⟩, ⟨"+1".toList, ⟨6, 1, 7⟩⟩) ∧
      ∃ number suffix, Numeral.NumberAt ('1' :: "2e3F+1".toList) number suffix cursor.next.2.rest ∧
        cursor.next.1.IsNumeral number suffix := by
  intro cursor
  have hrest : Text.skipBlanks cursor.rest = '1' :: "2e3F+1".toList := by cbv
  have hdigit : '1'.isDigit = true := by decide
  exact ⟨hrest, hdigit, by cbv, numbers_read_as_found.1 cursor _ _ hrest hdigit⟩

end UnitCheck
