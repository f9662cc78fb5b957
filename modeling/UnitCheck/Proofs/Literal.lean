import UnitCheck.Proofs.Number.Decimal
import UnitCheck.Proofs.Number.Float
import UnitCheck.Proofs.Parser.Literal
import UnitCheck.Proofs.Scanning

/-!
  Written literals.

  No literal of a text has a sign (`Lexed.unsigned`). Such a literal is written as one word
  (`Literal.Unsigned.reads`), which is a literal again unless the value is infinite or a character
  that is written by its code point (`Literal.Unsigned.literal?_word`). Among those only a string
  with such characters comes back as another value.
-/

namespace UnitCheck

open Number (Decimal Format IsDigits IsFraction IsExponent isDigits_toDigits)

namespace Literal

/-! ## Values -/

/-- Whether the value is the infinite number, which has no numeral. -/
def isInfinite : Literal → Bool
  | double x => x.toBits.toNat = Format.binary64.infinity
  | float x => x.toBits.toNat = Format.binary32.infinity
  | _ => false

/-- Whether the value is a character that is written by its code point. -/
def isCodePoint : Literal → Bool
  | char c => !Text.isPlain c
  | _ => false

/-- What the written value stands for: strings keep the escapes that the reader does not know. -/
def reread : Literal → Literal
  | string s => string (String.ofList (Text.reread s.toList))
  | value => value

/-- Whether the written value is read as the value. -/
def survives : Literal → Bool
  | char c => Text.isPlain c
  | string s => s.toList.all Text.isPlain
  | value => !value.isInfinite

/-- The value is not below zero. -/
def Unsigned : Literal → Prop
  | int n => 0 ≤ n.toInt
  | long n => 0 ≤ n.toInt
  | double x => ∃ code ≤ Format.binary64.infinity, x = Float.ofBits (UInt64.ofNat code)
  | float x => ∃ code ≤ Format.binary32.infinity, x = Float32.ofBits (UInt32.ofNat code)
  | decimal a => a.negative = false
  | _ => True

/-- The kind of the word that the written value is. -/
def kind : Literal → Token.Kind
  | int _ | uint _ | long _ | ulong _ => .intLiteral
  | double x => if (double x).isInfinite then .identifier else .realLiteral
  | float x => if (float x).isInfinite then .identifier else .realLiteral
  | decimal _ => .realLiteral
  | char c => if Text.isPlain c then .charLiteral else .invalid
  | string _ => .stringLiteral
  | bool true => .keyword .true
  | bool false => .keyword .false
  | null => .keyword .null

/-- The word that the written value is. -/
def word (value : Literal) : Word where
  kind := value.kind
  value :=
    match value with
    | char c =>
      if Text.isPlain c then String.ofList [c]
      else (LexicalError.characterLength (String.ofList (Text.rereadChar c))).message
    | string s => String.ofList (Text.reread s.toList)
    | value => value.text

theorem isInfinite_of_survives {value : Literal} (h : value.survives = true) :
    value.isInfinite = false := by
  cases value with
  | double x => simpa [survives] using h
  | float x => simpa [survives] using h
  | _ => rfl

theorem isCodePoint_of_survives {value : Literal} (h : value.survives = true) :
    value.isCodePoint = false := by
  cases value with
  | char c =>
    rw [survives] at h
    rw [isCodePoint, h, Bool.not_true]
  | _ => rfl

theorem reread_of_survives {value : Literal} (h : value.survives = true) :
    value.reread = value := by
  cases value with
  | string s =>
    rw [reread, Text.reread_of_plain h, String.ofList_toList]
  | _ => rfl

/-! ## Integers -/

/-- The numeral of an integer. -/
def integer (n : Nat) (suffix : List Char) : Numeral := ⟨Nat.toDigits 10 n, [], [], suffix⟩

/-- The numeral is written for the value and read as it. -/
structure Spelled (value : Literal) (n : Numeral) : Prop where
  proper : n.Proper
  chars : value.chars = n.chars
  kind : value.kind = if n.isReal then .realLiteral else .intLiteral
  literal? : (⟨value.kind, String.ofList n.chars⟩ : Word).literal? = some (.ok value)

theorem proper_integer (n : Nat) {suffix : List Char}
    (h : suffix = [] ∨ (Numeral.integerSuffix? suffix).isSome = true) :
    (integer n suffix).Proper where
  whole := isDigits_toDigits n
  fraction := .inl rfl
  exponent := ⟨0, .inl ⟨rfl, rfl⟩⟩
  suffix := h.imp_right fun h => .inr ⟨rfl, h⟩

theorem isReal_integer (n : Nat) {suffix : List Char}
    (h : suffix = [] ∨ (Numeral.integerSuffix? suffix).isSome = true) :
    (integer n suffix).isReal = false := by
  have hreal : Numeral.realSuffix? suffix = none := by
    rcases h with rfl | h
    · rfl
    · unfold Numeral.integerSuffix? at h
      unfold Numeral.realSuffix?
      split at h <;> simp_all
  simp [integer, Numeral.isReal, Numeral.hasPoint, hreal]

/-- An integer is spelled by its digits and a suffix when they are read as it. -/
theorem spelled_integer {value : Literal} {n : Nat} {suffix : List Char}
    (hsuffix : suffix = [] ∨ (Numeral.integerSuffix? suffix).isSome = true)
    (hkind : value.kind = .intLiteral) (hchars : value.chars = Nat.toDigits 10 n ++ suffix)
    (hread : ∀ text : String, Parser.splitSuffix text.toList = (Nat.toDigits 10 n, suffix) →
      Parser.readInteger text = .ok value) : value.Spelled (integer n suffix) where
  proper := proper_integer n hsuffix
  chars := by simp [hchars, integer, Numeral.chars, Numeral.number]
  kind := by rw [hkind, isReal_integer n hsuffix, if_neg (by decide)]
  literal? := by
    rw [hkind]
    show some (Parser.readInteger _) = _
    rw [hread]
    rw [String.toList_ofList, Numeral.splitSuffix_chars (proper_integer n hsuffix)]
    simp [integer, Numeral.number]

theorem below_toDigits {bound n : Nat} (h : n < bound) :
    Parser.below bound (Nat.toDigits 10 n) = some n := by
  rw [Parser.below, Nat.ofDigitChars_ten_toDigits]
  exact if_pos h

theorem spelled_int {n : Int32} (hn : 0 ≤ n.toInt) :
    (int n).Spelled (integer n.toInt.natAbs []) := by
  have hlt := n.toInt_lt
  have hvalue : Int32.ofNat n.toInt.natAbs = n := by
    rw [← Int32.toInt_inj, Int32.toInt_ofNat_of_lt (by omega)]
    omega
  have hbound : n.toInt.natAbs < UInt32.size / 2 := by
    show n.toInt.natAbs < 2 ^ 31
    omega
  apply spelled_integer (.inl rfl) rfl
  · rw [chars, intText, if_neg (Int.not_lt.2 hn), List.nil_append, List.append_nil]
  intro text hsplit
  simp only [Parser.readInteger, hsplit, List.isEmpty_nil, if_true, below_toDigits hbound,
    Option.map_some, hvalue]

theorem spelled_uint (n : UInt32) : (uint n).Spelled (integer n.toNat ['u']) := by
  have hbound : n.toNat < UInt32.size := n.toNat_lt
  have hselect : Numeral.integerSuffix? ['u'] = some .uint := rfl
  apply spelled_integer (.inr rfl) rfl rfl
  intro text hsplit
  simp only [Parser.readInteger, hsplit, List.isEmpty_cons, Bool.false_eq_true, if_false, hselect,
    below_toDigits hbound, Option.map_some, UInt32.ofNat_toNat]

theorem spelled_long {n : Int64} (hn : 0 ≤ n.toInt) :
    (long n).Spelled (integer n.toInt.natAbs ['L']) := by
  have hlt := n.toInt_lt
  have hvalue : Int64.ofNat n.toInt.natAbs = n := by
    rw [← Int64.toInt_inj, Int64.toInt_ofNat_of_lt (by omega)]
    omega
  have hbound : n.toInt.natAbs < UInt64.size / 2 := by
    show n.toInt.natAbs < 2 ^ 63
    omega
  have hselect : Numeral.integerSuffix? ['L'] = some .long := rfl
  apply spelled_integer (.inr rfl) rfl
  · rw [chars, intText, if_neg (Int.not_lt.2 hn), List.nil_append]
  intro text hsplit
  simp only [Parser.readInteger, hsplit, List.isEmpty_cons, Bool.false_eq_true, if_false, hselect,
    below_toDigits hbound, Option.map_some, hvalue]

theorem spelled_ulong (n : UInt64) : (ulong n).Spelled (integer n.toNat ['U', 'L']) := by
  have hbound : n.toNat < UInt64.size := n.toNat_lt
  have hselect : Numeral.integerSuffix? ['U', 'L'] = some .ulong := rfl
  apply spelled_integer (.inr rfl) rfl rfl
  intro text hsplit
  simp only [Parser.readInteger, hsplit, List.isEmpty_cons, Bool.false_eq_true, if_false, hselect,
    below_toDigits hbound, Option.map_some, UInt64.ofNat_toNat]

/-! ## Real numbers -/

theorem proper_of_written {f : Format} {code : Nat} {whole fraction exponent : List Char}
    (h : f.Written code whole fraction exponent) (suffix : List Char)
    (hsuffix : suffix = [] ∨ (Numeral.realSuffix? suffix).isSome = true) :
    (⟨whole, fraction, exponent, suffix⟩ : Numeral).Proper where
  whole := h.isDigits
  fraction := h.isFraction
  exponent := h.isExponent
  suffix := hsuffix.imp_right .inl

/-- A real number is spelled by a numeral that is read as it. -/
theorem spelled_real {value : Literal} {n : Numeral} (hproper : n.Proper) (hreal : n.isReal = true)
    (hkind : value.kind = .realLiteral) (hchars : value.chars = n.chars)
    (hread : ∀ text : String, Parser.splitSuffix text.toList = (n.number, n.suffix) →
      Parser.readReal text = .ok value) : value.Spelled n where
  proper := hproper
  chars := hchars
  kind := by rw [hkind, hreal, if_pos rfl]
  literal? := by
    rw [hkind]
    show some (Parser.readReal _) = _
    rw [hread _ (by rw [String.toList_ofList, Numeral.splitSuffix_chars hproper])]

theorem isInfinite_double {code : Nat} (h : code ≤ Format.binary64.infinity) :
    (double (Float.ofBits (UInt64.ofNat code))).isInfinite = true ↔
      code = Format.binary64.infinity := by
  rw [isInfinite, Number.toNat_toBits_ofBits h, decide_eq_true_eq]

theorem isInfinite_float {code : Nat} (h : code ≤ Format.binary32.infinity) :
    (float (Float32.ofBits (UInt32.ofNat code))).isInfinite = true ↔
      code = Format.binary32.infinity := by
  rw [isInfinite, Number.toNat_toBits_ofBits32 h, decide_eq_true_eq]

theorem exists_spelled_double {x : Float} (hx : (double x).Unsigned)
    (hfinite : (double x).isInfinite = false) : ∃ n, (double x).Spelled n := by
  obtain ⟨code, hle, rfl⟩ := hx
  -- Infinity has a code of its own, the greatest.
  have hlt : code < Format.binary64.infinity := by
    apply lt_of_le_of_ne hle
    intro heq
    rw [(isInfinite_double hle).2 heq] at hfinite
    cases hfinite
  -- The shortest decimal is a numeral, and its point makes it real without a suffix.
  obtain ⟨whole, fraction, exponent, htext, hwritten, hpoint⟩ :=
    Format.exists_written Format.binary64_withinDecimalRange .literal hlt
  have hproper := proper_of_written hwritten [] (.inl rfl)
  have hreal : (⟨whole, fraction, exponent, []⟩ : Numeral).isReal = true := by
    rcases hpoint rfl with h | h <;> simp [Numeral.isReal, Numeral.hasPoint, h]
  have hkind : (double (Float.ofBits (UInt64.ofNat code))).kind = .realLiteral := by
    rw [kind, if_neg (by simp [hfinite])]
  -- The same decimal is read back by rounding to the nearest number.
  have hread : Number.readFloat (whole ++ (fraction ++ exponent)) =
      some (Float.ofBits (UInt64.ofNat code)) := by
    rw [Number.readFloat, hwritten.read, Option.map_some, Format.pack_of_positive _ rfl]
  refine ⟨_, spelled_real hproper hreal hkind ?_ fun text hsplit => ?_⟩
  · rw [chars, Number.floatText_ofBits _ hle, htext]
    simp [Numeral.chars, Numeral.number]
  · simp only [Parser.readReal, hsplit, Numeral.number, List.append_assoc, List.isEmpty_nil,
      if_true, hread, Option.map_some]

theorem exists_spelled_float {x : Float32} (hx : (float x).Unsigned)
    (hfinite : (float x).isInfinite = false) : ∃ n, (float x).Spelled n := by
  obtain ⟨code, hle, rfl⟩ := hx
  -- Infinity has a code of its own, the greatest.
  have hlt : code < Format.binary32.infinity := by
    apply lt_of_le_of_ne hle
    intro heq
    rw [(isInfinite_float hle).2 heq] at hfinite
    cases hfinite
  -- The shortest decimal is a numeral, and the suffix makes it real, with a point or without.
  obtain ⟨whole, fraction, exponent, htext, hwritten, -⟩ :=
    Format.exists_written Format.binary32_withinDecimalRange .literal hlt
  have hproper := proper_of_written hwritten ['f'] (.inr rfl)
  have hreal : (⟨whole, fraction, exponent, ['f']⟩ : Numeral).isReal = true := Bool.or_true _
  have hkind : (float (Float32.ofBits (UInt32.ofNat code))).kind = .realLiteral := by
    rw [kind, if_neg (by simp [hfinite])]
  -- The same decimal is read back by rounding to the nearest number.
  have hread : Number.readFloat32 (whole ++ (fraction ++ exponent)) =
      some (Float32.ofBits (UInt32.ofNat code)) := by
    rw [Number.readFloat32, hwritten.read, Option.map_some, Format.pack_of_positive _ rfl]
  have hselect : Numeral.realSuffix? ['f'] = some .float := rfl
  refine ⟨_, spelled_real hproper hreal hkind ?_ fun text hsplit => ?_⟩
  · rw [chars, Number.float32Text_ofBits _ hle, htext]
    simp [Numeral.chars, Numeral.number]
  · simp only [Parser.readReal, hsplit, Numeral.number, List.append_assoc, List.isEmpty_cons,
      Bool.false_eq_true, if_false, hselect, hread, Option.map_some]

theorem exists_spelled_decimal {a : Decimal} (ha : a.negative = false) :
    ∃ n, (decimal a).Spelled n := by
  obtain ⟨whole, fraction, htext, hwhole, hfraction, -⟩ := a.magnitudeText_parts
  have hproper : (⟨whole, fraction, [], ['m']⟩ : Numeral).Proper :=
    ⟨hwhole, hfraction, ⟨0, .inl ⟨rfl, rfl⟩⟩, .inr (.inl rfl)⟩
  have hreal : (⟨whole, fraction, [], ['m']⟩ : Numeral).isReal = true := Bool.or_true _
  have hnumber : a.text = whole ++ fraction := by
    rw [Decimal.text, ha, if_neg (by decide), List.nil_append, htext]
  have hread : Decimal.read (whole ++ fraction) = some a := by
    rw [← hnumber, Decimal.read_text ha]
  have hselect : Numeral.realSuffix? ['m'] = some .decimal := rfl
  refine ⟨_, spelled_real hproper hreal rfl ?_ fun text hsplit => ?_⟩
  · rw [chars, hnumber]
    simp [Numeral.chars, Numeral.number]
  · simp only [Parser.readReal, hsplit, Numeral.number, List.append_nil, List.isEmpty_cons,
      Bool.false_eq_true, if_false, hselect, hread, Option.map_some]

/-! ## Written literals are words -/

theorem exists_spelled {value : Literal} (h : value.Unsigned) (hnumber : value.isNumeric = true)
    (hfinite : value.isInfinite = false) : ∃ n, value.Spelled n := by
  cases value with
  | int n => exact ⟨_, spelled_int h⟩
  | uint n => exact ⟨_, spelled_uint n⟩
  | long n => exact ⟨_, spelled_long h⟩
  | ulong n => exact ⟨_, spelled_ulong n⟩
  | double x => exact exists_spelled_double h hfinite
  | float x => exact exists_spelled_float h hfinite
  | decimal a => exact exists_spelled_decimal h
  | _ => cases hnumber

theorem word_of_isNumeric {value : Literal} (h : value.isNumeric = true) :
    value.word = ⟨value.kind, value.text⟩ := by
  cases value <;> first | rfl | cases h

/-- A finite number is written as one. -/
theorem kind_of_isNumeric {value : Literal} (h : value.isNumeric = true)
    (hfinite : value.isInfinite = false) :
    value.kind = .intLiteral ∨ value.kind = .realLiteral := by
  cases value with
  | double x => exact .inr (by rw [kind, if_neg (by simp [hfinite])])
  | float x => exact .inr (by rw [kind, if_neg (by simp [hfinite])])
  | decimal a => exact .inr rfl
  | int _ | uint _ | long _ | ulong _ => exact .inl rfl
  | _ => cases h

theorem Spelled.word_eq {value : Literal} {n : Numeral} (h : value.Spelled n)
    (hnumber : value.isNumeric = true) : value.word = ⟨value.kind, String.ofList n.chars⟩ := by
  rw [word_of_isNumeric hnumber, text, h.chars]

/-- The infinite number is written as a name. -/
theorem chars_of_isInfinite {value : Literal} (h : value.Unsigned)
    (hinfinite : value.isInfinite = true) :
    value.chars = ['i', 'n', 'f'] ∨ value.chars = ['i', 'n', 'f', 'f'] := by
  cases value with
  | double x =>
    obtain ⟨code, hle, rfl⟩ := h
    rw [isInfinite_double hle] at hinfinite
    subst hinfinite
    rw [chars, Number.floatText_ofBits _ hle]
    exact .inl rfl
  | float x =>
    obtain ⟨code, hle, rfl⟩ := h
    rw [isInfinite_float hle] at hinfinite
    subst hinfinite
    rw [chars, Number.float32Text_ofBits _ hle]
    exact .inr rfl
  | _ => cases hinfinite

theorem word_of_isInfinite {value : Literal} (hinfinite : value.isInfinite = true) :
    value.word = ⟨.identifier, value.text⟩ := by
  cases value with
  | double x => rw [word_of_isNumeric rfl, kind, if_pos hinfinite]
  | float x => rw [word_of_isNumeric rfl, kind, if_pos hinfinite]
  | _ => cases hinfinite

namespace Unsigned

variable {value : Literal}

/-- A literal without a sign is written as one word. -/
theorem reads (h : value.Unsigned) : Reads value.chars [value.word] := by
  cases hnumber : value.isNumeric with
  | true =>
    cases hinfinite : value.isInfinite with
    -- Infinity is written like a name.
    | true =>
      rw [word_of_isInfinite hinfinite, text]
      rcases chars_of_isInfinite h hinfinite with hchars | hchars
      · rw [hchars]
        exact (isName_of_letters (by decide) (by decide)).reads
      · rw [hchars]
        exact (isName_of_letters (by decide) (by decide)).reads
    | false =>
      obtain ⟨n, hn⟩ := exists_spelled h hnumber hinfinite
      have hreads := hn.proper.reads
      rw [← hn.kind] at hreads
      rw [hn.word_eq hnumber, hn.chars]
      exact hreads
  | false =>
    cases value with
    | char c =>
      have hreads := reads_character c
      rw [word, kind, chars]
      cases hplain : Text.isPlain c with
      | true => simpa [hplain] using hreads
      | false => simpa [hplain] using hreads
    | string s => exact reads_string s.toList
    | bool b =>
      cases b with
      | true => exact (isName_of_letters (by decide) (by decide)).reads
      | false => exact (isName_of_letters (by decide) (by decide)).reads
    | null => exact (isName_of_letters (by decide) (by decide)).reads
    | _ => cases hnumber

/-- The word of a literal is a literal, unless it is a name or no token at all. -/
theorem literal?_word (h : value.Unsigned) (hfinite : value.isInfinite = false)
    (hplain : value.isCodePoint = false) : value.word.literal? = some (.ok value.reread) := by
  -- Numbers are read from their numerals; the other values are told by the kind of the word.
  cases hnumber : value.isNumeric with
  | true =>
    obtain ⟨n, hn⟩ := exists_spelled h hnumber hfinite
    have hreread : value.reread = value := by
      cases value <;> first | rfl | cases hnumber
    rw [hn.word_eq hnumber, hn.literal?, hreread]
  | false =>
    cases value with
    | char c =>
      rw [isCodePoint, Bool.not_eq_false'] at hplain
      rw [word, kind, if_pos hplain, if_pos hplain, Word.literal?, Parser.literalValue?]
      simp [reread]
    | bool b => cases b <;> rfl
    | string s => rfl
    | null => rfl
    | _ => cases hnumber

end Unsigned

theorem literal?_word_of_isInfinite {value : Literal} (h : value.isInfinite = true) :
    value.word.literal? = none := by
  rw [word_of_isInfinite h]
  rfl

theorem kind_word_of_isCodePoint {value : Literal} (h : value.isCodePoint = true) :
    value.word.kind = .invalid := by
  cases value with
  | char c =>
    rw [isCodePoint, Bool.not_eq_true'] at h
    show (char c).kind = .invalid
    rw [kind, if_neg (by simp [h])]
  | _ => cases h

theorem literal?_word_of_isCodePoint {value : Literal} (h : value.isCodePoint = true) :
    value.word.literal? = none := by
  rw [Word.literal?, Parser.literalValue?, kind_word_of_isCodePoint h]

/-- What does not survive is not read as an equal value. -/
theorem not_same_of_not_survives {value other : Literal} (h : value.survives = false)
    (hother : value.word.literal? = some (.ok other)) : value.same other = false := by
  cases hinfinite : value.isInfinite with
  | true =>
    rw [literal?_word_of_isInfinite hinfinite] at hother
    cases hother
  | false =>
    cases value with
    | char c =>
      rw [literal?_word_of_isCodePoint (by rw [isCodePoint, ← survives, h]; rfl)] at hother
      cases hother
    -- A string is read again as a string, but with more characters.
    | string s =>
      have hreread : other = (string s).reread := by
        cases hother
        rfl
      rw [hreread, reread, same, decide_eq_false_iff_not]
      intro heq
      have hself : Text.reread s.toList = s.toList := by
        have := congrArg String.toList heq
        rw [String.toList_ofList] at this
        exact this.symm
      rw [survives, Text.reread_eq_self_iff.1 hself] at h
      cases h
    | _ => simp [survives, hinfinite] at h

end Literal

/-! ## Literals of a text -/

/-- The number of a numeral that starts with a digit does so, too. -/
theorem Parser.splitSuffix_of_digit {c : Char} (hc : c.isDigit = true) (cs : List Char) :
    ∃ ds, (splitSuffix (c :: cs)).1 = c :: ds := by
  have hletter : ¬isSuffixLetter c = true := by simp [isSuffixLetter_of_digit hc]
  rw [splitSuffix, List.reverse_cons, List.dropWhile_append]
  dsimp only
  split
  · rw [List.dropWhile_cons_of_neg hletter]
    exact ⟨[], rfl⟩
  · exact ⟨_, List.reverse_concat⟩

theorem Parser.unsigned_of_readInteger {text : String} {value : Literal}
    (h : readInteger text = .ok value) : value.Unsigned := by
  obtain ⟨n, rfl | rfl | ⟨rfl, hlt⟩ | ⟨rfl, hlt⟩⟩ := exists_of_readInteger h
  · trivial
  · trivial
  · show 0 ≤ (Int32.ofNat n).toInt
    rw [Int32.toInt_ofNat_of_lt hlt]
    omega
  · show 0 ≤ (Int64.ofNat n).toInt
    rw [Int64.toInt_ofNat_of_lt hlt]
    omega

/-- A real number whose text starts with a digit has no sign. -/
theorem Parser.unsigned_of_readReal {c : Char} {cs : List Char} (hc : c.isDigit = true)
    {value : Literal} (h : readReal (String.ofList (c :: cs)) = .ok value) : value.Unsigned := by
  obtain ⟨ds, hnumber⟩ := splitSuffix_of_digit hc cs
  have hcases := exists_of_readReal h
  rw [String.toList_ofList, hnumber] at hcases
  obtain ⟨x, hx, rfl⟩ | ⟨a, ha, rfl⟩ | ⟨x, hx, rfl⟩ := hcases
  · exact Number.readFloat32_of_digit hc hx
  · exact Decimal.negative_of_read hc ha
  · exact Number.readFloat_of_digit hc hx

/-- No literal of a text has a sign. -/
theorem Lexed.unsigned {word : Word} (h : Lexed word) {value : Literal}
    (hvalue : word.literal? = some (.ok value)) : value.Unsigned := by
  cases h with
  | symbol => cases hvalue
  | string =>
    cases hvalue
    trivial
  | character c =>
    have : value = .char c := by
      simp [Word.literal?, Parser.literalValue?] at hvalue
      exact hvalue.symm
    rw [this]
    trivial
  -- A numeral starts with a digit, so neither reader finds a sign.
  | @numeral c cs kind hdigit hkind =>
    obtain ⟨ds, hchars⟩ := Numeral.exists_chars_atStart hdigit cs
    rw [hkind, hchars] at hvalue
    cases hreal : (Numeral.atStart (c :: cs)).isReal with
    | true =>
      rw [hreal, if_pos rfl] at hvalue
      exact Parser.unsigned_of_readReal hdigit (Option.some.inj hvalue)
    | false =>
      rw [hreal, if_neg (by decide)] at hvalue
      exact Parser.unsigned_of_readInteger (Option.some.inj hvalue)
  | @name run kind hname hkind =>
    subst hkind
    unfold Word.literal? Parser.literalValue? at hvalue
    dsimp only at hvalue
    rcases wordKind_cases (String.ofList run) with ⟨keyword, h⟩ | h | h
    · rw [h] at hvalue
      cases keyword <;> cases hvalue <;> trivial
    · rw [h] at hvalue
      cases hvalue
    · rw [h] at hvalue
      cases hvalue
  | invalid => cases hvalue

end UnitCheck
