import UnitCheck.Json.Number
import UnitCheck.Proofs.Number.Machine

/-!
  Numbers of JSON are read back by their characters.

  What is written for a finite number has the parts of a decimal (`Format.exists_written`), and
  its whole part has no needless zero since the digits of a positive coefficient start with none
  (`LeadingZero`). So it is a number in the form of JSON (`IsNumber`), which is taken as a whole
  where nothing after it goes on with a number (`readNumber?_of_isNumber`).
-/

namespace UnitCheck.Json

open Number (IsDigits IsFraction IsExponent NoDigit Scientific Style Format splitDigits
  splitDigits_of_noDigit noDigit_nil noDigit_cons forall_digit)

/-! ## Form -/

/-- Nothing at the start of the text goes on with a number. -/
def EndsNumber (rest : List Char) : Prop :=
  ∀ c ∈ rest.head?, c.isDigit = false ∧ c ≠ '.' ∧ ¬(c = 'e' ∨ c = 'E')

theorem EndsNumber.noDigit {rest : List Char} (h : EndsNumber rest) : NoDigit rest :=
  fun c hc => (h c hc).1

/-- A zero at the start of the text is followed by no digit. -/
def LeadingZero (cs : List Char) : Prop := ∀ ds, cs = '0' :: ds → NoDigit ds

/-- A number in the form of JSON. -/
inductive IsNumber : List Char → Prop where
  | intro {minus whole fraction exponent : List Char} {power : Int}
      (hminus : minus = [] ∨ minus = ['-']) (hwhole : IsDigits whole) (hzero : LeadingZero whole)
      (hfraction : IsFraction fraction) (hexponent : IsExponent exponent power) :
      IsNumber (minus ++ (whole ++ (fraction ++ exponent)))

/-- A number starts with a digit or a minus sign. -/
theorem IsNumber.head {chars : List Char} (h : IsNumber chars) :
    ∃ c cs, chars = c :: cs ∧ (c.isDigit = true ∨ c = '-') := by
  obtain ⟨rfl | rfl, ⟨hne, hdigits⟩, -, -, -⟩ := h
  · obtain ⟨d, ds, rfl⟩ := List.exists_cons_of_ne_nil hne
    exact ⟨d, _, rfl, .inl (hdigits d List.mem_cons_self)⟩
  · exact ⟨'-', _, rfl, .inr rfl⟩

/-! ## Reading -/

theorem readWhole?_of_isDigits {whole rest : List Char} (hwhole : IsDigits whole)
    (hzero : LeadingZero whole) (hrest : NoDigit rest) :
    readWhole? (whole ++ rest) = some (whole, rest) := by
  unfold readWhole?
  rw [splitDigits_of_noDigit hwhole.2 hrest]
  split
  · next heq =>
    cases heq
    exact absurd rfl hwhole.1
  -- a zero that digits follow
  · next d ds after heq =>
    cases heq
    have hd : d.isDigit = true := hwhole.2 d (by simp)
    rw [hzero (d :: ds) rfl d rfl] at hd
    cases hd
  · next heq =>
    cases heq
    rfl

theorem readFraction?_of_isFraction {fraction rest : List Char} (hfraction : IsFraction fraction)
    (hrest : NoDigit rest) (hpoint : ∀ c ∈ rest.head?, c ≠ '.') :
    readFraction? (fraction ++ rest) = some (fraction, rest) := by
  obtain rfl | ⟨digits, rfl, hne, hdigits⟩ := hfraction
  · cases rest with
    | nil => rfl
    | cons c cs =>
      rw [List.nil_append, readFraction?]
      rintro cs heq
      cases heq
      exact hpoint '.' rfl rfl
  · rw [List.cons_append, readFraction?]
    dsimp only
    rw [splitDigits_of_noDigit hdigits hrest, if_neg (by simpa using hne)]

theorem readExponent?_of_isExponent {exponent rest : List Char} {power : Int}
    (hexponent : IsExponent exponent power) (hrest : EndsNumber rest) :
    readExponent? (exponent ++ rest) = some (exponent, rest) := by
  obtain ⟨rfl, -⟩ | ⟨mark, sign, digits, negative, rfl, hmark, hsign, ⟨hne, hdigits⟩, -⟩ :=
    hexponent
  · cases rest with
    | nil => rfl
    | cons c cs => rw [List.nil_append, readExponent?, if_neg (hrest c rfl).2.2]
  · have htaken : ((sign ++ digits ++ rest).take 1).filter (fun c => c = '+' || c = '-') =
        sign := by
      obtain ⟨d, ds, rfl⟩ := List.exists_cons_of_ne_nil hne
      obtain ⟨rfl, -⟩ | ⟨rfl, -⟩ | ⟨rfl, -⟩ := hsign
      -- A digit is no sign.
      · have hd : (d = '+' || d = '-') = false :=
          forall_digit (P := fun c => (c = '+' || c = '-') = false) (by decide)
            (hdigits d List.mem_cons_self)
        simp [hd]
      · simp
      · simp
    rw [List.cons_append, readExponent?, if_pos hmark]
    dsimp only
    rw [htaken, List.append_assoc, List.drop_left, splitDigits_of_noDigit hdigits hrest.noDigit,
      if_neg (by simpa using hne)]

/-- The first character after a fraction is that of an exponent or of what follows it. -/
theorem head_exponent {exponent rest : List Char} {power : Int}
    (hexponent : IsExponent exponent power) (hrest : EndsNumber rest) :
    ∀ c ∈ (exponent ++ rest).head?, c.isDigit = false ∧ c ≠ '.' := by
  obtain ⟨rfl, -⟩ | ⟨mark, sign, digits, negative, rfl, hmark, -⟩ := hexponent
  · exact fun c hc => ⟨(hrest c hc).1, (hrest c hc).2.1⟩
  · intro c hc
    obtain rfl : mark = c := by simpa using hc
    obtain rfl | rfl := hmark
    · decide
    · decide

/-- A number is read as a whole where nothing after it goes on with a number. -/
theorem readNumber?_of_isNumber {chars rest : List Char} (h : IsNumber chars)
    (hrest : EndsNumber rest) : readNumber? (chars ++ rest) = some (chars, rest) := by
  obtain @⟨minus, whole, fraction, exponent, power, hminus, hwhole, hzero, hfraction,
    hexponent⟩ := h
  have hhead := head_exponent hexponent hrest
  have hnoDigit : NoDigit (exponent ++ rest) := fun c hc => (hhead c hc).1
  have hafter : NoDigit (fraction ++ (exponent ++ rest)) := by
    obtain rfl | ⟨digits, rfl, -⟩ := hfraction
    · exact hnoDigit
    · exact noDigit_cons rfl
  have htaken : ((minus ++ (whole ++ (fraction ++ (exponent ++ rest)))).take 1).filter
      (· = '-') = minus := by
    obtain ⟨d, ds, rfl⟩ := List.exists_cons_of_ne_nil hwhole.1
    obtain rfl | rfl := hminus
    -- A digit is no minus sign.
    · have hd : d ≠ '-' :=
        forall_digit (P := fun c => c ≠ '-') (by decide) (hwhole.2 d List.mem_cons_self)
      simp [hd]
    · simp
  simp only [List.append_assoc]
  rw [readNumber?, htaken, List.drop_left]
  simp only [Option.bind_eq_bind, readWhole?_of_isDigits hwhole hzero hafter,
    readFraction?_of_isFraction hfraction hnoDigit (fun c hc => (hhead c hc).2),
    readExponent?_of_isExponent hexponent hrest, Option.bind_some, Option.pure_def,
    List.append_assoc]

/-! ## Writing -/

/-- The digits of a positive number start with none that is zero. -/
theorem head_toDigits {n : Nat} (h : 0 < n) : ∃ d ds, Nat.toDigits 10 n = d :: ds ∧ d ≠ '0' := by
  induction n using Nat.strongRecOn with
  | ind n ih =>
    by_cases hlt : n < 10
    · refine ⟨n.digitChar, [], Nat.toDigits_of_lt_base hlt, ?_⟩
      have hall : ∀ n < 10, 0 < n → n.digitChar ≠ '0' := by decide
      exact hall n hlt h
    · obtain ⟨d, ds, hdigits, hd⟩ := ih (n / 10) (by omega) (by omega)
      rw [Nat.toDigits_of_base_le (by decide) (by omega), hdigits]
      exact ⟨d, _, rfl, hd⟩

theorem leadingZero_cons {c : Char} (hc : c ≠ '0') (cs : List Char) : LeadingZero (c :: cs) := by
  rintro ds heq
  cases heq
  exact absurd rfl hc

theorem leadingZero_point (cs : List Char) : LeadingZero ('0' :: '.' :: cs) := by
  rintro ds heq
  cases heq
  exact noDigit_cons rfl

/-- In plain notation a positive number starts with its first digit, or with one zero and the
    point. -/
theorem leadingZero_positionalText {x : Scientific} (h : 0 < x.coefficient) (pointZero : Bool) :
    LeadingZero (x.positionalText pointZero) := by
  obtain ⟨d, ds, hdigits, hd⟩ : ∃ d ds, x.digits = d :: ds ∧ d ≠ '0' := head_toDigits h
  unfold Scientific.positionalText
  dsimp only
  rw [hdigits]
  split
  · exact leadingZero_cons hd _
  · split
    · next hpoint =>
      obtain ⟨n, hn⟩ := Nat.exists_eq_add_one.2 (Int.pos_iff_toNat_pos.1 hpoint)
      rw [hn]
      exact leadingZero_cons hd _
    · exact leadingZero_point _

theorem leadingZero_exponentText {x : Scientific} (h : 0 < x.coefficient) (plusSign : Bool) :
    LeadingZero (x.exponentText plusSign) := by
  obtain ⟨d, ds, hdigits, hd⟩ : ∃ d ds, x.digits = d :: ds ∧ d ≠ '0' := head_toDigits h
  unfold Scientific.exponentText
  dsimp only
  rw [hdigits]
  cases ds with
  | nil => exact leadingZero_cons hd _
  | cons e ds => exact leadingZero_cons hd _

/-- A positive decimal is written without needless zeros. -/
theorem leadingZero_decimal (style : Style) {x : Scientific} (h : 0 < x.coefficient) :
    LeadingZero (style.decimal x) := by
  unfold Style.decimal
  split
  · exact leadingZero_positionalText h style.pointZero
  · split
    · exact leadingZero_positionalText h style.pointZero
    · exact leadingZero_exponentText h style.plusSign

theorem leadingZero_magnitude {code : Nat} (h : code < Format.binary64.infinity) :
    LeadingZero (Style.json.magnitude .binary64 code) := by
  unfold Style.magnitude
  split
  · exact leadingZero_point _
  · next hpos =>
    rw [if_neg h.ne]
    refine leadingZero_decimal .json (Nat.pos_of_ne_zero fun hzero => hpos ?_)
    -- The decimal reads back, and that of zero would be zero.
    have hreads := Format.readsBack_shortest Format.binary64_withinDecimalRange Style.json.tie
      (Nat.pos_of_ne_zero hpos) h
    rw [Scientific.ReadsBack, hzero, Format.nearestDecimal, if_pos rfl] at hreads
    exact hreads.symm

/-- The whole part of what starts with no needless zero has none. -/
theorem LeadingZero.of_append {cs ds : List Char} (h : LeadingZero (cs ++ ds)) :
    LeadingZero cs := by
  rintro es rfl c hc
  exact h (es ++ ds) rfl c (by cases es <;> simp_all)

/-- A sign that is written, if it is. -/
def signText (negative : Bool) : List Char := if negative then ['-'] else []

theorem signText_cases (negative : Bool) : signText negative = [] ∨ signText negative = ['-'] := by
  cases negative with
  | true => exact .inr rfl
  | false => exact .inl rfl

/-- A finite number is a magnitude with a sign, and so is its text. -/
theorem exists_magnitude_of_isFinite {x : Float} (h : x.isFinite = true) :
    ∃ negative, ∃ code < Format.binary64.infinity,
      x = (if negative then -Number.ofCode code else Number.ofCode code) ∧
        numberText? x = some (signText negative ++ Style.json.magnitude .binary64 code) := by
  obtain ⟨⟨negative, code⟩, hunpack⟩ : ∃ number,
      Format.binary64.unpack x.toBits.toNat = number := ⟨_, rfl⟩
  have hcode := Number.code_lt_of_isFinite h
  rw [hunpack] at hcode
  dsimp only at hcode
  refine ⟨negative, code, hcode, Number.eq_signed_ofCode h hunpack, ?_⟩
  rw [numberText?, if_pos h, Number.floatText, hunpack]
  dsimp only
  rw [Style.number, if_neg (by omega), signText]

theorem isFinite_of_numberText? {x : Float} {chars : List Char} (h : numberText? x = some chars) :
    x.isFinite = true := by
  unfold numberText? at h
  split at h
  · assumption
  · cases h

/-- What is written for a floating-point number is a number of JSON. -/
theorem isNumber_of_numberText? {x : Float} {chars : List Char} (h : numberText? x = some chars) :
    IsNumber chars := by
  obtain ⟨negative, code, hcode, -, htext⟩ :=
    exists_magnitude_of_isFinite (isFinite_of_numberText? h)
  obtain rfl := Option.some.inj (h.symm.trans htext)
  obtain ⟨whole, fraction, exponent, hmagnitude, hwritten, -⟩ :=
    Format.exists_written Format.binary64_withinDecimalRange .json hcode
  obtain ⟨power, hexponent⟩ := hwritten.isExponent
  have hzero := leadingZero_magnitude hcode
  rw [hmagnitude] at hzero ⊢
  exact .intro (signText_cases negative) hwritten.isDigits hzero.of_append hwritten.isFraction
    hexponent

end UnitCheck.Json
