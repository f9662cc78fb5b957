import UnitCheck.Number.Notation
import UnitCheck.Number.Reader
import UnitCheck.Proofs.Number.Shortest

/-!
  The text of a number reads back as the number.

  `IsDigits`, `IsFraction` and `IsExponent` are the parts of an unsigned decimal. Whatever the
  style, what is written has these parts (`decimal_parts`), and what has these parts is read
  (`readDecimal_parts`); the way between the two is that moving the point changes no amount.
-/

namespace UnitCheck.Number

/-! ## Characters -/

/-- What holds of the characters below a bound, by their numbers. -/
theorem forall_char_lt {bound : Nat} {P : Char → Prop} (h : ∀ n < bound, P (Char.ofNat n))
    {c : Char} (hc : c.toNat < bound) : P c := by
  have := h c.toNat hc
  rwa [Char.ofNat_toNat] at this

/-- What holds of the digits, by their numbers. -/
theorem forall_digit {P : Char → Prop}
    (h : ∀ n < 58, (Char.ofNat n).isDigit = true → P (Char.ofNat n)) {c : Char}
    (hc : c.isDigit = true) : P c := by
  have hbound : c.toNat < 58 := by
    simp only [Char.isDigit, Bool.and_eq_true, decide_eq_true_eq] at hc
    exact Nat.lt_succ_of_le hc.2
  exact forall_char_lt (P := fun c => c.isDigit = true → P c) h hbound hc

/-! ## Parts of a decimal -/

/-- A run of digits. -/
def IsDigits (cs : List Char) : Prop := cs ≠ [] ∧ ∀ c ∈ cs, c.isDigit = true

/-- Nothing, or a point with digits. -/
def IsFraction (cs : List Char) : Prop := cs = [] ∨ ∃ digits, cs = '.' :: digits ∧ IsDigits digits

/-- The sign of a power. -/
def signed (negative : Bool) (n : Nat) : Int := if negative then -n else n

/-- Nothing for zero, or the mark of an exponent with an integer. -/
def IsExponent (cs : List Char) (power : Int) : Prop :=
  (cs = [] ∧ power = 0) ∨ ∃ mark sign digits negative, cs = mark :: (sign ++ digits) ∧
    (mark = 'e' ∨ mark = 'E') ∧ (sign = [] ∧ negative = false ∨ sign = ['+'] ∧ negative = false ∨
      sign = ['-'] ∧ negative = true) ∧ IsDigits digits ∧
    power = signed negative (Nat.ofDigitChars 10 digits 0)

theorem isDigits_toDigits (n : Nat) : IsDigits (Nat.toDigits 10 n) :=
  ⟨Nat.toDigits_ne_nil, fun _ hc => Nat.isDigit_of_mem_toDigits (by decide) (by decide) hc⟩

theorem IsDigits.append {cs ds : List Char} (hcs : IsDigits cs) (hds : ∀ c ∈ ds, c.isDigit = true) :
    IsDigits (cs ++ ds) := by
  refine ⟨by simp [hcs.1], fun c hc => ?_⟩
  rcases List.mem_append.1 hc with hc | hc
  · exact hcs.2 c hc
  · exact hds c hc

theorem isDigit_of_mem_replicate {n : Nat} : ∀ c ∈ List.replicate n '0', c.isDigit = true := by
  intro c hc
  rw [List.eq_of_mem_replicate hc]
  rfl

theorem IsDigits.take {ds : List Char} {n : Nat} (h : IsDigits ds) (hn : 0 < n) :
    IsDigits (ds.take n) := by
  refine ⟨?_, fun c hc => h.2 c (List.mem_of_mem_take hc)⟩
  have hlength : 0 < ds.length := List.length_pos_iff.2 h.1
  rw [← List.length_pos_iff, List.length_take]
  omega

theorem IsDigits.drop {ds : List Char} {n : Nat} (h : IsDigits ds) (hn : n < ds.length) :
    IsDigits (ds.drop n) := by
  refine ⟨?_, fun c hc => h.2 c (List.mem_of_mem_drop hc)⟩
  rw [← List.length_pos_iff, List.length_drop]
  omega

theorem IsDigits.replicate_append {ds : List Char} (h : IsDigits ds) (n : Nat) :
    IsDigits (List.replicate n '0' ++ ds) := by
  refine ⟨by simp [h.1], fun c hc => ?_⟩
  rcases List.mem_append.1 hc with hc | hc
  · exact isDigit_of_mem_replicate c hc
  · exact h.2 c hc

/-- Zeros before digits do not count. -/
theorem ofDigitChars_replicate_append (n : Nat) (ds : List Char) :
    Nat.ofDigitChars 10 (List.replicate n '0' ++ ds) 0 = Nat.ofDigitChars 10 ds 0 := by
  rw [Nat.ofDigitChars_append, Nat.ofDigitChars_replicate_zero, Nat.mul_zero]

/-- Nothing at the start of the text goes on with digits. -/
def NoDigit (cs : List Char) : Prop := ∀ c ∈ cs.head?, c.isDigit = false

theorem noDigit_nil : NoDigit [] := by simp [NoDigit]

theorem noDigit_cons {c : Char} {cs : List Char} (h : c.isDigit = false) : NoDigit (c :: cs) := by
  simpa [NoDigit] using h

theorem splitDigits_of_noDigit {ds rest : List Char} (hds : ∀ c ∈ ds, c.isDigit = true)
    (hrest : NoDigit rest) : splitDigits (ds ++ rest) = (ds, rest) := by
  unfold splitDigits
  rw [List.takeWhile_append_of_pos hds, List.dropWhile_append_of_pos hds]
  cases rest with
  | nil => simp
  | cons c cs =>
    have hc : c.isDigit = false := hrest c rfl
    simp [hc]

theorem IsExponent.noDigit {cs : List Char} {power : Int} (h : IsExponent cs power) :
    NoDigit cs := by
  rcases h with ⟨rfl, -⟩ | ⟨mark, sign, digits, negative, rfl, rfl | rfl, -⟩
  · exact noDigit_nil
  · exact noDigit_cons rfl
  · exact noDigit_cons rfl

/-- A fraction goes on with no digits where nothing after it does. -/
theorem IsFraction.noDigit_append {fraction rest : List Char} (h : IsFraction fraction)
    (hrest : NoDigit rest) : NoDigit (fraction ++ rest) := by
  rcases h with rfl | ⟨digits, rfl, -⟩
  · exact hrest
  · exact noDigit_cons rfl

theorem splitSign_of_digits {cs : List Char} (h : IsDigits cs) (rest : List Char) :
    splitSign (cs ++ rest) = (false, cs ++ rest) := by
  obtain ⟨hne, hdigit⟩ := h
  cases cs with
  | nil => exact absurd rfl hne
  | cons c cs =>
    have hc := hdigit c List.mem_cons_self
    unfold splitSign
    split
    · next heq => cases heq; cases hc
    · next heq => cases heq; cases hc
    · rfl

/-- The sign of a power is split from its digits. -/
theorem splitSign_append {sign digits : List Char} {negative : Bool}
    (hsign : sign = [] ∧ negative = false ∨ sign = ['+'] ∧ negative = false ∨
      sign = ['-'] ∧ negative = true) (hdigits : IsDigits digits) :
    splitSign (sign ++ digits) = (negative, digits) := by
  rcases hsign with ⟨rfl, rfl⟩ | ⟨rfl, rfl⟩ | ⟨rfl, rfl⟩
  · simpa using splitSign_of_digits hdigits []
  · rfl
  · rfl

/-- The digits of a fraction are split from the exponent after it. -/
theorem splitFraction_append {fraction exponent : List Char} {power : Int}
    (hfraction : IsFraction fraction) (hexponent : IsExponent exponent power) :
    splitFraction (fraction ++ exponent) = (fraction.tail, exponent) := by
  rcases hfraction with rfl | ⟨digits, rfl, hdigits⟩
  -- An exponent does not start with a point.
  · rcases hexponent with ⟨rfl, -⟩ | ⟨mark, sign, digits, negative, rfl, rfl | rfl, -⟩
    · rfl
    · rfl
    · rfl
  · exact splitDigits_of_noDigit hdigits.2 hexponent.noDigit

/-! ## Reading the parts -/

theorem readExponent_of_isExponent {cs : List Char} {power : Int} (h : IsExponent cs power) :
    readExponent cs = some power := by
  rcases h with ⟨rfl, rfl⟩ | ⟨mark, sign, digits, negative, rfl, hmark, hsign, hdigits, rfl⟩
  · rfl
  · have hall : digits.all Char.isDigit = true := List.all_eq_true.2 hdigits.2
    rw [readExponent, if_pos hmark, splitSign_append hsign hdigits]
    simp [hall, hdigits.1, signed]

/-- The parts of an unsigned decimal, read. -/
theorem Format.readDecimal_parts (f : Format) {whole fraction exponent : List Char} {power : Int}
    (hwhole : IsDigits whole) (hfraction : IsFraction fraction)
    (hexponent : IsExponent exponent power) :
    f.readDecimal (whole ++ (fraction ++ exponent)) =
      some (f.nearestDecimal (Nat.ofDigitChars 10 (whole ++ fraction.tail) 0)
        (power - fraction.tail.length)) := by
  have hne : whole.isEmpty = false := by simp [hwhole.1]
  have hafter := hfraction.noDigit_append hexponent.noDigit
  rw [readDecimal, splitDigits_of_noDigit hwhole.2 hafter]
  dsimp only
  rw [splitFraction_append hfraction hexponent]
  simp [hne, readExponent_of_isExponent hexponent]

/-! ## Writing the parts -/

/-- A text has the parts of an unsigned decimal that denote the given one. -/
structure Denotes (whole fraction exponent : List Char) (x : Scientific) : Prop where
  isDigits : IsDigits whole
  isFraction : IsFraction fraction
  amount : ∃ power, IsExponent exponent power ∧ ∀ f : Format,
    f.nearestDecimal (Nat.ofDigitChars 10 (whole ++ fraction.tail) 0)
      (power - fraction.tail.length) = f.nearestDecimal x.coefficient x.exponent

theorem Denotes.readDecimal {whole fraction exponent : List Char} {x : Scientific}
    (h : Denotes whole fraction exponent x) (f : Format) :
    f.readDecimal (whole ++ (fraction ++ exponent)) =
      some (f.nearestDecimal x.coefficient x.exponent) := by
  obtain ⟨power, hexponent, hvalue⟩ := h.amount
  rw [f.readDecimal_parts h.isDigits h.isFraction hexponent, hvalue f]

/-- A number without a fraction, or with nothing in it, denotes its digits. -/
theorem denotes_of_integer {whole : List Char} {x : Scientific} (hwhole : IsDigits whole)
    (hvalue : Nat.ofDigitChars 10 whole 0 = x.coefficient * 10 ^ x.exponent.toNat)
    (hexponent : 0 ≤ x.exponent) (pointZero : Bool) :
    Denotes whole (if pointZero then ['.', '0'] else []) [] x := by
  cases pointZero with
  | true =>
    refine ⟨hwhole, .inr ⟨['0'], rfl, by simp [IsDigits]⟩, 0, .inl ⟨rfl, rfl⟩, fun f => ?_⟩
    -- The zero behind the point adds a digit that the exponent takes back.
    have hzero : Nat.ofDigitChars 10 ['0'] (x.coefficient * 10 ^ x.exponent.toNat) =
        x.coefficient * 10 ^ x.exponent.toNat * 10 := by
      rw [Nat.ofDigitChars_cons, Nat.ofDigitChars_nil, Nat.mul_comm]
      rfl
    rw [if_pos rfl, List.tail_cons, Nat.ofDigitChars_append, hvalue, hzero,
      Format.nearestDecimal_mul_ten, Format.nearestDecimal_mul_pow]
    congr 1
    rw [List.length_singleton]
    omega
  | false =>
    refine ⟨hwhole, .inl rfl, 0, .inl ⟨rfl, rfl⟩, fun f => ?_⟩
    rw [if_neg (by simp), List.tail_nil, List.append_nil, hvalue, Format.nearestDecimal_mul_pow]
    congr 1
    rw [List.length_nil]
    omega

/-- A number with a fraction alone denotes its digits, with the point moved. -/
theorem denotes_of_fraction {whole digits : List Char} {x : Scientific} (hwhole : IsDigits whole)
    (hdigits : IsDigits digits) (hcoefficient : Nat.ofDigitChars 10 (whole ++ digits) 0 =
      x.coefficient) (hexponent : (digits.length : Int) = -x.exponent) :
    Denotes whole ('.' :: digits) [] x := by
  refine ⟨hwhole, .inr ⟨digits, rfl, hdigits⟩, 0, .inl ⟨rfl, rfl⟩, fun f => ?_⟩
  rw [List.tail_cons, hcoefficient, hexponent]
  congr 1
  omega

namespace Scientific

theorem ofDigitChars_digits (x : Scientific) : Nat.ofDigitChars 10 x.digits 0 = x.coefficient :=
  Nat.ofDigitChars_ten_toDigits

theorem isDigits_digits (x : Scientific) : IsDigits x.digits := isDigits_toDigits _

theorem positionalText_parts (x : Scientific) (pointZero : Bool) :
    ∃ whole fraction, x.positionalText pointZero = whole ++ fraction ∧
      Denotes whole fraction [] x ∧ (pointZero = true → fraction ≠ []) ∧
        whole.length ≤ max 1 x.pointPosition.toNat := by
  have hdigits := x.isDigits_digits
  unfold positionalText
  dsimp only
  split
  -- an integer: its digits with zeros appended
  · next hexponent =>
    refine ⟨_, _, rfl, denotes_of_integer ?_ ?_ hexponent pointZero, ?_, ?_⟩
    · exact hdigits.append isDigit_of_mem_replicate
    · rw [Nat.ofDigitChars_append, ofDigitChars_digits, Nat.ofDigitChars_replicate_zero,
        Nat.mul_comm]
    · rintro rfl
      simp
    · rw [List.length_append, List.length_replicate, pointPosition]
      omega
  · next hexponent =>
    split
    -- the point stands among the digits
    · next hpoint =>
      rw [pointPosition] at hpoint ⊢
      refine ⟨_, _, rfl, denotes_of_fraction (hdigits.take ?_) (hdigits.drop ?_) ?_ ?_, by simp, ?_⟩
      · omega
      · omega
      · rw [List.take_append_drop, ofDigitChars_digits]
      · rw [List.length_drop]
        omega
      · rw [List.length_take]
        omega
    -- the point stands before the digits, with zeros between
    · next hpoint =>
      rw [pointPosition] at hpoint ⊢
      refine ⟨['0'], _, rfl, denotes_of_fraction (by simp [IsDigits])
        (hdigits.replicate_append _) ?_ ?_, by simp, le_max_left _ _⟩
      · exact (ofDigitChars_replicate_append (_ + 1) _).trans x.ofDigitChars_digits
      · rw [List.length_append, List.length_replicate]
        omega

/-- The exponent of a number in the form that has one. -/
theorem isExponent_power (power : Int) (plusSign : Bool) :
    IsExponent ('e' :: ((if power < 0 then ['-'] else if plusSign then ['+'] else [])
      ++ Nat.toDigits 10 power.natAbs)) power := by
  refine .inr ⟨'e', _, _, decide (power < 0), rfl, .inl rfl, ?_, isDigits_toDigits _, ?_⟩
  · by_cases hneg : power < 0
    · simp [hneg]
    · cases plusSign <;> simp [hneg]
  · rw [Nat.ofDigitChars_ten_toDigits, signed]
    by_cases hneg : power < 0
    · rw [if_pos (by simp [hneg])]
      omega
    · rw [if_neg (by simp [hneg])]
      omega

theorem exponentText_parts (x : Scientific) (plusSign : Bool) :
    ∃ whole fraction exponent, x.exponentText plusSign = whole ++ (fraction ++ exponent) ∧
      Denotes whole fraction exponent x ∧ exponent ≠ [] ∧ whole.length = 1 ∧
        IsExponent exponent (x.pointPosition - 1) := by
  have hdigits := x.isDigits_digits
  have hvalue := x.ofDigitChars_digits
  unfold exponentText
  rw [pointPosition]
  dsimp only
  generalize hpower : (x.digits.length : Int) + x.exponent - 1 = power
  have hexponent := isExponent_power power plusSign
  cases hds : x.digits with
  | nil => exact absurd hds hdigits.1
  | cons d rest =>
    rw [hds] at hdigits hvalue hpower
    have hd : IsDigits [d] := hdigits.take Nat.one_pos
    cases rest with
    -- one digit is written without a point
    | nil =>
      refine ⟨[d], [], _, rfl, ⟨hd, .inl rfl, power, hexponent, fun f => ?_⟩, by simp, rfl,
        hexponent⟩
      rw [List.tail_nil, List.append_nil, hvalue]
      congr 1
      rw [List.length_singleton] at hpower
      rw [List.length_nil]
      omega
    | cons e rest =>
      have hrest : IsDigits (e :: rest) := hdigits.drop (n := 1) (by simp)
      refine ⟨[d], '.' :: e :: rest, _, rfl,
        ⟨hd, .inr ⟨_, rfl, hrest⟩, power, hexponent, fun f => ?_⟩, by simp, rfl, hexponent⟩
      rw [List.tail_cons, List.singleton_append, hvalue]
      congr 1
      rw [List.length_cons] at hpower
      omega

end Scientific

/-- What is written in a style has the parts of a decimal. Its whole part is as long as the style
    allows without an exponent, and its exponent is given by the position of the point. -/
theorem Style.decimal_parts (style : Style) (x : Scientific) :
    ∃ whole fraction exponent, style.decimal x = whole ++ (fraction ++ exponent) ∧
      Denotes whole fraction exponent x ∧
        (style.pointZero = true → fraction ≠ [] ∨ exponent ≠ []) ∧
          (∀ bounds, style.positional = some bounds → whole.length ≤ max 1 bounds.2.toNat) ∧
            (exponent = [] ∨ IsExponent exponent (x.pointPosition - 1)) := by
  obtain ⟨whole, fraction, htext, hdenotes, hpoint, hlength⟩ :=
    x.positionalText_parts style.pointZero
  rw [← List.append_nil fraction] at htext
  -- Plain notation for styles without bounds and for points within them, else an exponent.
  unfold decimal
  split
  · next hnone =>
    refine ⟨_, _, _, htext, hdenotes, fun h => .inl (hpoint h), fun bounds hbounds => ?_,
      .inl rfl⟩
    rw [hnone] at hbounds
    cases hbounds
  · next least greatest hsome =>
    split
    · next hposition =>
      refine ⟨_, _, _, htext, hdenotes, fun h => .inl (hpoint h), fun bounds hbounds => ?_,
        .inl rfl⟩
      rw [hsome] at hbounds
      cases hbounds
      dsimp only
      omega
    · obtain ⟨whole, fraction, exponent, htext, hdenotes, hexponent, hlength, hpower⟩ :=
        x.exponentText_parts style.plusSign
      refine ⟨_, _, _, htext, hdenotes, fun _ => .inr hexponent, fun _ _ => ?_, .inr hpower⟩
      exact hlength.le.trans (le_max_left _ _)

end UnitCheck.Number
