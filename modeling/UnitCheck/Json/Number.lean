import UnitCheck.Number.Float

/-!
  Numbers of JSON.

  The digits of a number are taken as an integer below `2 ^ 64`; digits of the whole part that
  do not fit count as zeros, and from the first digit of the fraction that does not fit on
  they are dropped. That integer becomes a floating-point number and is multiplied or divided
  by a power of ten. Both steps round, so the result is not always the nearest number.
-/

namespace UnitCheck.Json

open Number (splitDigits splitDigits_append splitSign splitFraction)

/-! ## Form -/

/-- The point and at least one digit, or nothing, and the text after it; nothing at all where
    a point stands without a digit. -/
def readFraction? : List Char → Option (List Char × List Char)
  | '.' :: cs =>
    let (digits, rest) := splitDigits cs
    if digits.isEmpty then none else some ('.' :: digits, rest)
  | cs => some ([], cs)

/-- An exponent with at least one digit, or nothing, and the text after it; nothing at all where
    a mark stands without a digit. -/
def readExponent? : List Char → Option (List Char × List Char)
  | [] => some ([], [])
  | e :: cs =>
    if e = 'e' ∨ e = 'E' then
      let sign := (cs.take 1).filter fun c => c = '+' || c = '-'
      let (digits, rest) := splitDigits (cs.drop sign.length)
      if digits.isEmpty then none else some (e :: (sign ++ digits), rest)
    else some ([], e :: cs)

/-- A whole part without needless zeros, and the text after it. -/
def readWhole? (cs : List Char) : Option (List Char × List Char) :=
  match splitDigits cs with
  | ([], _) => none
  | ('0' :: _ :: _, _) => none
  | (digits, rest) => some (digits, rest)

/-- The number at the start of a text, by its characters, and the text after it. -/
def readNumber? (cs : List Char) : Option (List Char × List Char) := do
  let minus := (cs.take 1).filter (· = '-')
  let (whole, rest) ← readWhole? (cs.drop minus.length)
  let (fraction, rest) ← readFraction? rest
  let (exponent, rest) ← readExponent? rest
  return (minus ++ whole ++ fraction ++ exponent, rest)

theorem readFraction?_append {cs fraction rest : List Char}
    (h : readFraction? cs = some (fraction, rest)) : fraction ++ rest = cs := by
  unfold readFraction? at h
  split at h
  · next cs =>
    dsimp only at h
    split at h
    · simp at h
    · injection h with h
      injection h with hf hr
      simp [← hf, ← hr, splitDigits_append]
  · simp_all

theorem readExponent?_append {cs exponent rest : List Char}
    (h : readExponent? cs = some (exponent, rest)) : exponent ++ rest = cs := by
  unfold readExponent? at h
  split at h
  · simp_all
  · next e cs =>
    split at h
    · dsimp only at h
      split at h
      · simp at h
      · injection h with h
        injection h with he hr
        -- The sign is taken off just where there is one.
        have hsign : (cs.take 1).filter (fun c => c = '+' || c = '-') ++
            cs.drop ((cs.take 1).filter fun c => c = '+' || c = '-').length = cs := by
          cases cs with
          | nil => rfl
          | cons s cs => by_cases hs : s = '+' || s = '-' <;> simp_all
        rw [← he, ← hr, List.cons_append, List.append_assoc, splitDigits_append, hsign]
    · simp_all

theorem readWhole?_append {cs whole rest : List Char}
    (h : readWhole? cs = some (whole, rest)) : whole ++ rest = cs ∧ whole ≠ [] := by
  have happ := splitDigits_append cs
  unfold readWhole? at h
  split at h
  · simp at h
  · simp at h
  · next digits left hne _ heq =>
    injection h with h
    injection h with hw hr
    rw [heq] at happ
    subst hw hr
    exact ⟨happ, hne⟩

/-- What is read and what is left make up the text, and something is read. -/
theorem readNumber?_append {cs chars rest : List Char}
    (h : readNumber? cs = some (chars, rest)) : chars ++ rest = cs ∧ chars ≠ [] := by
  have hminus : (cs.take 1).filter (· = '-') ++
      cs.drop ((cs.take 1).filter (· = '-')).length = cs := by
    cases cs with
    | nil => rfl
    | cons s cs => by_cases hs : s = '-' <;> simp [hs]
  unfold readNumber? at h
  simp only [Option.bind_eq_bind, Option.bind_eq_some_iff, Prod.exists] at h
  obtain ⟨whole, afterWhole, hw, fraction, afterFraction, hf, exponent, left, he, h⟩ := h
  injection h with h
  injection h with hc hr
  obtain ⟨hw, hne⟩ := readWhole?_append hw
  subst hc hr
  refine ⟨?_, by simp [hne]⟩
  simp only [List.append_assoc, readExponent?_append he, readFraction?_append hf, hw, hminus]

theorem readNumber?_length_lt {cs chars rest : List Char}
    (h : readNumber? cs = some (chars, rest)) : rest.length < cs.length := by
  obtain ⟨happ, hne⟩ := readNumber?_append h
  have := List.length_pos_iff.2 hne
  rw [← happ, List.length_append]
  omega

/-! ## Value -/

/-- One digit more, if the integer stays below `2 ^ 64`. -/
def appendDigit? (n : Nat) (digit : Char) : Option Nat :=
  let next := n * 10 + (digit.toNat - '0'.toNat)
  if next < UInt64.size then some next else none

/-- The digits of a whole part appended to an integer, and the number of those left over. -/
def appendWhole (n : Nat) : List Char → Nat × Nat
  | [] => (n, 0)
  | d :: ds =>
    match appendDigit? n d with
    | some n => appendWhole n ds
    | none => (n, ds.length + 1)

/-- The digits of a fraction appended to an integer, and the number of those that fit. -/
def appendFraction (n : Nat) : List Char → Nat × Nat
  | [] => (n, 0)
  | d :: ds =>
    match appendDigit? n d with
    | some n =>
      let (n, count) := appendFraction n ds
      (n, count + 1)
    | none => (n, 0)

/-- The greatest power of ten that a number is multiplied or divided by at once. -/
def maxPower : Nat := 308

/-- A number times a power of ten, unless that is too large. -/
def scaleByTen (x : Float) (exponent : Int) : Option Float :=
  if exponent.natAbs ≤ maxPower then
    if 0 ≤ exponent then
      let scaled := x * Number.powerOfTen exponent.natAbs
      if scaled.isInf then none else some scaled
    else some (x / Number.powerOfTen exponent.natAbs)
  -- Zero stays zero, whatever the power.
  else if x == 0.0 then some x
  else if 0 ≤ exponent then none
  else scaleByTen (x / Number.powerOfTen maxPower) (exponent + maxPower)
termination_by exponent.natAbs
decreasing_by
  simp only [maxPower] at *
  omega

/-- The greatest exponent that is taken as it is written. -/
def maxExponent : Nat := 2147483647

/-- The value of digits with a power of ten, whose exponent is given by its sign and digits.
    With a greater exponent the number is zero or too large. -/
def shifted (significand : Nat) (before : Int) (exponent : List Char) : Option Float :=
  let x := (UInt64.ofNat significand).toFloat
  match exponent with
  | [] => scaleByTen x before
  | _ :: power =>
    let (negative, digits) := splitSign power
    let n := Nat.ofDigitChars 10 digits 0
    if n ≤ maxExponent then scaleByTen x (if negative then before - n else before + n)
    else if significand = 0 ∨ negative then some 0.0
    else none

/-- The floating-point number that a number of JSON denotes, unless it is too large. -/
def toFloat? (number : List Char) : Option Float :=
  let (negative, rest) := splitSign number
  let (whole, rest) := splitDigits rest
  let (fraction, exponent) := splitFraction rest
  let (n, excess) := appendWhole 0 whole
  let (n, places) := appendFraction n fraction
  (shifted n (excess - places) exponent).map fun x => if negative then -x else x

/-- A floating-point number as JSON. Numbers that are not finite have no form of their own. -/
def numberText? (x : Float) : Option (List Char) :=
  if x.isFinite then some (Number.floatText .json x) else none

end UnitCheck.Json
