import UnitCheck.Number.Shortest

/-!
  How a binary floating-point number is written. The digits are those of
  `Format.shortest`; a `Style` says which numbers are written with an exponent
  and how the rest looks.
-/

namespace UnitCheck.Number

/-- The choices of a way to write numbers. -/
structure Style where
  /-- The least and the greatest number of digits before the point of numbers that are
      written without an exponent; without bounds no exponent is used. -/
  positional : Option (Int × Int)
  /-- Whether integers written without an exponent end in `.0`. -/
  pointZero : Bool
  /-- Whether a positive exponent has a sign. -/
  plusSign : Bool
  /-- Which of two equally near shortest decimals is written. -/
  tie : Tie

/-- The way literals are written: an exponent from `1e16` on and below `1e-4`. -/
def Style.literal : Style := ⟨some (-3, 16), true, false, .up⟩

/-- The way quantities are written: never with an exponent. -/
def Style.plain : Style := ⟨none, false, false, .up⟩

/-- The way JSON numbers are written: an exponent from `1e+16` on and below `1e-5`. -/
def Style.json : Style := ⟨some (-4, 16), true, true, .even⟩

namespace Scientific

/-- The number without an exponent. -/
def positionalText (x : Scientific) (pointZero : Bool) : List Char :=
  let ds := x.digits
  let point := x.pointPosition
  if 0 ≤ x.exponent then
    ds ++ List.replicate x.exponent.toNat '0' ++ if pointZero then ['.', '0'] else []
  else if 0 < point then ds.take point.toNat ++ '.' :: ds.drop point.toNat
  else '0' :: '.' :: (List.replicate (-point).toNat '0' ++ ds)

/-- The number with one digit before the point and an exponent. -/
def exponentText (x : Scientific) (plusSign : Bool) : List Char :=
  let power := x.pointPosition - 1
  let mantissa :=
    match x.digits with
    | d :: e :: rest => d :: '.' :: e :: rest
    | ds => ds
  let sign := if power < 0 then ['-'] else if plusSign then ['+'] else []
  mantissa ++ 'e' :: (sign ++ Nat.toDigits 10 power.natAbs)

end Scientific

namespace Style

/-- A positive decimal in this style. -/
def decimal (style : Style) (x : Scientific) : List Char :=
  match style.positional with
  | none => x.positionalText style.pointZero
  | some (least, greatest) =>
    if least ≤ x.pointPosition ∧ x.pointPosition ≤ greatest then x.positionalText style.pointZero
    else x.exponentText style.plusSign

/-- A magnitude in this style. -/
def magnitude (style : Style) (f : Format) (code : Nat) : List Char :=
  if code = 0 then if style.pointZero then ['0', '.', '0'] else ['0']
  else if code = f.infinity then ['i', 'n', 'f']
  else style.decimal (f.shortest style.tie code)

/-- A number in this style, from its sign and the code of its magnitude. Codes past the
    infinite one are no numbers and have no sign. -/
def number (style : Style) (f : Format) (negative : Bool) (code : Nat) : List Char :=
  if f.infinity < code then ['N', 'a', 'N']
  else (if negative then ['-'] else []) ++ style.magnitude f code

end Style

end UnitCheck.Number
