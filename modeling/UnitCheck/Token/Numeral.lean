import UnitCheck.Expr.ValueType
import UnitCheck.Number.Reader
import UnitCheck.Text.Numeric

/-!
  The extent of a numeric literal.

  A numeral is a run of digits, a fraction if a digit follows the point, and an exponent if a
  digit follows its mark and sign. The run of identifier characters after it is a suffix when
  the whole run is one of the known suffixes; otherwise none of it belongs to the numeral, so
  `5m` is one numeral and `5km` is not.
-/

namespace UnitCheck

open Number (splitDigits)

/-- A character that continues an identifier. -/
def isIdentifierChar (c : Char) : Bool := Text.isAlphanumeric c || c = '_'

/-- A character that starts an identifier. -/
def isIdentifierStart (c : Char) : Bool := Text.isAlphabetic c || c = '_'

namespace Numeral

/-! ## Suffixes -/

/-- A suffix in small letters. -/
def foldSuffix (suffix : List Char) : List Char := suffix.map Char.toLower

/-- The type that the suffix of an integer selects. -/
def integerSuffix? (suffix : List Char) : Option ValueType :=
  match foldSuffix suffix with
  | ['u'] => some .uint
  | ['l'] => some .long
  | ['u', 'l'] => some .ulong
  | ['l', 'u'] => some .ulong
  | _ => none

/-- The type that the suffix of a real number selects. -/
def realSuffix? (suffix : List Char) : Option ValueType :=
  match foldSuffix suffix with
  | ['d'] => some .double
  | ['f'] => some .float
  | ['m'] => some .decimal
  | _ => none

/-! ## Extent -/

/-- The fraction at the start of a text, with its point, and the text after it. -/
def splitFraction : List Char → List Char × List Char
  | '.' :: d :: cs =>
    if d.isDigit then
      let (digits, rest) := splitDigits (d :: cs)
      ('.' :: digits, rest)
    else ([], '.' :: d :: cs)
  | cs => ([], cs)

/-- The exponent at the start of a text, with its mark and sign, and the text after it. -/
def splitExponent : List Char → List Char × List Char
  | [] => ([], [])
  | e :: cs =>
    if e = 'e' ∨ e = 'E' then
      match cs with
      | [] => ([], [e])
      | s :: ds =>
        if s = '+' ∨ s = '-' then
          let (digits, rest) := splitDigits ds
          if digits.isEmpty then ([], e :: s :: ds) else (e :: s :: digits, rest)
        else
          let (digits, rest) := splitDigits (s :: ds)
          if digits.isEmpty then ([], e :: s :: ds) else (e :: digits, rest)
    else ([], e :: cs)

end Numeral

/-- The parts of a numeric literal. -/
structure Numeral where
  whole : List Char
  fraction : List Char
  exponent : List Char
  suffix : List Char

namespace Numeral

/-- The digits with point and exponent, without the suffix. -/
def number (n : Numeral) : List Char := n.whole ++ n.fraction ++ n.exponent

/-- The whole literal. -/
def chars (n : Numeral) : List Char := n.number ++ n.suffix

/-- Whether the literal has a fraction or an exponent. -/
def hasPoint (n : Numeral) : Bool := !n.fraction.isEmpty || !n.exponent.isEmpty

/-- Whether the literal is a real number, by its form or by its suffix. -/
def isReal (n : Numeral) : Bool := n.hasPoint || (realSuffix? n.suffix).isSome

/-- The numeral at the start of a text, which starts with a digit. -/
def atStart (cs : List Char) : Numeral :=
  let (whole, rest) := splitDigits cs
  let (fraction, rest) := splitFraction rest
  let (exponent, rest) := splitExponent rest
  let n : Numeral := ⟨whole, fraction, exponent, []⟩
  -- A longer run is a name of its own, as the unit in `5km`.
  let run := rest.takeWhile isIdentifierChar
  let isSuffix := (realSuffix? run).isSome || (!n.hasPoint && (integerSuffix? run).isSome)
  if isSuffix then { n with suffix := run } else n

end Numeral

end UnitCheck
