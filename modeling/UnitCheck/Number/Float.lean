import UnitCheck.Number.Notation
import UnitCheck.Number.Reader

/-!
  Texts of the two machine formats. The stored bits of a number are its sign
  followed by the code of its magnitude.
-/

namespace UnitCheck.Number

namespace Format

/-- The weight of the sign bit. -/
def signWeight (f : Format) : Nat := Nat.pow 2 (f.fractionBits + f.exponentBits)

/-- The stored bits of a signed magnitude. -/
def pack (f : Format) (number : Bool × Nat) : Nat :=
  (if number.1 then f.signWeight else 0) + number.2

/-- The sign and the code of the magnitude of stored bits. -/
def unpack (f : Format) (bits : Nat) : Bool × Nat :=
  (decide (f.signWeight ≤ bits), bits % f.signWeight)

end Format

/-- A double-precision number in a style. -/
def floatText (style : Style) (x : Float) : List Char :=
  let (negative, code) := Format.binary64.unpack x.toBits.toNat
  style.number .binary64 negative code

/-- A single-precision number in a style. -/
def float32Text (style : Style) (x : Float32) : List Char :=
  let (negative, code) := Format.binary32.unpack x.toBits.toNat
  style.number .binary32 negative code

/-- The double-precision number that a text denotes. -/
def readFloat (cs : List Char) : Option Float :=
  (Format.binary64.read cs).map fun number =>
    Float.ofBits (UInt64.ofNat (Format.binary64.pack number))

/-- The single-precision number that a text denotes. -/
def readFloat32 (cs : List Char) : Option Float32 :=
  (Format.binary32.read cs).map fun number =>
    Float32.ofBits (UInt32.ofNat (Format.binary32.pack number))

/-- The double-precision number nearest to `10 ^ n`. -/
def powerOfTen (n : Nat) : Float :=
  Float.ofBits (UInt64.ofNat (Format.binary64.nearestDecimal 1 n))

end UnitCheck.Number
