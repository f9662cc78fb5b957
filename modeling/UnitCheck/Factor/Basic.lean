import UnitCheck.Factor.Terms

/-!
  Factors: fractions of products of symbols, such as `kg*m/s^2`. The symbols
  are units or names of dimensions.

  Nothing cancels across the fraction bar. `s/s` is dimensionless, as the empty
  factor is, and yet the two are different factors.
-/

namespace UnitCheck

/-- A fraction of two products of symbols. -/
structure Factor where
  numerator : Terms
  denominator : Terms
  deriving DecidableEq

namespace Factor

/-! ## Building -/

/-- The factor without symbols. -/
def one : Factor := ⟨.empty, .empty⟩

/-- A symbol with a power, as a numerator. -/
def power (symbol : String) (p : Exponent) : Factor := ⟨.single symbol p, .empty⟩

/-- A symbol alone. -/
def ofSymbol (symbol : String) : Factor := power symbol .one

/-! ## Capped algebra -/

/-- The product; a power that would pass `maxExponent` stays there. -/
def mulCapped (a b : Factor) : Factor :=
  ⟨a.numerator.mulCapped b.numerator, a.denominator.mulCapped b.denominator⟩

/-- The fraction turned over. -/
def inverse (a : Factor) : Factor := ⟨a.denominator, a.numerator⟩

/-- The quotient; a power that would pass `maxExponent` stays there. -/
def divCapped (a b : Factor) : Factor :=
  ⟨a.numerator.mulCapped b.denominator, a.denominator.mulCapped b.numerator⟩

theorem divCapped_eq_mulCapped_inverse (a b : Factor) :
    a.divCapped b = a.mulCapped b.inverse := rfl

instance : Mul Factor := ⟨mulCapped⟩

instance : Div Factor := ⟨divCapped⟩

@[simp] theorem inverse_inverse (a : Factor) : a.inverse.inverse = a := rfl

/-! ## Questions -/

/-- Whether both sides hold the same powers. -/
def isDimensionless (a : Factor) : Bool := a.numerator = a.denominator

/-- Whether no symbol occurs at all. -/
def isEmpty (a : Factor) : Bool := a.numerator.isEmpty && a.denominator.isEmpty

/-- The symbols, those of the numerator first. -/
def symbols (a : Factor) : List String := a.numerator.symbols ++ a.denominator.symbols

/-- Two factors with the same powers on both sides are equal. -/
theorem ext_exponent {a b : Factor}
    (hn : ∀ s, a.numerator.exponent s = b.numerator.exponent s)
    (hd : ∀ s, a.denominator.exponent s = b.denominator.exponent s) : a = b := by
  cases a; cases b
  simp only [mk.injEq]
  exact ⟨Terms.ext_exponent hn, Terms.ext_exponent hd⟩

/-! ## Text -/

/-- A symbol with its power; the power one is not written. -/
def entryText (entry : String × Exponent) : List Char :=
  entry.1.toList ++ if entry.2.val = 1 then [] else '^' :: Nat.toDigits 10 entry.2.val

/-- The entries of a side, joined by stars. -/
def sideText (terms : Terms) : List Char :=
  ['*'].intercalate (terms.entries.map entryText)

/-- The fraction as characters: `1` stands for a numerator without symbols, and a denominator
    without symbols is left out together with its bar. -/
def chars (a : Factor) : List Char :=
  (if a.numerator.isEmpty then ['1'] else sideText a.numerator) ++
    if a.denominator.isEmpty then [] else '/' :: sideText a.denominator

/-- The text of a factor, such as `kg*m/s^2`. -/
def text (a : Factor) : String := String.ofList a.chars

instance : ToString Factor := ⟨text⟩

@[simp] theorem text_one : one.text = "1" := rfl

end Factor

end UnitCheck
