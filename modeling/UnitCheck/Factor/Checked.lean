import UnitCheck.UnitError

/-!
  Factor arithmetic that refuses to pass `maxExponent` instead of stopping there.
  The failure names the first symbol whose power is too large: the symbols of the
  numerator come first, and each side goes in ascending order.
-/

namespace UnitCheck

namespace Terms

/-- The side with the power of a symbol raised. -/
def raise (t : Terms) (symbol : String) (power : Exponent) : Except UnitError Terms :=
  match t.add? symbol power with
  | some t => .ok t
  | none => .error (.exponentOverflow symbol)

/-- The product of two sides. -/
def mul (a b : Terms) : Except UnitError Terms :=
  b.entries.foldlM (fun t e => t.raise e.1 e.2) a

/-- Every power multiplied by a positive number. -/
def scale (t : Terms) (n : Nat) : Except UnitError Terms :=
  t.entries.foldlM
    (fun acc e =>
      match e.2.mul? n with
      | some power => .ok (acc.set e.1 power)
      | none => .error (.exponentOverflow e.1))
    .empty

/-- The product of the listed powers, which must be positive. -/
def ofPowers (powers : List (String × Int)) : Except UnitError Terms :=
  powers.foldlM
    (fun t (symbol, power) =>
      if power ≤ 0 then .error (.invalidExponent symbol power)
      else
        match Exponent.ofNat? power.toNat with
        | some p => t.raise symbol p
        | none => .error (.exponentOverflow symbol))
    .empty

theorem raise_eq_ok_iff {t u : Terms} {symbol : String} {power : Exponent} :
    t.raise symbol power = .ok u ↔ t.add? symbol power = some u := by
  unfold raise
  cases t.add? symbol power <;> simp

theorem raise_eq_error_iff {t : Terms} {symbol : String} {power : Exponent} {e : UnitError} :
    t.raise symbol power = .error e ↔
      maxExponent < t.exponent symbol + power.val ∧ e = .exponentOverflow symbol := by
  rw [← add?_eq_none_iff]
  unfold raise
  cases t.add? symbol power <;> simp [eq_comm]

end Terms

namespace Factor

/-- The product. -/
def mul (a b : Factor) : Except UnitError Factor := do
  let numerator ← a.numerator.mul b.numerator
  let denominator ← a.denominator.mul b.denominator
  return ⟨numerator, denominator⟩

/-- The quotient: the product with the fraction turned over. -/
def div (a b : Factor) : Except UnitError Factor := a.mul b.inverse

/-- The factor raised to a power. The power zero is the empty factor. -/
def pow (a : Factor) (n : Nat) : Except UnitError Factor :=
  if n = 0 then .ok one
  else do
    let numerator ← a.numerator.scale n
    let denominator ← a.denominator.scale n
    return ⟨numerator, denominator⟩

/-- The fraction of the listed powers. Powers of one symbol on one side add up. -/
def ofPowers (numerator denominator : List (String × Int)) : Except UnitError Factor := do
  let numerator ← Terms.ofPowers numerator
  let denominator ← Terms.ofPowers denominator
  return ⟨numerator, denominator⟩

end Factor

end UnitCheck
