import Mathlib.Algebra.GroupWithZero.Nat
import UnitCheck.Proofs.Factor.Checked
import UnitCheck.Proofs.NodeUnit

/-!
  Units of products of any shape.

  In a tree of products, quotients, signs and casts, every leaf multiplies the whole or divides it:
  it divides if it is in the divisors of an odd number of quotients (`Context.contribution`). The
  powers of the whole are the sums of what the leaves contribute (`Context.powers`). No step takes
  anything away from a power, so a power that is too large at some node is too large at the root,
  perhaps on the other side of the bar; this carries the failures of nodes up the tree
  (`Factor.Settles.combine`). How the leaves are grouped or ordered therefore does not matter.
-/

namespace UnitCheck

/-! ## Outcomes with their failures -/

namespace Factor

/-- The outcome is the factor with the given powers where all of them are in range, and otherwise
    a failure that names a symbol with a power out of range. -/
structure Settles (outcome : Except UnitError Factor) (powers : Side → String → Nat) : Prop
    extends Gives outcome powers where
  overflow : ∀ cause, outcome = .error cause →
    ∃ symbol side, maxExponent < powers side symbol ∧ cause = .exponentOverflow symbol

variable {a b : Factor} {outcome : Except UnitError Factor} {powers powers' : Side → String → Nat}

theorem Settles.congr (h : Settles outcome powers)
    (hpowers : ∀ side s, powers side s = powers' side s) : Settles outcome powers' := by
  have hsame : powers = powers' := funext fun side => funext (hpowers side)
  rw [← hsame]
  exact h

theorem settles_ok (a : Factor) : Settles (.ok a) a.exponent :=
  { Gives.ok a with overflow := fun _ h => nomatch h }

theorem settles_mul (a b : Factor) :
    Settles (a.mul b) fun side s => a.exponent side s + b.exponent side s where
  toGives := gives_mul a b
  overflow cause h := by
    obtain ⟨symbol, hsymbol, hcause⟩ := mul_eq_error_iff.1 h
    obtain ⟨side, hside⟩ := hsymbol.exists_side
    exact ⟨symbol, side, hside, hcause⟩

theorem settles_div (a b : Factor) :
    Settles (a.div b) fun side s => a.exponent side s + b.exponent side.flip s :=
  (settles_mul a b.inverse).congr fun side s => by rw [exponent_inverse]

/-- A second step, after which no symbol has its powers in range that did not have them before. -/
theorem Settles.bind {next : Factor → Except UnitError Factor} (h : Settles outcome powers)
    (hnext : ∀ a, outcome = .ok a → Settles (next a) powers')
    (hover : ∀ side s, maxExponent < powers side s → ∃ side', maxExponent < powers' side' s) :
    Settles (outcome >>= next) powers' where
  toGives := by
    refine h.toGives.bind (fun a ha => (hnext a ha).toGives) fun hrange side s => ?_
    refine Nat.not_lt.1 fun hlarge => ?_
    obtain ⟨side', hside'⟩ := hover side s hlarge
    exact Nat.not_le.2 hside' (hrange side' s)
  overflow cause hcause := by
    rcases bind_eq_error_iff.1 hcause with hfirst | ⟨a, ha, hsecond⟩
    · obtain ⟨symbol, side, hside, hcause⟩ := h.overflow cause hfirst
      obtain ⟨side', hside'⟩ := hover side symbol hside
      exact ⟨symbol, side', hside', hcause⟩
    · exact (hnext a ha).overflow cause hsecond

/-- An operation that adds to each side of the first factor a side of the second: what is too large
    in one of both is too large in the whole, perhaps on the other side. -/
theorem Settles.combine {first second : Except UnitError Factor}
    {op : Factor → Factor → Except UnitError Factor} (hfirst : Settles first powers)
    (hsecond : Settles second powers') (turn : Side → Side)
    (hturn : ∀ side, turn (turn side) = side)
    (hop : ∀ a b, Settles (op a b) fun side s => a.exponent side s + b.exponent (turn side) s) :
    Settles (first >>= fun a => second >>= fun b => op a b)
      fun side s => powers side s + powers' (turn side) s := by
  refine hfirst.bind (fun a ha => ?_) fun side s hlarge => ⟨side, by omega⟩
  refine hsecond.bind (fun b hb => ?_) fun side s hlarge => ⟨turn side, by
    rw [hturn]
    omega⟩
  refine (hop a b).congr fun side s => ?_
  rw [hfirst.exponent a ha, hsecond.exponent b hb]

end Factor

/-! ## Leaves -/

namespace Expr

mutual
/-- The leaves of a tree from left to right, each with the number of quotients in whose divisor it
    stands. -/
def leaves : Expr → List (Expr × Nat)
  | field id name => [(field id name, 0)]
  | literal id value unit => [(literal id value unit, 0)]
  | cast _ _ operand | unary _ _ operand => operand.leaves
  | call _ _ arguments => leavesOf arguments
  | binary _ op left right =>
    left.leaves ++ right.leaves.map fun leaf => (leaf.1, leaf.2 + if op = .divide then 1 else 0)

/-- The leaves of some trees. -/
def leavesOf : List Expr → List (Expr × Nat)
  | [] => []
  | e :: es => e.leaves ++ leavesOf es
end

end Expr

namespace Context

variable {context : Context} {root other : Expr}

/-- The unit of a leaf: a literal has its own, a field that of the context. -/
def leafUnit (context : Context) : Expr → Option Factor
  | .literal _ _ (some symbol) => some (.ofSymbol symbol)
  | .literal _ _ none => some .one
  | .field _ name => context.fieldUnit name
  | _ => none

/-- A tree of products, quotients, signs and casts over literals, and over fields that have a
    unit. -/
inductive Multiplicative (context : Context) : Expr → Prop where
  | literal (id : Nat) (value : Literal) (unit : Option String) :
      Multiplicative context (.literal id value unit)
  | field (id : Nat) {name : String} {unit : Factor} : context.fieldUnit name = some unit →
      Multiplicative context (.field id name)
  | cast (id : Nat) (target : CastType) {operand : Expr} : Multiplicative context operand →
      Multiplicative context (.cast id target operand)
  | unary (id : Nat) (op : UnaryOp) {operand : Expr} : Multiplicative context operand →
      Multiplicative context (.unary id op operand)
  | multiply (id : Nat) {left right : Expr} : Multiplicative context left →
      Multiplicative context right → Multiplicative context (.binary id .multiply left right)
  | divide (id : Nat) {left right : Expr} : Multiplicative context left →
      Multiplicative context right → Multiplicative context (.binary id .divide left right)

/-- What a leaf contributes to the whole: its unit, turned over if it stands in the divisors of an
    odd number of quotients. -/
def contribution (context : Context) (leaf : Expr × Nat) : Factor :=
  let unit := (context.leafUnit leaf.1).getD .one
  if leaf.2 % 2 = 0 then unit else unit.inverse

/-- The powers that all leaves contribute on a side of the bar. -/
def powers (context : Context) (root : Expr) (side : Side) (s : String) : Nat :=
  (root.leaves.map fun leaf => (context.contribution leaf).exponent side s).sum

/-- One quotient more turns a contribution over. -/
theorem contribution_succ (leaf : Expr) (n : Nat) :
    context.contribution (leaf, n + 1) = (context.contribution (leaf, n)).inverse := by
  simp only [contribution]
  by_cases h : n % 2 = 0
  · rw [if_pos h, if_neg (by omega)]
  · rw [if_neg h, if_pos (by omega), Factor.inverse_inverse]

theorem powers_leaf (leaf : Expr) {unit : Factor} (hleaf : leaf.leaves = [(leaf, 0)])
    (hunit : context.leafUnit leaf = some unit) (side : Side) (s : String) :
    context.powers leaf side s = unit.exponent side s := by
  simp [powers, hleaf, contribution, hunit]

theorem powers_multiply (id : Nat) (left right : Expr) (side : Side) (s : String) :
    context.powers (.binary id .multiply left right) side s =
      context.powers left side s + context.powers right side s := by
  simp [powers, Expr.leaves]

/-- In the divisor of a quotient the sides are exchanged. -/
theorem powers_divide (id : Nat) (left right : Expr) (side : Side) (s : String) :
    context.powers (.binary id .divide left right) side s =
      context.powers left side s + context.powers right side.flip s := by
  simp only [powers, Expr.leaves, if_true, List.map_append, List.map_map, List.sum_append,
    Function.comp_def, contribution_succ, Factor.exponent_inverse]

/-! ## The unit of the root -/

/-- Recursion on a product of any shape calculates what the leaves contribute. -/
theorem Multiplicative.exists_settles (h : context.Multiplicative root) :
    ∃ outcome : Except UnitError Factor, context.unitOf root = outcome.mapError .units ∧
      Factor.Settles outcome (context.powers root) := by
  induction h with
  | literal id value unit =>
    cases unit with
    | none =>
      refine ⟨.ok .one, by rw [unitOf]; rfl, (Factor.settles_ok _).congr fun side s => ?_⟩
      rw [powers_leaf _ (by rw [Expr.leaves]) rfl]
    | some symbol =>
      refine ⟨.ok (.ofSymbol symbol), by rw [unitOf]; rfl, (Factor.settles_ok _).congr
        fun side s => ?_⟩
      rw [powers_leaf _ (by rw [Expr.leaves]) rfl]
  | @field id name unit hunit =>
    refine ⟨.ok unit, by rw [unitOf, hunit]; rfl, (Factor.settles_ok _).congr fun side s => ?_⟩
    rw [powers_leaf (.field id name) (by rw [Expr.leaves]) hunit]
  | cast _ _ _ ih =>
    obtain ⟨outcome, hunit, hsettles⟩ := ih
    exact ⟨outcome, by rw [unitOf, hunit], hsettles.congr fun side s => by
      rw [powers, powers, Expr.leaves]⟩
  | unary _ _ _ ih =>
    obtain ⟨outcome, hunit, hsettles⟩ := ih
    exact ⟨outcome, by rw [unitOf, hunit], hsettles.congr fun side s => by
      rw [powers, powers, Expr.leaves]⟩
  | @multiply id left right _ _ ihleft ihright =>
    obtain ⟨l, hl, hleft⟩ := ihleft
    obtain ⟨r, hr, hright⟩ := ihright
    refine ⟨l >>= fun a => r >>= fun b => a.mul b, ?_, ?_⟩
    · rw [unitOf, hl, hr, mapError_bind]
      simp only [mapError_bind]
      rfl
    · exact (hleft.combine hright (fun side => side) (fun _ => rfl)
        Factor.settles_mul).congr fun side s => (powers_multiply id left right side s).symm
  | @divide id left right _ _ ihleft ihright =>
    obtain ⟨l, hl, hleft⟩ := ihleft
    obtain ⟨r, hr, hright⟩ := ihright
    refine ⟨l >>= fun a => r >>= fun b => a.div b, ?_, ?_⟩
    · rw [unitOf, hl, hr, mapError_bind]
      simp only [mapError_bind]
      rfl
    · exact (hleft.combine hright Side.flip Side.flip_flip Factor.settles_div).congr
        fun side s => (powers_divide id left right side s).symm

/-! ## Resolution -/

namespace Multiplicative

theorem resolveRoot_eq_ok_iff (h : context.Multiplicative root) (hids : root.ids.Nodup)
    {unit : Factor} : context.resolveRoot root = .ok unit ↔
      ∀ side s, unit.exponent side s = context.powers root side s := by
  obtain ⟨outcome, hunit, hsettles⟩ := h.exists_settles
  rw [resolveRoot_eq_unitOf hids, hunit, mapError_eq_ok_iff, hsettles.eq_ok_iff]

theorem overflow_of_resolve (h : context.Multiplicative root) (hids : root.ids.Nodup)
    {cause : FilterError} (hcause : context.resolve root = .error cause) :
    ∃ symbol side, cause = .units (.exponentOverflow symbol) ∧
      maxExponent < context.powers root side symbol := by
  obtain ⟨outcome, hunit, hsettles⟩ := h.exists_settles
  rw [resolve_eq_error_iff hids, hunit] at hcause
  cases outcome with
  | ok unit => cases hcause
  | error inner =>
    cases hcause
    obtain ⟨symbol, side, hside, rfl⟩ := hsettles.overflow inner rfl
    exact ⟨symbol, side, rfl, hside⟩

theorem exists_resolve_iff (h : context.Multiplicative root) (hids : root.ids.Nodup) :
    (∃ units, context.resolve root = .ok units) ↔
      ∀ side s, context.powers root side s ≤ maxExponent := by
  constructor
  · rintro ⟨units, hunits⟩ side s
    obtain ⟨unit, hunit, -⟩ := (noted_of_resolve hunits).unit root root.self_mem_postOrder
    rw [← resolveRoot_eq_unitOf hids, h.resolveRoot_eq_ok_iff hids] at hunit
    rw [← hunit]
    exact unit.exponent_le_max side s
  · intro hrange
    cases hresolve : context.resolve root with
    | ok units => exact ⟨units, rfl⟩
    | error cause =>
      obtain ⟨symbol, side, -, hside⟩ := h.overflow_of_resolve hids hresolve
      exact absurd (hrange side symbol) (Nat.not_le.2 hside)

theorem exists_overflow_iff (h : context.Multiplicative root) (hids : root.ids.Nodup) :
    (∃ symbol, context.resolve root = .error (.units (.exponentOverflow symbol))) ↔
      ∃ side s, maxExponent < context.powers root side s := by
  constructor
  · rintro ⟨symbol, hsymbol⟩
    obtain ⟨symbol, side, -, hside⟩ := h.overflow_of_resolve hids hsymbol
    exact ⟨side, symbol, hside⟩
  · rintro ⟨side, s, hlarge⟩
    cases hresolve : context.resolve root with
    | ok units =>
      exact absurd ((h.exists_resolve_iff hids).1 ⟨units, hresolve⟩ side s) (Nat.not_le.2 hlarge)
    | error cause =>
      obtain ⟨symbol, -, rfl, -⟩ := h.overflow_of_resolve hids hresolve
      exact ⟨symbol, rfl⟩

end Multiplicative

/-- The order of the contributions does not matter to their sums. -/
theorem powers_of_perm
    (h : (root.leaves.map context.contribution).Perm (other.leaves.map context.contribution))
    (side : Side) (s : String) : context.powers root side s = context.powers other side s := by
  have hsums := (h.map fun unit => unit.exponent side s).sum_nat
  rw [List.map_map, List.map_map] at hsums
  exact hsums

/-- **The unit of a product of any shape.** In a tree of products, quotients, signs and casts over
    literals and fields with units, a leaf contributes its unit, and this turned over if it stands
    in the divisors of an odd number of quotients. If ids are distinct, the powers of the root are
    the sums of all contributions. The walk fails just if one of the sums is too large, and then for
    such a symbol. Trees with the same contributions, however grouped and ordered, have the same
    unit or all fail so. -/
theorem resolve_product (context : Context) {root : Expr} (hroot : context.Multiplicative root)
    (hids : root.ids.Nodup) :
    (∀ units, context.resolve root = .ok units → ∃ unit, units[root.id]? = some unit ∧
      ∀ side s, unit.exponent side s =
        (root.leaves.map fun leaf => (context.contribution leaf).exponent side s).sum) ∧
    ((∃ units, context.resolve root = .ok units) ↔
      ∀ side s, context.powers root side s ≤ maxExponent) ∧
    (∀ cause, context.resolve root = .error cause → ∃ symbol side,
      cause = .units (.exponentOverflow symbol) ∧
        maxExponent < context.powers root side symbol) ∧
    ∀ other, context.Multiplicative other → other.ids.Nodup →
      (root.leaves.map context.contribution).Perm (other.leaves.map context.contribution) →
        (∀ unit, context.resolveRoot root = .ok unit ↔ context.resolveRoot other = .ok unit) ∧
        ((∃ symbol, context.resolve root = .error (.units (.exponentOverflow symbol))) ↔
          ∃ symbol, context.resolve other = .error (.units (.exponentOverflow symbol))) := by
  refine ⟨fun units hunits => ?_, hroot.exists_resolve_iff hids,
    fun _ => hroot.overflow_of_resolve hids, fun other hother hids' hperm => ⟨fun unit => ?_, ?_⟩⟩
  · obtain ⟨unit, hunit, hmap⟩ := (noted_of_resolve hunits).unit root root.self_mem_postOrder
    rw [← resolveRoot_eq_unitOf hids, hroot.resolveRoot_eq_ok_iff hids] at hunit
    exact ⟨unit, hmap, hunit⟩
  · rw [hroot.resolveRoot_eq_ok_iff hids, hother.resolveRoot_eq_ok_iff hids']
    simp only [powers_of_perm hperm]
  · rw [hroot.exists_overflow_iff hids, hother.exists_overflow_iff hids']
    simp only [powers_of_perm hperm]

/-- A quotient whose divisor is a quotient: `x / (2 cm / x)` has the powers of `x * x / 2 cm`. -/
theorem resolve_product_nested :
    let context := ((Bindings.empty true).setField "x" (.ofSymbol "s")).context
    let length := Expr.literal 1 (.int 2) (some "cm")
    let nested := Expr.binary 4 .divide (.field 0 "x") (.binary 3 .divide length (.field 2 "x"))
    let flat := Expr.binary 4 .divide (.binary 3 .multiply (.field 0 "x") (.field 2 "x")) length
    context.Multiplicative nested ∧ nested.ids.Nodup ∧ context.Multiplicative flat ∧
      flat.ids.Nodup ∧
      (nested.leaves.map context.contribution).Perm (flat.leaves.map context.contribution) ∧
      ∀ unit, context.resolveRoot nested = .ok unit ↔ context.resolveRoot flat = .ok unit := by
  intro context length nested flat
  have hx : context.fieldUnit "x" = some (.ofSymbol "s") := Std.HashMap.getElem?_insert_self
  have hnested : context.Multiplicative nested :=
    .divide 4 (.field 0 hx) (.divide 3 (.literal 1 (.int 2) (some "cm")) (.field 2 hx))
  have hflat : context.Multiplicative flat :=
    .divide 4 (.multiply 3 (.field 0 hx) (.field 2 hx)) (.literal 1 (.int 2) (some "cm"))
  have hids : nested.ids.Nodup := by decide
  have hids' : flat.ids.Nodup := by decide
  -- The field below two divisors is a factor, and the leaves differ in order only.
  have hperm : (nested.leaves.map context.contribution).Perm
      (flat.leaves.map context.contribution) := by
    have hturned : context.contribution (.field 2 "x", 2) =
        context.contribution (.field 2 "x", 0) := rfl
    simp only [nested, flat, length, Expr.leaves, List.map_cons, List.map_nil, List.cons_append,
      List.nil_append, if_true, reduceCtorEq, if_false]
    exact .cons _ (hturned ▸ .swap _ _ _)
  obtain ⟨-, -, -, hsame⟩ := resolve_product context hnested hids
  exact ⟨hnested, hids, hflat, hids', hperm, (hsame flat hflat hids' hperm).1⟩

end Context

end UnitCheck
