import Mathlib.Algebra.BigOperators.Group.List.Lemmas
import Mathlib.Algebra.Group.Commute.Units
import Mathlib.Data.List.Perm.Basic
import UnitCheck.Proofs.Factor.Arithmetic
import UnitCheck.Proofs.Registry.Coherence

/-!
  The order in which the units of a factor are followed to base units.

  A conversion takes the steps of the units one after the other, and steps with offsets do not
  commute. So another order of the units may change the offset, but neither the factor nor whether
  there is a conversion at all (`sameFactor_wayAlong`, `SameFactor.between`). Where the steps on
  each side of the bar commute (`Registry.Commutes`), the order does not matter
  (`Commutes.wayAlong_perm`).
-/

namespace UnitCheck.Registry

/-! ## Ways along entries -/

section

variable {α : Type} [Scalar α]

/-- The step of a unit, as often as its power says. -/
def stepUp (registry : Registry α) (e : String × Exponent) : Except UnitError (Conversion α) := do
  return (← registry.unitStep e.1).iterate e.2.val

/-- The step of a unit backwards, as often as its power says. -/
def stepDown (registry : Registry α) (e : String × Exponent) : Except UnitError (Conversion α) := do
  return (← invert (← registry.unitStep e.1)).iterate e.2.val

/-- The steps of some entries, taken one after the other. -/
def along {β : Type} (step : β → Except UnitError (Conversion α)) (entries : List β)
    (start : Conversion α) : Except UnitError (Conversion α) :=
  entries.foldlM (fun result e => do return result.compose (← step e)) start

/-- The way to base units along the entries above and below the bar, in the order given. -/
def wayAlong (registry : Registry α) (above below : List (String × Exponent)) :
    Except UnitError (Conversion α) := do
  along registry.stepDown below (← along registry.stepUp above .identity)

/-- A conversion between two ways to base units. -/
def between (out back : Except UnitError (Conversion α)) : Except UnitError (Conversion α) := do
  let out ← out
  let back ← back
  return out.compose (← invert back)

theorem toBase_eq_wayAlong (registry : Registry α) (units : Factor) : registry.toBase units =
    registry.wayAlong units.numerator.entries units.denominator.entries := by
  simp only [toBase, wayAlong, along, stepUp, stepDown, bind_assoc, pure_bind]

theorem conversion_eq_between (registry : Registry α) (source target : Factor) :
    registry.conversion source target = between (registry.toBase source) (registry.toBase target) :=
  rfl

end

variable {registry : Registry Rat}

/-! ## Products of steps -/

theorem along_eq_ok_iff {β : Type} {step : β → Except UnitError (Conversion Rat)}
    {entries : List β} {start way : Conversion Rat} :
    along step entries start = .ok way ↔
      ∃ steps, List.Forall₂ (fun e taken => step e = .ok taken) entries steps ∧
        way = start * steps.prod := by
  -- Induction on the entries, for any start of the way.
  induction entries generalizing start with
  | nil =>
    constructor
    · intro h
      cases h
      exact ⟨[], .nil, (mul_one _).symm⟩
    · rintro ⟨steps, hsteps, rfl⟩
      cases hsteps
      rw [List.prod_nil, mul_one]
      rfl
  | cons e entries ih =>
    rw [along, List.foldlM_cons]
    constructor
    · intro h
      obtain ⟨next, hnext, h⟩ := bind_eq_ok_iff.1 h
      obtain ⟨taken, htaken, hcompose⟩ := bind_eq_ok_iff.1 hnext
      cases hcompose
      obtain ⟨steps, hsteps, rfl⟩ := ih.1 h
      refine ⟨taken :: steps, .cons htaken hsteps, ?_⟩
      rw [Conversion.compose_eq_mul, List.prod_cons, mul_assoc]
    · rintro ⟨steps, hsteps, rfl⟩
      cases hsteps with
      | cons htaken hsteps =>
        rename_i taken steps
        refine bind_eq_ok_iff.2 ⟨start * taken, bind_eq_ok_iff.2 ⟨taken, htaken, rfl⟩, ?_⟩
        exact ih.2 ⟨steps, hsteps, by rw [List.prod_cons, mul_assoc]⟩

/-- A way is the product of the steps above the bar and of those below. -/
theorem wayAlong_eq_ok_iff {above below : List (String × Exponent)} {way : Conversion Rat} :
    registry.wayAlong above below = .ok way ↔
      ∃ ups downs, List.Forall₂ (fun e taken => registry.stepUp e = .ok taken) above ups ∧
        List.Forall₂ (fun e taken => registry.stepDown e = .ok taken) below downs ∧
        way = ups.prod * downs.prod := by
  constructor
  · intro h
    obtain ⟨up, hup, hdown⟩ := bind_eq_ok_iff.1 h
    obtain ⟨ups, hups, rfl⟩ := along_eq_ok_iff.1 hup
    obtain ⟨downs, hdowns, rfl⟩ := along_eq_ok_iff.1 hdown
    exact ⟨ups, downs, hups, hdowns, by rw [Conversion.identity_eq_one, one_mul]⟩
  · rintro ⟨ups, downs, hups, hdowns, rfl⟩
    refine bind_eq_ok_iff.2 ⟨ups.prod, along_eq_ok_iff.2 ⟨ups, hups, ?_⟩,
      along_eq_ok_iff.2 ⟨downs, hdowns, rfl⟩⟩
    rw [Conversion.identity_eq_one, one_mul]

/-- In another order the same steps are taken. -/
theorem exists_wayAlong_of_perm {above above' below below' : List (String × Exponent)}
    (habove : above'.Perm above) (hbelow : below'.Perm below) {way : Conversion Rat}
    (h : registry.wayAlong above below = .ok way) :
    ∃ ups downs ups' downs' : List (Conversion Rat),
      List.Forall₂ (fun e taken => registry.stepUp e = .ok taken) above ups ∧
      List.Forall₂ (fun e taken => registry.stepDown e = .ok taken) below downs ∧
      ups'.Perm ups ∧ downs'.Perm downs ∧ way = ups.prod * downs.prod ∧
      registry.wayAlong above' below' = .ok (ups'.prod * downs'.prod) := by
  obtain ⟨ups, downs, hups, hdowns, rfl⟩ := wayAlong_eq_ok_iff.1 h
  obtain ⟨ups', hups', hperm⟩ := List.perm_comp_forall₂ habove hups
  obtain ⟨downs', hdowns', hperm'⟩ := List.perm_comp_forall₂ hbelow hdowns
  exact ⟨ups, downs, ups', downs', hups, hdowns, hperm, hperm', rfl,
    wayAlong_eq_ok_iff.2 ⟨ups', downs', hups', hdowns', rfl⟩⟩

/-! ## Factors -/

theorem factor_prod (steps : List (Conversion Rat)) :
    steps.prod.factor = (steps.map Conversion.factor).prod := by
  induction steps with
  | nil => rfl
  | cons step steps ih =>
    rw [List.prod_cons, Conversion.factor_mul, ih, List.map_cons, List.prod_cons]

theorem factor_prod_perm {steps steps' : List (Conversion Rat)} (h : steps.Perm steps') :
    steps.prod.factor = steps'.prod.factor := by
  rw [factor_prod, factor_prod, (h.map _).prod_eq]

/-- Where the first outcome is a conversion, so is the second, with the same factor. -/
def SameFactor (first second : Except UnitError (Conversion Rat)) : Prop :=
  ∀ map, first = .ok map → ∃ map', second = .ok map' ∧ map'.factor = map.factor

/-- In another order the way has the same factor. -/
theorem sameFactor_wayAlong {above above' below below' : List (String × Exponent)}
    (habove : above'.Perm above) (hbelow : below'.Perm below) :
    SameFactor (registry.wayAlong above below) (registry.wayAlong above' below') := by
  intro way h
  obtain ⟨ups, downs, ups', downs', -, -, hups, hdowns, rfl, hway⟩ :=
    exists_wayAlong_of_perm habove hbelow h
  refine ⟨_, hway, ?_⟩
  rw [Conversion.factor_mul, Conversion.factor_mul, factor_prod_perm hups, factor_prod_perm hdowns]

theorem between_eq_ok_iff {out back : Except UnitError (Conversion Rat)} {map : Conversion Rat} :
    between out back = .ok map ↔
      ∃ first second inverse, out = .ok first ∧ back = .ok second ∧
        second * inverse = 1 ∧ inverse * second = 1 ∧ map = first * inverse := by
  constructor
  · intro h
    obtain ⟨first, hfirst, h⟩ := bind_eq_ok_iff.1 h
    obtain ⟨second, hsecond, h⟩ := bind_eq_ok_iff.1 h
    obtain ⟨inverse, hinverse, h⟩ := bind_eq_ok_iff.1 h
    cases h
    obtain ⟨hright, hleft⟩ := invert_eq_ok_iff.1 hinverse
    exact ⟨first, second, inverse, hfirst, hsecond, hright, hleft, rfl⟩
  · rintro ⟨first, second, inverse, rfl, rfl, hright, hleft, rfl⟩
    exact bind_eq_ok_iff.2 ⟨first, rfl, bind_eq_ok_iff.2 ⟨second, rfl,
      bind_eq_ok_iff.2 ⟨inverse, invert_eq_ok_iff.2 ⟨hright, hleft⟩, rfl⟩⟩⟩

/-- The factor between two ways is told by their factors, and so is whether there is one. -/
theorem SameFactor.between {out out' back back' : Except UnitError (Conversion Rat)}
    (hout : SameFactor out out') (hback : SameFactor back back') :
    SameFactor (between out back) (between out' back') := by
  intro map h
  obtain ⟨first, second, inverse, hfirst, hsecond, hright, -, rfl⟩ := between_eq_ok_iff.1 h
  obtain ⟨first', hfirst', hfactor⟩ := hout first hfirst
  obtain ⟨second', hsecond', hfactor'⟩ := hback second hsecond
  have hone : second.factor * inverse.factor = 1 := congrArg Conversion.factor hright
  have hne : second'.factor ≠ 0 := hfactor' ▸ left_ne_zero_of_mul_eq_one hone
  obtain ⟨inverse', hinverse'⟩ : ∃ inverse', second'.inverse? = some inverse' :=
    Option.ne_none_iff_exists'.1 fun hnone => hne (Conversion.inverse?_eq_none_iff.1 hnone)
  obtain ⟨hright', hleft'⟩ := Conversion.inverse?_eq_some_iff.1 hinverse'
  have hone' : second'.factor * inverse'.factor = 1 := congrArg Conversion.factor hright'
  -- The inverse of a way has the inverse of its factor, whatever the offset.
  have hinverse : inverse'.factor = inverse.factor := by
    apply mul_left_cancel₀ hne
    rw [hone', hfactor', hone]
  refine ⟨first' * inverse',
    between_eq_ok_iff.2 ⟨first', second', inverse', hfirst', hsecond', hright', hleft', rfl⟩, ?_⟩
  rw [Conversion.factor_mul, Conversion.factor_mul, hfactor, hinverse]

/-! ## Steps that commute -/

/-- On each side of the bar, the steps of any two units may be taken in either order. -/
def Commutes (registry : Registry Rat) (units : Factor) : Prop :=
  ∀ side, ∀ unit ∈ (units.side side).symbols, ∀ other ∈ (units.side side).symbols,
    ∀ step step', registry.unitStep unit = .ok step → registry.unitStep other = .ok step' →
      step.compose step' = step'.compose step

/-- Where each side has one unit at most, nothing can be taken in another order. -/
theorem commutes_of_single (registry : Registry Rat) {units : Factor}
    (h : ∀ side, ∀ unit ∈ (units.side side).symbols, ∀ other ∈ (units.side side).symbols,
      unit = other) : registry.Commutes units := by
  intro side unit hunit other hother step step' hstep hstep'
  obtain rfl := h side unit hunit other hother
  obtain rfl := Except.ok.inj (hstep.symm.trans hstep')
  rfl

/-- Steps without offsets commute. -/
theorem commutes_of_scales {units : Factor} (h : ∀ unit ∈ units.symbols, ∀ step,
    registry.unitStep unit = .ok step → step.offset = 0) : registry.Commutes units := by
  intro side unit hunit other hother step step' hstep hstep'
  have hmem : ∀ symbol ∈ (units.side side).symbols, symbol ∈ units.symbols := by
    intro symbol hsymbol
    cases side with
    | above => exact List.mem_append_left _ hsymbol
    | below => exact List.mem_append_right _ hsymbol
  have hoffset := h unit (hmem unit hunit) step hstep
  have hoffset' := h other (hmem other hother) step' hstep'
  ext
  · exact mul_comm step.factor step'.factor
  · show step.offset * step'.factor + step'.offset = step'.offset * step.factor + step.offset
    rw [hoffset, hoffset', zero_mul, zero_mul]

/-- A step that commutes with another one commutes with it backwards. -/
theorem commute_inverse {map inverse other : Conversion Rat} (hright : map * inverse = 1)
    (hleft : inverse * map = 1) (h : Commute map other) : Commute inverse other := by
  calc inverse * other = inverse * other * (map * inverse) := by rw [hright, mul_one]
    _ = inverse * (other * map) * inverse := by simp only [mul_assoc]
    _ = inverse * (map * other) * inverse := by rw [h.eq]
    _ = inverse * map * other * inverse := by simp only [mul_assoc]
    _ = other * inverse := by rw [hleft, one_mul]

theorem commute_of_stepUp {unit other : String × Exponent} {taken taken' : Conversion Rat}
    (h : ∀ step step', registry.unitStep unit.1 = .ok step → registry.unitStep other.1 = .ok step' →
      Commute step step')
    (htaken : registry.stepUp unit = .ok taken) (htaken' : registry.stepUp other = .ok taken') :
    Commute taken taken' := by
  obtain ⟨step, hstep, hpower⟩ := bind_eq_ok_iff.1 htaken
  obtain ⟨step', hstep', hpower'⟩ := bind_eq_ok_iff.1 htaken'
  cases hpower
  cases hpower'
  rw [Conversion.iterate_eq_pow, Conversion.iterate_eq_pow]
  exact (h step step' hstep hstep').pow_pow _ _

theorem commute_of_stepDown {unit other : String × Exponent} {taken taken' : Conversion Rat}
    (h : ∀ step step', registry.unitStep unit.1 = .ok step → registry.unitStep other.1 = .ok step' →
      Commute step step')
    (htaken : registry.stepDown unit = .ok taken) (htaken' : registry.stepDown other = .ok taken') :
    Commute taken taken' := by
  obtain ⟨step, hstep, hpower⟩ := bind_eq_ok_iff.1 htaken
  obtain ⟨inverse, hinverse, hpower⟩ := bind_eq_ok_iff.1 hpower
  obtain ⟨step', hstep', hpower'⟩ := bind_eq_ok_iff.1 htaken'
  obtain ⟨inverse', hinverse', hpower'⟩ := bind_eq_ok_iff.1 hpower'
  cases hpower
  cases hpower'
  obtain ⟨hright, hleft⟩ := invert_eq_ok_iff.1 hinverse
  obtain ⟨hright', hleft'⟩ := invert_eq_ok_iff.1 hinverse'
  rw [Conversion.iterate_eq_pow, Conversion.iterate_eq_pow]
  have hcommute := commute_inverse hright hleft (h step step' hstep hstep')
  exact (commute_inverse hright' hleft' hcommute.symm).symm.pow_pow _ _

/-- Steps that commute pairwise have the same product in any order. -/
theorem prod_perm_of_forall₂ {β : Type} {step : β → Except UnitError (Conversion Rat)}
    {entries : List β} {steps steps' : List (Conversion Rat)}
    (hsteps : List.Forall₂ (fun e taken => step e = .ok taken) entries steps)
    (hcommute : ∀ e ∈ entries, ∀ e' ∈ entries, ∀ taken taken', step e = .ok taken →
      step e' = .ok taken' → Commute taken taken')
    (hperm : steps'.Perm steps) : steps'.prod = steps.prod := by
  refine (hperm.symm.prod_eq' ?_).symm
  refine List.pairwise_of_forall_mem_list fun taken htaken taken' htaken' => ?_
  obtain ⟨e, he, hstep⟩ := exists_mem_right_of_forall₂ hsteps.flip htaken
  obtain ⟨e', he', hstep'⟩ := exists_mem_right_of_forall₂ hsteps.flip htaken'
  exact hcommute e he e' he' taken taken' hstep hstep'

/-- Where the steps commute, the way is the same in any order. -/
theorem Commutes.wayAlong_perm {units : Factor} (h : registry.Commutes units)
    {above below : List (String × Exponent)} (habove : above.Perm units.numerator.entries)
    (hbelow : below.Perm units.denominator.entries) {way : Conversion Rat}
    (hway : registry.toBase units = .ok way) : registry.wayAlong above below = .ok way := by
  rw [toBase_eq_wayAlong] at hway
  obtain ⟨ups, downs, ups', downs', hups, hdowns, hperm, hperm', rfl, hway'⟩ :=
    exists_wayAlong_of_perm habove hbelow hway
  have hup : ups'.prod = ups.prod := by
    refine prod_perm_of_forall₂ hups (fun e he e' he' _ _ => ?_) hperm
    exact commute_of_stepUp
      (h .above e.1 (List.mem_map_of_mem he) e'.1 (List.mem_map_of_mem he'))
  have hdown : downs'.prod = downs.prod := by
    refine prod_perm_of_forall₂ hdowns (fun e he e' he' _ _ => ?_) hperm'
    exact commute_of_stepDown
      (h .below e.1 (List.mem_map_of_mem he) e'.1 (List.mem_map_of_mem he'))
  rw [hway', hup, hdown]

end UnitCheck.Registry
