import UnitCheck.Proofs.Conversion
import UnitCheck.Proofs.Registry.WellFormed

/-!
  Conversions between factors of units fit together, over rational numbers.

  A conversion is the way from its source to base units, and then the way from its target
  backwards. So what lies between two conversions cancels (`conversion_trans`), and a way and its
  return give the identity (`eq_one_of_conversion_self`). A way cannot be followed backwards only
  if one of its steps maps all values to one (`collapses_of_conversion_eq_error`).
-/

namespace UnitCheck.Registry

variable {registry : Registry Rat}

/-! ## Ways to base units -/

theorem invert_eq_ok_iff {map inverse : Conversion Rat} :
    invert map = .ok inverse ↔ map * inverse = 1 ∧ inverse * map = 1 := by
  rw [← Conversion.inverse?_eq_some_iff, invert]
  cases map.inverse? with
  | some found => rw [Except.ok.injEq, Option.some.injEq]
  | none =>
    constructor
    · intro h
      cases h
    · intro h
      cases h

theorem invert_eq_error_iff {map : Conversion Rat} {cause : UnitError} :
    invert map = .error cause ↔ map.factor = 0 ∧ cause = .zeroConversionFactor := by
  rw [← Conversion.inverse?_eq_none_iff, invert]
  cases map.inverse? with
  | some found => simp
  | none => simp [eq_comm]

/-- The step of a unit is missing only if the unit is unknown. -/
theorem eq_unknownUnit_of_unitStep {unit : String} {cause : UnitError}
    (h : registry.unitStep unit = .error cause) : cause = .unknownUnit unit := by
  -- The unit is missing in the index, or in the dimension that the index leads to.
  rcases bind_eq_error_iff.1 h with h | ⟨dimension, -, h⟩
  · rw [measuredBy, entry] at h
    split at h
    · cases h
    · cases h
      rfl
  · cases hstep : dimension.multiple? unit with
    | none =>
      rw [hstep] at h
      cases h
      rfl
    | some step =>
      rw [hstep] at h
      cases hcomposition : dimension.composition with
      | none =>
        simp only [hcomposition] at h
        cases h
      | some composition =>
        simp only [hcomposition] at h
        cases h

/-- The unit is known, and its step maps all values to one. -/
def Collapses (registry : Registry Rat) (unit : String) : Prop :=
  ∃ step, registry.unitStep unit = .ok step ∧ step.factor = 0

theorem toBase_eq (units : Factor) : registry.toBase units =
    (units.numerator.entries.foldlM (fun result e => do
        let step ← registry.unitStep e.1
        return result * step ^ e.2.val) (1 : Conversion Rat) >>=
      units.denominator.entries.foldlM fun result e => do
        let step ← invert (← registry.unitStep e.1)
        return result * step ^ e.2.val) := by
  simp only [toBase, Conversion.compose_eq_mul, Conversion.iterate_eq_pow,
    Conversion.identity_eq_one]

/-- Following the units of a factor fails on a map without inverse only at the denominator. -/
theorem collapses_of_toBase_eq_error {units : Factor}
    (h : registry.toBase units = .error .zeroConversionFactor) :
    ∃ unit ∈ units.denominator.symbols, registry.Collapses unit := by
  rw [toBase_eq] at h
  rcases bind_eq_error_iff.1 h with h | ⟨above, -, h⟩
  · obtain ⟨e, -, result, he⟩ := exists_of_foldlM_eq_error h
    rcases bind_eq_error_iff.1 he with he | ⟨step, -, he⟩
    · cases eq_unknownUnit_of_unitStep he
    · cases he
  · obtain ⟨e, hmem, result, he⟩ := exists_of_foldlM_eq_error h
    rcases bind_eq_error_iff.1 he with he | ⟨step, hstep, he⟩
    · cases eq_unknownUnit_of_unitStep he
    · rcases bind_eq_error_iff.1 he with he | ⟨inverse, -, he⟩
      · exact ⟨e.1, List.mem_map_of_mem hmem, step, hstep, (invert_eq_error_iff.1 he).1⟩
      · cases he

/-- A way to base units maps all values to one only if a step of its numerator does. -/
theorem collapses_of_toBase_eq_ok {units : Factor} {map : Conversion Rat}
    (h : registry.toBase units = .ok map) (hzero : map.factor = 0) :
    ∃ unit ∈ units.numerator.symbols, registry.Collapses unit := by
  by_contra hnone
  rw [toBase_eq] at h
  obtain ⟨above, habove, hbelow⟩ := bind_eq_ok_iff.1 h
  have hone : (1 : Conversion Rat).factor ≠ 0 := one_ne_zero
  have hfactor : above.factor ≠ 0 := by
    refine foldlM_induction (P := fun map => map.factor ≠ 0)
      (fun e he before after hbefore hstep => ?_) habove hone
    obtain ⟨step, hunit, hafter⟩ := bind_eq_ok_iff.1 hstep
    cases hafter
    have hne : step.factor ≠ 0 := fun hstep =>
      hnone ⟨e.1, List.mem_map_of_mem he, step, hunit, hstep⟩
    rw [Conversion.factor_mul, Conversion.factor_pow]
    exact mul_ne_zero hbefore (pow_ne_zero _ hne)
  -- The steps of the denominator are inverses, and no inverse has a zero factor.
  refine foldlM_induction (P := fun map => map.factor ≠ 0)
    (fun e _ before after hbefore hstep => ?_) hbelow hfactor hzero
  obtain ⟨step, -, hstep⟩ := bind_eq_ok_iff.1 hstep
  obtain ⟨inverse, hinverse, hafter⟩ := bind_eq_ok_iff.1 hstep
  cases hafter
  have hne := Conversion.factor_ne_zero_of_mul_eq_one (invert_eq_ok_iff.1 hinverse).1
  rw [Conversion.factor_mul, Conversion.factor_pow]
  exact mul_ne_zero hbefore (pow_ne_zero _ hne)

/-! ## Conversions -/

/-- A conversion is the way from its source and the way from its target backwards. -/
theorem conversion_eq_ok_iff {source target : Factor} {map : Conversion Rat} :
    registry.conversion source target = .ok map ↔
      ∃ out back inverse, registry.toBase source = .ok out ∧ registry.toBase target = .ok back ∧
        back * inverse = 1 ∧ inverse * back = 1 ∧ map = out * inverse := by
  rw [conversion]
  constructor
  · intro h
    obtain ⟨out, hout, h⟩ := bind_eq_ok_iff.1 h
    obtain ⟨back, hback, h⟩ := bind_eq_ok_iff.1 h
    obtain ⟨inverse, hinverse, h⟩ := bind_eq_ok_iff.1 h
    cases h
    obtain ⟨hright, hleft⟩ := invert_eq_ok_iff.1 hinverse
    exact ⟨out, back, inverse, hout, hback, hright, hleft, rfl⟩
  · rintro ⟨out, back, inverse, hout, hback, hright, hleft, rfl⟩
    rw [hout, hback]
    show (invert back >>= fun inverse => pure (out.compose inverse)) = _
    rw [invert_eq_ok_iff.2 ⟨hright, hleft⟩]
    rfl

/-- What lies between two conversions cancels. -/
theorem conversion_trans {a b c : Factor} {first second : Conversion Rat}
    (hfirst : registry.conversion a b = .ok first)
    (hsecond : registry.conversion b c = .ok second) :
    registry.conversion a c = .ok (first * second) := by
  obtain ⟨out, middle, inverse, hout, hmiddle, -, hleft, rfl⟩ := conversion_eq_ok_iff.1 hfirst
  obtain ⟨middle', back, inverse', hmiddle', hback, hright, hleft', rfl⟩ :=
    conversion_eq_ok_iff.1 hsecond
  obtain rfl := Except.ok.inj (hmiddle.symm.trans hmiddle')
  refine conversion_eq_ok_iff.2 ⟨out, back, inverse', hout, hback, hright, hleft', ?_⟩
  calc out * inverse * (middle * inverse') = out * (inverse * middle) * inverse' := by
        simp only [mul_assoc]
    _ = out * inverse' := by rw [hleft, mul_one]

/-- A factor is converted to itself without a change. -/
theorem eq_one_of_conversion_self {a : Factor} {map : Conversion Rat}
    (h : registry.conversion a a = .ok map) : map = 1 := by
  obtain ⟨out, back, inverse, hout, hback, hright, -, rfl⟩ := conversion_eq_ok_iff.1 h
  obtain rfl := Except.ok.inj (hout.symm.trans hback)
  exact hright

theorem sameDimensions_eq_true_iff {α : Type} {registry : Registry α} {a b : Factor} :
    registry.sameDimensions a b = .ok true ↔
      ∃ dimensions, registry.dimensionsOfUnits a = .ok dimensions ∧
        registry.dimensionsOfUnits b = .ok dimensions := by
  rw [sameDimensions]
  constructor
  · intro h
    obtain ⟨first, hfirst, h⟩ := bind_eq_ok_iff.1 h
    obtain ⟨second, hsecond, h⟩ := bind_eq_ok_iff.1 h
    have hsame : first = second := of_decide_eq_true (Except.ok.inj h)
    exact ⟨first, hfirst, hsame ▸ hsecond⟩
  · rintro ⟨dimensions, ha, hb⟩
    rw [ha, hb]
    exact congrArg Except.ok (decide_eq_true rfl)

/-- A value is converted just between factors that measure the same and have a conversion. -/
theorem convert_eq_ok_iff {α : Type} [Scalar α] {registry : Registry α} {value result : α}
    {source target : Factor} :
    registry.convert value source target = .ok result ↔
      registry.sameDimensions source target = .ok true ∧
        ∃ map, registry.conversion source target = .ok map ∧ map.apply value = result := by
  rw [convert]
  constructor
  · intro h
    obtain ⟨same, hsame, h⟩ := bind_eq_ok_iff.1 h
    cases same with
    | false => cases h
    | true =>
      obtain ⟨map, hmap, h⟩ := bind_eq_ok_iff.1 h
      exact ⟨hsame, map, hmap, Except.ok.inj h⟩
  · rintro ⟨hsame, map, hmap, rfl⟩
    rw [hsame]
    show (registry.conversion source target >>= fun map => pure (map.apply value)) = _
    rw [hmap]
    rfl

/-- A value comes back unchanged. -/
theorem convert_back {value result : Rat} {a b : Factor} {map : Conversion Rat}
    (h : registry.convert value a b = .ok result) (hback : registry.conversion b a = .ok map) :
    registry.convert result b a = .ok value := by
  obtain ⟨hsame, out, hout, rfl⟩ := convert_eq_ok_iff.1 h
  obtain ⟨dimensions, ha, hb⟩ := sameDimensions_eq_true_iff.1 hsame
  -- There and back is a conversion of the source to itself.
  have hround : out * map = 1 := eq_one_of_conversion_self (conversion_trans hout hback)
  refine convert_eq_ok_iff.2
    ⟨sameDimensions_eq_true_iff.2 ⟨dimensions, hb, ha⟩, map, hback, ?_⟩
  rw [← Conversion.apply_mul, hround, Conversion.apply_one]

/-- A conversion fails for the lack of an inverse only where a step that is followed backwards
    maps all values to one: in the denominator of the source, or anywhere in the target. -/
theorem collapses_of_conversion_eq_error {a b : Factor}
    (h : registry.conversion a b = .error .zeroConversionFactor) :
    (∃ unit ∈ a.denominator.symbols, registry.Collapses unit) ∨
      ∃ unit ∈ b.symbols, registry.Collapses unit := by
  rcases bind_eq_error_iff.1 h with h | ⟨out, -, h⟩
  · exact .inl (collapses_of_toBase_eq_error h)
  · rcases bind_eq_error_iff.1 h with h | ⟨back, hback, h⟩
    · obtain ⟨unit, hunit, hcollapses⟩ := collapses_of_toBase_eq_error h
      exact .inr ⟨unit, List.mem_append_right _ hunit, hcollapses⟩
    · rcases bind_eq_error_iff.1 h with h | ⟨inverse, -, h⟩
      -- The way from the target is there, and yet it has no inverse.
      · obtain ⟨unit, hunit, hcollapses⟩ :=
          collapses_of_toBase_eq_ok hback (invert_eq_error_iff.1 h).1
        exact .inr ⟨unit, List.mem_append_left _ hunit, hcollapses⟩
      · cases h

/-- Conversions fit together: what lies between two of them cancels, a factor is converted to
    itself without a change, a value comes back unchanged, and only a step that maps all values to
    one keeps a conversion from being followed backwards. -/
theorem conversion_coherent (registry : Registry Rat) :
    (∀ a b c first second, registry.conversion a b = .ok first →
      registry.conversion b c = .ok second →
        registry.conversion a c = .ok (first.compose second)) ∧
    (∀ a map, registry.conversion a a = .ok map → map = ⟨1, 0⟩) ∧
    (∀ value result a b map, registry.convert value a b = .ok result →
      registry.conversion b a = .ok map → registry.convert result b a = .ok value) ∧
    ∀ a b, registry.conversion a b = .error .zeroConversionFactor →
      (∃ unit ∈ a.denominator.symbols, ∃ step,
        registry.unitStep unit = .ok step ∧ step.factor = 0) ∨
      ∃ unit ∈ b.symbols, ∃ step, registry.unitStep unit = .ok step ∧ step.factor = 0 :=
  ⟨fun _ _ _ _ _ => conversion_trans, fun _ _ => eq_one_of_conversion_self,
    fun _ _ _ _ _ => convert_back, fun _ _ => collapses_of_conversion_eq_error⟩

theorem toBase_ofSymbol {unit : String} {step : Conversion Rat}
    (h : registry.unitStep unit = .ok step) : registry.toBase (.ofSymbol unit) = .ok step := by
  rw [toBase_eq]
  show ((registry.unitStep unit >>= fun step => pure (1 * step ^ 1)) >>= pure) >>= pure = _
  rw [h]
  show Except.ok (1 * step ^ 1) = _
  rw [pow_one, one_mul]

/-- A temperature with a unit that is shifted, and one that has no way back. -/
def temperatures : List (Registration Rat) :=
  [.fundamental "temperature" "K", .multiple "C" "K" ⟨1, 273⟩, .multiple "Z" "K" ⟨0, 1⟩]

theorem after_temperatures : (empty : Registry Rat).after temperatures =
    ⟨#[⟨"temperature", "K", [("K", .identity), ("C", ⟨1, 273⟩), ("Z", ⟨0, 1⟩)], none⟩],
      (∅ : Std.HashMap String Nat).insert "temperature" 0, ∅,
      (((∅ : Std.HashMap String Nat).insert "K" 0).insert "C" 0).insert "Z" 0,
      (∅ : Std.HashSet String).insert "K"⟩ := by
  simp [after, temperatures, call_eq, register, addFundamental, addMultiple, checkNewName,
    checkNewUnit, hasUnit, empty, bind, Except.bind, pure, Except.pure,
    Std.HashMap.getElem_insert, Dimension.new, Dimension.addMultiple]

theorem measuredBy_temperatures {unit : String} (h : unit ∈ ["K", "C", "Z"]) :
    ((empty : Registry Rat).after temperatures).measuredBy unit =
      .ok ⟨"temperature", "K", [("K", .identity), ("C", ⟨1, 273⟩), ("Z", ⟨0, 1⟩)], none⟩ := by
  rw [after_temperatures]
  refine measuredBy_eq_ok_iff.2 ⟨0, ?_, rfl⟩
  simp only [List.mem_cons, List.not_mem_nil, or_false] at h
  rcases h with rfl | rfl | rfl <;> simp [Std.HashMap.getElem_insert]

theorem toBase_temperatures :
    ((empty : Registry Rat).after temperatures).toBase (.ofSymbol "K") = .ok ⟨1, 0⟩ ∧
    ((empty : Registry Rat).after temperatures).toBase (.ofSymbol "C") = .ok ⟨1, 273⟩ ∧
    ((empty : Registry Rat).after temperatures).toBase (.ofSymbol "Z") = .ok ⟨0, 1⟩ := by
  refine ⟨toBase_ofSymbol ?_, toBase_ofSymbol ?_, toBase_ofSymbol ?_⟩
  all_goals
    rw [unitStep, measuredBy_temperatures (by simp)]
    rfl

theorem dimensionsOfUnits_temperatures {unit : String} (h : unit ∈ ["K", "C", "Z"]) :
    ((empty : Registry Rat).after temperatures).dimensionsOfUnits (.ofSymbol unit) =
      .ok (.ofSymbol "temperature") := by
  have hmeasured := measuredBy_temperatures h
  generalize (empty : Registry Rat).after temperatures = registry at hmeasured
  show (((do dimensionTerm (← registry.measuredBy unit) .one) >>= Factor.one.mul) >>= pure) >>=
    pure = _
  rw [hmeasured]
  rfl

theorem conversion_coherent_temperatures : ∃ registry : Registry Rat, registry.Reachable ∧
    registry.conversion (.ofSymbol "C") (.ofSymbol "K") = .ok ⟨1, 273⟩ ∧
    registry.conversion (.ofSymbol "K") (.ofSymbol "C") = .ok ⟨1, -273⟩ ∧
    registry.conversion (.ofSymbol "C") (.ofSymbol "C") =
      .ok ((⟨1, 273⟩ : Conversion Rat).compose ⟨1, -273⟩) ∧
    (⟨1, 273⟩ : Conversion Rat).compose ⟨1, -273⟩ = ⟨1, 0⟩ ∧
    registry.convert 20 (.ofSymbol "C") (.ofSymbol "K") = .ok 293 ∧
    registry.convert 293 (.ofSymbol "K") (.ofSymbol "C") = .ok 20 ∧
    registry.conversion (.ofSymbol "K") (.ofSymbol "Z") = .error .zeroConversionFactor ∧
    ((∃ unit ∈ (Factor.ofSymbol "K").denominator.symbols, ∃ step,
        registry.unitStep unit = .ok step ∧ step.factor = 0) ∨
      ∃ unit ∈ (Factor.ofSymbol "Z").symbols, ∃ step,
        registry.unitStep unit = .ok step ∧ step.factor = 0) := by
  obtain ⟨hk, hc, hz⟩ := toBase_temperatures
  have hdimensions : ∀ unit ∈ ["K", "C", "Z"],
      ((empty : Registry Rat).after temperatures).dimensionsOfUnits (.ofSymbol unit) =
        .ok (.ofSymbol "temperature") := fun _ => dimensionsOfUnits_temperatures
  have hreachable : ((empty : Registry Rat).after temperatures).Reachable := ⟨temperatures, rfl⟩
  generalize (empty : Registry Rat).after temperatures = registry at *
  obtain ⟨htrans, hself, hback, hzero⟩ := conversion_coherent registry
  -- The offset is added on the way out and taken back on the way in.
  have hout : registry.conversion (.ofSymbol "C") (.ofSymbol "K") = .ok ⟨1, 273⟩ := by
    refine conversion_eq_ok_iff.2 ⟨_, _, ⟨1, 0⟩, hc, hk, ?_⟩
    norm_num [Conversion.mul_eq]
    rfl
  have hreturn : registry.conversion (.ofSymbol "K") (.ofSymbol "C") = .ok ⟨1, -273⟩ := by
    refine conversion_eq_ok_iff.2 ⟨_, _, ⟨1, -273⟩, hk, hc, ?_⟩
    norm_num [Conversion.mul_eq]
    rfl
  have hround := htrans _ _ _ _ _ hout hreturn
  have hconvert : registry.convert 20 (.ofSymbol "C") (.ofSymbol "K") = .ok 293 := by
    refine convert_eq_ok_iff.2 ⟨sameDimensions_eq_true_iff.2 ⟨.ofSymbol "temperature",
      hdimensions "C" (by simp), hdimensions "K" (by simp)⟩, _, hout, ?_⟩
    show (20 : Rat) * 1 + 273 = 293
    norm_num
  -- The step of the third unit multiplies by zero.
  have hfail : registry.conversion (.ofSymbol "K") (.ofSymbol "Z") =
      .error .zeroConversionFactor := by
    rw [conversion, hk, hz]
    rfl
  exact ⟨registry, hreachable, hout, hreturn, hround, hself _ _ hround, hconvert,
    hback _ _ _ _ _ hconvert hreturn, hfail, hzero _ _ hfail⟩

end UnitCheck.Registry
