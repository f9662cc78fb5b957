import UnitCheck.Proofs.Registry.Canonical
import UnitCheck.Proofs.Registry.Coherence

/-!
  Factors of units that measure the same.

  Two factors are compared by their dimensions on either side of the bar. Nothing cancels there, so
  the balance of both sides (`Factor.net`) is the same for factors that measure the same, but others
  may have the same balance, too, if a dimension stands on both sides. A value is converted where
  the factors measure the same (`exists_convert_iff`), unless a way that has to be followed
  backwards has no inverse (`WellFormed.exists_conversion_iff`).
-/

namespace UnitCheck

namespace Factor

/-- The power of a symbol above the bar, less that below it. -/
def net (a : Factor) (symbol : String) : Int :=
  (a.exponent .above symbol : Int) - a.exponent .below symbol

/-- No symbol stands on both sides of the bar. -/
def IsReduced (a : Factor) : Prop :=
  ∀ symbol, a.exponent .above symbol = 0 ∨ a.exponent .below symbol = 0

/-- In a reduced factor the balance tells the powers. -/
theorem IsReduced.exponent_eq {a b : Factor} (ha : a.IsReduced) (hb : b.IsReduced) {symbol : String}
    (hnet : a.net symbol = b.net symbol) (side : Side) :
    a.exponent side symbol = b.exponent side symbol := by
  rw [net, net] at hnet
  have hsides := ha symbol
  have hsides' := hb symbol
  cases side with
  | above => omega
  | below => omega

end Factor

namespace Registry

variable {α : Type} {registry : Registry α} {a b first second : Factor}

/-! ## Comparing dimensions -/

theorem sameDimensions_eq (hfirst : registry.dimensionsOfUnits a = .ok first)
    (hsecond : registry.dimensionsOfUnits b = .ok second) :
    registry.sameDimensions a b = .ok (decide (first = second)) := by
  rw [sameDimensions, hfirst, hsecond]
  rfl

theorem sameDimensions_eq_ok_true_iff (hfirst : registry.dimensionsOfUnits a = .ok first)
    (hsecond : registry.dimensionsOfUnits b = .ok second) :
    registry.sameDimensions a b = .ok true ↔ first = second := by
  rw [sameDimensions_eq hfirst hsecond, Except.ok.injEq, decide_eq_true_iff]

section

variable [Scalar α]

/-- The dimensions of two factors of units are the same if their powers of fundamental dimensions
    are. -/
theorem WellFormed.dimensions_eq_iff (h : registry.WellFormed)
    (hfirst : registry.dimensionsOfUnits a = .ok first)
    (hsecond : registry.dimensionsOfUnits b = .ok second) :
    first = second ↔ ∀ name ∈ registry.fundamentalNames, ∀ side,
      first.exponent side name = second.exponent side name := by
  constructor
  · rintro rfl name - side
    rfl
  · intro hpowers
    exact Factor.eq_of_exponent_of_mem
      (fun _ => h.mem_fundamentalNames_of_dimensionsOfUnits hfirst)
      (fun _ => h.mem_fundamentalNames_of_dimensionsOfUnits hsecond) hpowers

/-! ## Failing conversions -/

theorem eq_zeroConversionFactor_of_invert {map : Conversion α} {cause : UnitError}
    (h : invert map = .error cause) : cause = .zeroConversionFactor := by
  rw [invert] at h
  split at h
  · cases h
  · cases h
    rfl

theorem exists_invert_iff {map : Conversion α} :
    (∃ inverse, invert map = .ok inverse) ↔ Scalar.isZero map.factor = false := by
  rw [invert, Conversion.inverse?]
  cases Scalar.isZero map.factor <;> simp

/-- The step of the unit to base units can be followed backwards. -/
def Invertible (registry : Registry α) (unit : String) : Prop :=
  ∃ step, registry.unitStep unit = .ok step ∧ Scalar.isZero step.factor = false

/-- The way to base units of known units fails only where a step of the denominator cannot be
    followed backwards. -/
theorem WellFormed.of_toBase_eq_error (h : registry.WellFormed) {units : Factor}
    (hunits : ∀ unit ∈ units.symbols, registry.hasUnit unit = true) {cause : UnitError}
    (herror : registry.toBase units = .error cause) : cause = .zeroConversionFactor ∧
      ∃ unit ∈ units.denominator.symbols, ¬registry.Invertible unit := by
  -- Known units have their steps, so only turning one of them around can fail.
  have hstep : ∀ unit ∈ units.symbols, registry.unitStep unit ≠ .error cause := by
    intro unit hunit hfail
    obtain ⟨step, hok⟩ := h.exists_unitStep (hunits unit hunit)
    cases hok.symm.trans hfail
  rw [toBase] at herror
  rcases bind_eq_error_iff.1 herror with herror | ⟨above, -, herror⟩
  · obtain ⟨e, he, result, herror⟩ := exists_of_foldlM_eq_error herror
    rcases bind_eq_error_iff.1 herror with hfail | ⟨step, -, herror⟩
    · exact absurd hfail (hstep e.1 (List.mem_append_left _ (List.mem_map_of_mem he)))
    · cases herror
  · obtain ⟨e, he, result, herror⟩ := exists_of_foldlM_eq_error herror
    rcases bind_eq_error_iff.1 herror with hfail | ⟨step, hunit, herror⟩
    · exact absurd hfail (hstep e.1 (List.mem_append_right _ (List.mem_map_of_mem he)))
    · rcases bind_eq_error_iff.1 herror with hfail | ⟨inverse, -, herror⟩
      · refine ⟨eq_zeroConversionFactor_of_invert hfail, e.1, List.mem_map_of_mem he, ?_⟩
        rintro ⟨step', hunit', hzero⟩
        obtain rfl := Except.ok.inj (hunit.symm.trans hunit')
        obtain ⟨inverse, hinverse⟩ := exists_invert_iff.2 hzero
        cases hinverse.symm.trans hfail
      · cases herror

/-- The way to base units of known units is there just if every step of the denominator can be
    followed backwards. -/
theorem WellFormed.exists_toBase_iff (h : registry.WellFormed) {units : Factor}
    (hunits : ∀ unit ∈ units.symbols, registry.hasUnit unit = true) :
    (∃ map, registry.toBase units = .ok map) ↔
      ∀ unit ∈ units.denominator.symbols, registry.Invertible unit := by
  constructor
  · rintro ⟨map, hmap⟩ unit hunit
    obtain ⟨e, he, rfl⟩ := List.mem_map.1 hunit
    obtain ⟨above, -, hbelow⟩ := bind_eq_ok_iff.1 hmap
    obtain ⟨before, after, hstep⟩ := exists_of_foldlM_eq_ok hbelow he
    obtain ⟨step, hstep, hback⟩ := bind_eq_ok_iff.1 hstep
    obtain ⟨inverse, hinverse, -⟩ := bind_eq_ok_iff.1 hback
    exact ⟨step, hstep, exists_invert_iff.1 ⟨inverse, hinverse⟩⟩
  · intro hinvertible
    cases hmap : registry.toBase units with
    | ok map => exact ⟨map, rfl⟩
    | error cause =>
      obtain ⟨-, unit, hunit, hnot⟩ := h.of_toBase_eq_error hunits hmap
      exact absurd (hinvertible unit hunit) hnot

/-- A conversion between known units is there just if every step that is followed backwards can be:
    those of the source's denominator, and the whole way of the target. -/
theorem WellFormed.exists_conversion_iff (h : registry.WellFormed)
    (ha : ∀ unit ∈ a.symbols, registry.hasUnit unit = true) :
    (∃ map, registry.conversion a b = .ok map) ↔
      (∀ unit ∈ a.denominator.symbols, registry.Invertible unit) ∧
        ∃ back, registry.toBase b = .ok back ∧ Scalar.isZero back.factor = false := by
  rw [← h.exists_toBase_iff ha]
  constructor
  · rintro ⟨map, hmap⟩
    obtain ⟨out, hout, hmap⟩ := bind_eq_ok_iff.1 hmap
    obtain ⟨back, hback, hmap⟩ := bind_eq_ok_iff.1 hmap
    obtain ⟨inverse, hinverse, -⟩ := bind_eq_ok_iff.1 hmap
    exact ⟨⟨out, hout⟩, back, hback, exists_invert_iff.1 ⟨inverse, hinverse⟩⟩
  · rintro ⟨⟨out, hout⟩, back, hback, hzero⟩
    obtain ⟨inverse, hinverse⟩ := exists_invert_iff.2 hzero
    exact ⟨out.compose inverse, bind_eq_ok_iff.2 ⟨out, hout,
      bind_eq_ok_iff.2 ⟨back, hback, bind_eq_ok_iff.2 ⟨inverse, hinverse, rfl⟩⟩⟩⟩

/-- A conversion between known units fails only for the lack of an inverse. -/
theorem WellFormed.eq_zeroConversionFactor_of_conversion (h : registry.WellFormed)
    (ha : ∀ unit ∈ a.symbols, registry.hasUnit unit = true)
    (hb : ∀ unit ∈ b.symbols, registry.hasUnit unit = true) {cause : UnitError}
    (herror : registry.conversion a b = .error cause) : cause = .zeroConversionFactor := by
  rcases bind_eq_error_iff.1 herror with hfail | ⟨out, -, herror⟩
  · exact (h.of_toBase_eq_error ha hfail).1
  · rcases bind_eq_error_iff.1 herror with hfail | ⟨back, -, herror⟩
    · exact (h.of_toBase_eq_error hb hfail).1
    · rcases bind_eq_error_iff.1 herror with hfail | ⟨inverse, -, herror⟩
      · exact eq_zeroConversionFactor_of_invert hfail
      · cases herror

/-! ## Converting values -/

theorem convert_of_sameDimensions (h : registry.sameDimensions a b = .ok true) (value : α) :
    registry.convert value a b = (do return (← registry.conversion a b).apply value) := by
  rw [convert, h]
  rfl

theorem convert_of_not_sameDimensions (h : registry.sameDimensions a b = .ok false) (value : α) :
    registry.convert value a b = .error (.incompatibleUnits a b) := by
  rw [convert, h]
  rfl

theorem exists_convert_iff {value : α} : (∃ result, registry.convert value a b = .ok result) ↔
    registry.sameDimensions a b = .ok true ∧ ∃ map, registry.conversion a b = .ok map := by
  constructor
  · rintro ⟨result, hresult⟩
    obtain ⟨hsame, map, hmap, -⟩ := convert_eq_ok_iff.1 hresult
    exact ⟨hsame, map, hmap⟩
  · rintro ⟨hsame, map, hmap⟩
    exact ⟨map.apply value, convert_eq_ok_iff.2 ⟨hsame, map, hmap, rfl⟩⟩

/-- Between factors that measure the same, only the lack of an inverse makes a conversion fail. -/
theorem WellFormed.eq_zeroConversionFactor_of_convert (h : registry.WellFormed)
    (hsame : registry.sameDimensions a b = .ok true) {value : α} {cause : UnitError}
    (herror : registry.convert value a b = .error cause) : cause = .zeroConversionFactor := by
  obtain ⟨dimensions, ha, hb⟩ := sameDimensions_eq_true_iff.1 hsame
  rw [convert_of_sameDimensions hsame] at herror
  rcases bind_eq_error_iff.1 herror with herror | ⟨map, -, herror⟩
  · exact h.eq_zeroConversionFactor_of_conversion
      (h.expands_dimensionsOfUnits.known a dimensions ha)
      (h.expands_dimensionsOfUnits.known b dimensions hb) herror
  · cases herror

end

/-- Factors of units measure the same just if their dimensions have the same powers on either side
    of the bar. So the balance of both sides is the same, too, and where no dimension stands on both
    sides, an equal balance is enough. Values are converted between such factors and no others,
    unless a way that has to be followed backwards has no inverse. -/
theorem sameDimensions_iff_exponents [Scalar α] (h : registry.Reachable)
    (hfirst : registry.dimensionsOfUnits a = .ok first)
    (hsecond : registry.dimensionsOfUnits b = .ok second) :
    (registry.sameDimensions a b = .ok true ↔ ∀ name ∈ registry.fundamentalNames, ∀ side,
      first.exponent side name = second.exponent side name) ∧
    (registry.sameDimensions a b = .ok true →
      ∀ name ∈ registry.fundamentalNames, first.net name = second.net name) ∧
    (first.IsReduced → second.IsReduced → (registry.sameDimensions a b = .ok true ↔
      ∀ name ∈ registry.fundamentalNames, first.net name = second.net name)) ∧
    ∀ value : α,
      ((∃ result, registry.convert value a b = .ok result) ↔
        registry.sameDimensions a b = .ok true ∧
          (∀ unit ∈ a.denominator.symbols, registry.Invertible unit) ∧
          ∃ back, registry.toBase b = .ok back ∧ Scalar.isZero back.factor = false) ∧
      ∀ cause, registry.convert value a b = .error cause → cause =
        if registry.sameDimensions a b = .ok true then .zeroConversionFactor
        else .incompatibleUnits a b := by
  have hwell := h.wellFormed
  have hpowers := hwell.dimensions_eq_iff hfirst hsecond
  have hsame := sameDimensions_eq_ok_true_iff hfirst hsecond
  have hknown := hwell.expands_dimensionsOfUnits.known a first hfirst
  refine ⟨hsame.trans hpowers, fun htrue name _ => ?_, fun hreduced hreduced' =>
    ⟨fun htrue name _ => ?_, fun hnet => ?_⟩, fun value => ⟨?_, fun cause herror => ?_⟩⟩
  · rw [hsame.1 htrue]
  · rw [hsame.1 htrue]
  · exact hsame.2 (hpowers.2 fun name hname => hreduced.exponent_eq hreduced' (hnet name hname))
  · rw [exists_convert_iff, hwell.exists_conversion_iff hknown]
  · split
    · next htrue => exact hwell.eq_zeroConversionFactor_of_convert htrue herror
    · next hother =>
      have hfalse : registry.sameDimensions a b = .ok false := by
        rw [sameDimensions_eq hfirst hsecond, decide_eq_false fun heq => hother (hsame.2 heq)]
      exact Except.error.inj (herror.symm.trans (convert_of_not_sameDimensions hfalse value))

theorem unitStep_motions :
    ((empty : Registry Rat).after motions).unitStep "mark" = .ok ⟨1000, 5⟩ ∧
    ((empty : Registry Rat).after motions).unitStep "s" = .ok ⟨1, 0⟩ ∧
    ((empty : Registry Rat).after motions).unitStep "m" = .ok ⟨1, 0⟩ := by
  obtain ⟨hlength, htime, -⟩ := measuredBy_motions
  refine ⟨?_, ?_, ?_⟩
  · rw [unitStep, hlength "mark" (by simp)]
    rfl
  · rw [unitStep, htime]
    rfl
  · rw [unitStep, hlength "m" (by simp)]
    rfl

/-- Velocities per time measure the same as lengths per time per time. -/
theorem sameDimensions_iff_exponents_motions :
    ((empty : Registry Rat).after motions).sameDimensions ⟨.single "mps" .one, .single "s" .one⟩
      ⟨.single "mark" .one, .single "s" ⟨2, by decide, by decide⟩⟩ = .ok true ∧
    ∃ result, ((empty : Registry Rat).after motions).convert 3
      ⟨.single "mps" .one, .single "s" .one⟩
      ⟨.single "mark" .one, .single "s" ⟨2, by decide, by decide⟩⟩ = .ok result := by
  obtain ⟨hlength, htime, hvelocity⟩ := measuredBy_motions
  have hfirst : ((empty : Registry Rat).after motions).dimensionsOfUnits
      ⟨.single "mps" .one, .single "s" .one⟩ =
        .ok ⟨.single "length" .one, .single "time" ⟨2, by decide, by decide⟩⟩ :=
    (dimensionsOfUnits_quotient hvelocity htime _ _).trans (by decide +kernel)
  have hsecond : ((empty : Registry Rat).after motions).dimensionsOfUnits
      ⟨.single "mark" .one, .single "s" ⟨2, by decide, by decide⟩⟩ =
        .ok ⟨.single "length" .one, .single "time" ⟨2, by decide, by decide⟩⟩ :=
    (dimensionsOfUnits_quotient (hlength "mark" (by simp)) htime _ _).trans (by decide +kernel)
  obtain ⟨hsame, -, -, hconvert⟩ := sameDimensions_iff_exponents reachable_motions hfirst hsecond
  have htrue := hsame.2 fun _ _ _ => rfl
  obtain ⟨hmark, hs, -⟩ := unitStep_motions
  have hinvertible : ((empty : Registry Rat).after motions).Invertible "s" := ⟨_, hs, by decide⟩
  have hknown := reachable_motions.wellFormed.expands_dimensionsOfUnits.known _ _ hsecond
  have hbelow : ∀ unit ∈ ["s"], ((empty : Registry Rat).after motions).Invertible unit :=
    fun unit hunit => List.mem_singleton.1 hunit ▸ hinvertible
  obtain ⟨back, hback⟩ := (reachable_motions.wellFormed.exists_toBase_iff hknown).2 hbelow
  refine ⟨htrue, (hconvert 3).1.2 ⟨htrue, hbelow, back, hback, Bool.eq_false_iff.2 fun hzero => ?_⟩⟩
  -- The way back from marks is there, since their step does not map all values to one.
  obtain ⟨unit, hunit, step, hstep, hfactor⟩ :=
    collapses_of_toBase_eq_ok hback (Conversion.isZero_iff.1 hzero)
  obtain rfl := List.mem_singleton.1 hunit
  cases hmark.symm.trans hstep
  norm_num at hfactor

/-- A velocity per length and one per time have the same balance, and yet they do not measure the
    same. -/
theorem not_sameDimensions_of_net : ∃ first second : Factor,
    ((empty : Registry Rat).after motions).Reachable ∧
    ((empty : Registry Rat).after motions).dimensionsOfUnits
      ⟨.single "mps" .one, .single "m" .one⟩ = .ok first ∧
    ((empty : Registry Rat).after motions).dimensionsOfUnits ⟨.empty, .single "s" .one⟩ =
      .ok second ∧
    (∀ name, first.net name = second.net name) ∧
    ((empty : Registry Rat).after motions).sameDimensions ⟨.single "mps" .one, .single "m" .one⟩
      ⟨.empty, .single "s" .one⟩ = .ok false ∧
    ∀ value, ((empty : Registry Rat).after motions).convert value
      ⟨.single "mps" .one, .single "m" .one⟩ ⟨.empty, .single "s" .one⟩ =
        .error (.incompatibleUnits ⟨.single "mps" .one, .single "m" .one⟩
          ⟨.empty, .single "s" .one⟩) := by
  obtain ⟨hlength, htime, hvelocity⟩ := measuredBy_motions
  have hfirst : ((empty : Registry Rat).after motions).dimensionsOfUnits
      ⟨.single "mps" .one, .single "m" .one⟩ =
        .ok ⟨.single "length" .one, (Terms.single "length" .one).set "time" .one⟩ :=
    (dimensionsOfUnits_quotient hvelocity (hlength "m" (by simp)) _ _).trans (by decide +kernel)
  have hsecond : ((empty : Registry Rat).after motions).dimensionsOfUnits
      ⟨.empty, .single "s" .one⟩ = .ok ⟨.empty, .single "time" .one⟩ := by
    generalize (empty : Registry Rat).after motions = registry at htime
    show ((do dimensionTerm (← registry.measuredBy "s") .one) >>= Factor.one.div) >>= pure = _
    rw [htime]
    rfl
  -- Symbols that cancel stay in the dimensions, so these differ as factors.
  have hfalse := (sameDimensions_eq hfirst hsecond).trans
    (congrArg Except.ok (by decide +kernel : decide (_ = _) = false))
  refine ⟨_, _, reachable_motions, hfirst, hsecond, fun name => ?_, hfalse,
    convert_of_not_sameDimensions hfalse⟩
  simp only [Factor.net, Factor.exponent, Factor.side, Terms.single, Terms.exponent_set,
    Terms.exponent_empty]
  by_cases hlength : name = "length"
  · subst hlength
    decide +kernel
  · simp [hlength]

end Registry

end UnitCheck
