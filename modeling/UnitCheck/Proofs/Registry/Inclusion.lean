import UnitCheck.Proofs.Registry.Coherence
import UnitCheck.Proofs.Registry.Records

/-!
  What was answered stays answered when more is registered.

  A registry that has all dimensions of another one, maybe with units more (`Registry.Includes`),
  finds what that one finds. All questions are put to the two searches for units and for names, so
  they are answered the same (`Registry.FindsAgain.answersAgain`). Only what was unknown may become
  known, and so a refusal for that reason may pass (`UnitError.IsUnknown`).
-/

namespace UnitCheck

/-- A unit or a dimension is not known. -/
def UnitError.IsUnknown : UnitError → Prop
  | .unknownUnit _ | .unknownDimension _ => True
  | _ => False

/-! ## Outcomes that persist -/

section

variable {β γ δ : Type} {Passing : UnitError → Prop}

/-- What is answered is answered again, and what is refused is refused again for the same reason,
    unless this reason may pass. -/
structure Persists (Passing : UnitError → Prop) (first second : Except UnitError β) : Prop where
  ok : ∀ value, first = .ok value → second = .ok value
  error : ∀ cause, first = .error cause → Passing cause ∨ second = .error cause

/-- What is found is found again in a related form, and the same refusals persist. -/
structure Follows (Passing : UnitError → Prop) (R : β → γ → Prop) (first : Except UnitError β)
    (second : Except UnitError γ) : Prop where
  ok : ∀ value, first = .ok value → ∃ found, second = .ok found ∧ R value found
  error : ∀ cause, first = .error cause → Passing cause ∨ second = .error cause

theorem Persists.refl (outcome : Except UnitError β) : Persists Passing outcome outcome :=
  ⟨fun _ h => h, fun _ h => .inr h⟩

theorem Persists.follows {first second : Except UnitError β} (h : Persists Passing first second) :
    Follows Passing Eq first second :=
  ⟨fun value hvalue => ⟨value, h.ok value hvalue, rfl⟩, h.error⟩

theorem Follows.bind {R : β → γ → Prop} {first : Except UnitError β} {second : Except UnitError γ}
    {f : β → Except UnitError δ} {g : γ → Except UnitError δ} (h : Follows Passing R first second)
    (hnext : ∀ value found, first = .ok value → R value found →
      Persists Passing (f value) (g found)) :
    Persists Passing (first >>= f) (second >>= g) := by
  cases hfirst : first with
  | ok value =>
    obtain ⟨found, rfl, hrelated⟩ := h.ok value hfirst
    exact hnext value found hfirst hrelated
  | error cause =>
    refine ⟨(fun value hvalue => nomatch hvalue), fun other hother => ?_⟩
    cases hother
    exact (h.error cause hfirst).imp_right fun hsecond => by rw [hsecond]; rfl

theorem Persists.bind {first second : Except UnitError β} {f g : β → Except UnitError γ}
    (h : Persists Passing first second) (hnext : ∀ value, Persists Passing (f value) (g value)) :
    Persists Passing (first >>= f) (second >>= g) :=
  h.follows.bind fun value _ _ hsame => hsame ▸ hnext value

theorem Persists.foldlM {step step' : β → γ → Except UnitError β}
    (hstep : ∀ result x, Persists Passing (step result x) (step' result x)) (entries : List γ)
    (start : β) : Persists Passing (entries.foldlM step start) (entries.foldlM step' start) := by
  induction entries generalizing start with
  | nil => exact .refl _
  | cons x entries ih =>
    rw [List.foldlM_cons, List.foldlM_cons]
    exact (hstep start x).bind ih

/-- Without a reason that may pass, the outcomes are equal. -/
theorem Persists.eq {first second : Except UnitError β}
    (h : Persists (fun _ => False) first second) : first = second := by
  cases hfirst : first with
  | ok value => exact (h.ok value hfirst).symm
  | error cause => exact ((h.error cause hfirst).resolve_left id).symm

end

variable {α : Type}

/-! ## Dimensions with units more -/

/-- The second dimension has all units of the first and is otherwise the same. -/
structure Dimension.Includes (later before : Dimension α) : Prop where
  name : later.name = before.name
  defaultUnit : later.defaultUnit = before.defaultUnit
  composition : later.composition = before.composition
  multiple : ∀ unit step, before.multiple? unit = some step → later.multiple? unit = some step

namespace Dimension

variable {before later : Dimension α}

theorem mem_units_iff {dimension : Dimension α} {unit : String} :
    unit ∈ dimension.units ↔ ∃ step, dimension.multiple? unit = some step := by
  refine ⟨exists_multiple_of_mem, fun ⟨step, hstep⟩ => ?_⟩
  obtain ⟨earlier, rest, hsplit, -⟩ := List.lookup_eq_some_iff.1 hstep
  rw [units, hsplit, List.map_append]
  exact List.mem_append_right _ List.mem_cons_self

theorem Includes.units (h : later.Includes before) {unit : String} (hunit : unit ∈ before.units) :
    unit ∈ later.units := by
  obtain ⟨step, hstep⟩ := mem_units_iff.1 hunit
  exact mem_units_iff.2 ⟨step, h.multiple unit step hstep⟩

theorem Includes.trans {dimension : Dimension α} (h : later.Includes before)
    (hdimension : before.Includes dimension) : later.Includes dimension where
  name := h.name.trans hdimension.name
  defaultUnit := h.defaultUnit.trans hdimension.defaultUnit
  composition := h.composition.trans hdimension.composition
  multiple unit step hstep := h.multiple unit step (hdimension.multiple unit step hstep)

/-- Units are added behind those that a search finds first. -/
theorem GrowsTo.includes (h : before.GrowsTo later) : later.Includes before where
  name := h.name
  defaultUnit := h.defaultUnit
  composition := h.composition
  multiple unit step hstep := by
    obtain ⟨added, hadded⟩ := h.multiples
    rw [multiple?, ← hadded, List.lookup_append]
    exact Option.or_eq_some_iff.2 (.inl hstep)

end Dimension

namespace Registry

variable {registry next : Registry α} {Passing : UnitError → Prop}

/-- Every dimension of the other registry is in this one, maybe with units more. -/
def Includes (next registry : Registry α) : Prop :=
  ∀ dimension ∈ registry.dimensions, ∃ later ∈ next.dimensions, later.Includes dimension

theorem Includes.refl (registry : Registry α) : registry.Includes registry :=
  fun dimension hmem => ⟨dimension, hmem, rfl, rfl, rfl, fun _ _ h => h⟩

theorem Includes.trans {final : Registry α} (h : next.Includes registry)
    (hfinal : final.Includes next) : final.Includes registry := by
  intro dimension hmem
  obtain ⟨later, hlater, hincludes⟩ := h dimension hmem
  obtain ⟨last, hlast, hincludes'⟩ := hfinal later hlater
  exact ⟨last, hlast, hincludes'.trans hincludes⟩

theorem Extends.includes (h : next.Extends registry) : next.Includes registry := by
  intro dimension hmem
  obtain ⟨id, hid⟩ := Array.mem_iff_getElem?.1 hmem
  obtain ⟨later, hlater, hgrows⟩ := h.dimension id dimension hid
  exact ⟨later, Array.mem_iff_getElem?.2 ⟨id, hlater⟩, hgrows.includes⟩

/-! ## Questions -/

/-- What the searches of one registry find, those of the other find, too. -/
structure FindsAgain (Passing : UnitError → Prop) (next registry : Registry α) : Prop where
  measuredBy : ∀ unit, Follows Passing (fun before later => later.Includes before)
    (registry.measuredBy unit) (next.measuredBy unit)
  named : ∀ name, Follows Passing (fun before later => later.Includes before)
    (registry.named name) (next.named name)

/-- What one registry answers to any question, the other answers, too. -/
structure AnswersAgain [Scalar α] (Passing : UnitError → Prop) (next registry : Registry α) :
    Prop where
  dimensionsOfUnits : ∀ units,
    Persists Passing (registry.dimensionsOfUnits units) (next.dimensionsOfUnits units)
  dimensionsOfDimensions : ∀ dimensions, Persists Passing
    (registry.dimensionsOfDimensions dimensions) (next.dimensionsOfDimensions dimensions)
  baseUnits : ∀ units, Persists Passing (registry.baseUnits units) (next.baseUnits units)
  sameDimensions : ∀ first second,
    Persists Passing (registry.sameDimensions first second) (next.sameDimensions first second)
  equalDimensions : ∀ first second,
    Persists Passing (registry.equalDimensions first second) (next.equalDimensions first second)
  conversion : ∀ source target,
    Persists Passing (registry.conversion source target) (next.conversion source target)
  convert : ∀ value source target,
    Persists Passing (registry.convert value source target) (next.convert value source target)

theorem persists_substitute {term term' : String → Exponent → Except UnitError Factor}
    (hterm : ∀ symbol power, Persists Passing (term symbol power) (term' symbol power))
    (factor : Factor) : Persists Passing (substitute term factor) (substitute term' factor) := by
  refine Persists.bind (.foldlM (fun result e => ?_) _ _)
    fun result => .foldlM (fun result e => ?_) _ _
  · exact (hterm e.1 e.2).bind fun _ => .refl _
  · exact (hterm e.1 e.2).bind fun _ => .refl _

/-- A term is the same for a dimension with units more. -/
theorem dimensionTerm_of_includes {before later : Dimension α} (h : later.Includes before)
    (power : Exponent) : dimensionTerm later power = dimensionTerm before power := by
  rw [dimensionTerm, dimensionTerm, h.composition, h.name]

theorem unitTerm_of_includes {before later : Dimension α} (h : later.Includes before)
    (power : Exponent) : unitTerm later power = unitTerm before power := by
  rw [unitTerm, unitTerm, h.composition, h.defaultUnit]

namespace FindsAgain

theorem dimensionsOfUnits (h : next.FindsAgain Passing registry) (units : Factor) :
    Persists Passing (registry.dimensionsOfUnits units) (next.dimensionsOfUnits units) := by
  refine persists_substitute (fun unit power => ?_) units
  refine (h.measuredBy unit).bind fun before later _ hincludes => ?_
  rw [dimensionTerm_of_includes hincludes]
  exact .refl _

theorem dimensionsOfDimensions (h : next.FindsAgain Passing registry) (dimensions : Factor) :
    Persists Passing (registry.dimensionsOfDimensions dimensions)
      (next.dimensionsOfDimensions dimensions) := by
  refine persists_substitute (fun name power => ?_) dimensions
  refine (h.named name).bind fun before later _ hincludes => ?_
  rw [dimensionTerm_of_includes hincludes]
  exact .refl _

theorem baseUnits (h : next.FindsAgain Passing registry) (units : Factor) :
    Persists Passing (registry.baseUnits units) (next.baseUnits units) := by
  refine persists_substitute (fun unit power => ?_) units
  refine (h.measuredBy unit).bind fun before later _ hincludes => ?_
  rw [unitTerm_of_includes hincludes]
  exact .refl _

theorem sameDimensions (h : next.FindsAgain Passing registry) (first second : Factor) :
    Persists Passing (registry.sameDimensions first second) (next.sameDimensions first second) :=
  (h.dimensionsOfUnits first).bind fun _ => (h.dimensionsOfUnits second).bind fun _ => .refl _

variable [Scalar α]

theorem unitStep (h : next.FindsAgain Passing registry) (hwell : registry.WellFormed)
    (unit : String) : Persists Passing (registry.unitStep unit) (next.unitStep unit) := by
  refine (h.measuredBy unit).bind fun before later hbefore hincludes => ?_
  obtain ⟨step, hstep⟩ := Dimension.exists_multiple_of_mem (hwell.mem_units_of_measuredBy hbefore)
  rw [hstep, hincludes.multiple unit step hstep, hincludes.composition]
  exact .refl _

theorem toBase (h : next.FindsAgain Passing registry) (hwell : registry.WellFormed)
    (units : Factor) : Persists Passing (registry.toBase units) (next.toBase units) := by
  refine Persists.bind (.foldlM (fun result e => ?_) _ _)
    fun result => .foldlM (fun result e => ?_) _ _
  · exact (h.unitStep hwell e.1).bind fun _ => .refl _
  · exact (h.unitStep hwell e.1).bind fun _ => .refl _

theorem conversion (h : next.FindsAgain Passing registry) (hwell : registry.WellFormed)
    (source target : Factor) :
    Persists Passing (registry.conversion source target) (next.conversion source target) :=
  (h.toBase hwell source).bind fun _ => (h.toBase hwell target).bind fun _ => .refl _

theorem convert (h : next.FindsAgain Passing registry) (hwell : registry.WellFormed) (value : α)
    (source target : Factor) :
    Persists Passing (registry.convert value source target) (next.convert value source target) := by
  refine (h.sameDimensions source target).bind fun same => ?_
  cases same with
  | false => exact .refl _
  | true => exact (h.conversion hwell source target).bind fun _ => .refl _

/-- All questions are put to the two searches. -/
theorem answersAgain (h : next.FindsAgain Passing registry) (hwell : registry.WellFormed) :
    next.AnswersAgain Passing registry where
  dimensionsOfUnits := h.dimensionsOfUnits
  dimensionsOfDimensions := h.dimensionsOfDimensions
  baseUnits := h.baseUnits
  sameDimensions := h.sameDimensions
  equalDimensions first second := (h.dimensionsOfDimensions first).bind fun _ =>
    (h.dimensionsOfDimensions second).bind fun _ => .refl _
  conversion := h.conversion hwell
  convert := h.convert hwell

end FindsAgain

/-! ## Searches in a registry that says more -/

theorem eq_of_measuredBy_eq_error {unit : String} {cause : UnitError}
    (h : registry.measuredBy unit = .error cause) : cause = .unknownUnit unit := by
  rw [measuredBy, entry] at h
  split at h
  · cases h
  · cases h
    rfl

theorem eq_of_named_eq_error {name : String} {cause : UnitError}
    (h : registry.named name = .error cause) : cause = .unknownDimension name := by
  rw [named] at h
  split at h
  · cases h
  · rw [fundamental, entry] at h
    split at h
    · cases h
    · cases h
      rfl

variable [Scalar α]

namespace WellFormed

theorem measuredBy_eq_ok_iff_mem (h : registry.WellFormed) {unit : String}
    {dimension : Dimension α} :
    registry.measuredBy unit = .ok dimension ↔
      dimension ∈ registry.dimensions ∧ unit ∈ dimension.units := by
  rw [h.measuredBy_eq_ok_iff_withUnit?, h.withUnit?_eq_some_iff, Array.mem_iff_getElem?]
  rfl

theorem named_eq_ok_iff_mem (h : registry.WellFormed) {name : String} {dimension : Dimension α} :
    registry.named name = .ok dimension ↔
      dimension ∈ registry.dimensions ∧ dimension.name = name := by
  rw [h.named_eq_ok_iff, h.withName?_eq_some_iff, Array.mem_iff_getElem?]
  rfl

end WellFormed

namespace Includes

variable (h : next.Includes registry) (hwell : registry.WellFormed) (hwell' : next.WellFormed)
include h hwell hwell'

theorem exists_measuredBy {unit : String} {dimension : Dimension α}
    (hdimension : registry.measuredBy unit = .ok dimension) :
    ∃ later, next.measuredBy unit = .ok later ∧ later.Includes dimension := by
  obtain ⟨hmem, hunit⟩ := hwell.measuredBy_eq_ok_iff_mem.1 hdimension
  obtain ⟨later, hlater, hincludes⟩ := h dimension hmem
  exact ⟨later, hwell'.measuredBy_eq_ok_iff_mem.2 ⟨hlater, hincludes.units hunit⟩, hincludes⟩

theorem exists_named {name : String} {dimension : Dimension α}
    (hdimension : registry.named name = .ok dimension) :
    ∃ later, next.named name = .ok later ∧ later.Includes dimension := by
  obtain ⟨hmem, hname⟩ := hwell.named_eq_ok_iff_mem.1 hdimension
  obtain ⟨later, hlater, hincludes⟩ := h dimension hmem
  exact ⟨later, hwell'.named_eq_ok_iff_mem.2 ⟨hlater, hincludes.name.trans hname⟩, hincludes⟩

theorem findsAgain : next.FindsAgain UnitError.IsUnknown registry where
  measuredBy unit := by
    refine ⟨fun _ => h.exists_measuredBy hwell hwell', fun cause hcause => .inl ?_⟩
    rw [eq_of_measuredBy_eq_error hcause]
    trivial
  named name := by
    refine ⟨fun _ => h.exists_named hwell hwell', fun cause hcause => .inl ?_⟩
    rw [eq_of_named_eq_error hcause]
    trivial

end Includes

/-! ## Further registrations -/

/-- A call leaves all dimensions in place. -/
theorem includes_of_call (registry : Registry α) (registration : Registration α) :
    (registry.call registration).2.Includes registry := by
  rw [call_eq]
  cases hregister : registry.register registration with
  | ok result => exact (extends_of_register hregister).includes
  | error cause => exact .refl registry

/-- So do any calls, whether or not they succeed. -/
theorem includes_of_after (registry : Registry α) (calls : List (Registration α)) :
    (registry.after calls).Includes registry := by
  induction calls generalizing registry with
  | nil => exact .refl registry
  | cons registration calls ih =>
    exact (registry.includes_of_call registration).trans (ih (registry.call registration).2)

/-- Whatever is registered later, and whether or not it is refused, what a registry answers it
    answers again, and what it refuses it refuses again, unless a unit or a dimension was not
    known. -/
theorem answers_persist (h : registry.Reachable) (calls : List (Registration α)) :
    (registry.after calls).AnswersAgain UnitError.IsUnknown registry :=
  ((registry.includes_of_after calls).findsAgain h.wellFormed
    (h.wellFormed.after calls)).answersAgain h.wellFormed

/-- One more unit is registered, and another dimension for a unit that is taken is refused. -/
theorem answers_persist_temperatures :
    ((empty : Registry Rat).after temperatures).Reachable ∧
    ∃ later : Registry Rat,
      later = ((empty : Registry Rat).after temperatures).after
        [.multiple "R" "K" ⟨5 / 9, 0⟩, .fundamental "heat" "C"] ∧
      later.dimensionsOfUnits (.ofSymbol "C") = .ok (.ofSymbol "temperature") ∧
      later.conversion (.ofSymbol "K") (.ofSymbol "Z") = .error .zeroConversionFactor := by
  have hreachable : ((empty : Registry Rat).after temperatures).Reachable := ⟨temperatures, rfl⟩
  have hpersist := answers_persist hreachable
    [.multiple "R" "K" ⟨5 / 9, 0⟩, .fundamental "heat" "C"]
  have hfail : ((empty : Registry Rat).after temperatures).conversion (.ofSymbol "K")
      (.ofSymbol "Z") = .error .zeroConversionFactor := by
    rw [conversion, toBase_temperatures.1, toBase_temperatures.2.2]
    rfl
  refine ⟨hreachable, _, rfl, ?_, ?_⟩
  · exact (hpersist.dimensionsOfUnits _).ok _ (dimensionsOfUnits_temperatures (by simp))
  -- A factor of zero is no reason that may pass.
  · exact ((hpersist.conversion _ _).error _ hfail).resolve_left not_false

end Registry

end UnitCheck
