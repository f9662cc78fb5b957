import Mathlib.Algebra.BigOperators.Field
import Mathlib.Algebra.BigOperators.Ring.Finset
import UnitCheck.Proofs.Registry.EntryOrder
import UnitCheck.Proofs.Registry.Equivalence
import UnitCheck.Proofs.Registry.Spelling

/-!
  Registries whose conversions are all multiplications.

  Multiplications compose like numbers (`Conversion.scaleHom`), and so the way of a factor to base
  units is the multiplication by one number, its magnitude: the scales of its units, raised to their
  powers and taken together (`Registry.toBase_eq_magnitude`). As a product over symbols
  (`Factor.magnitude_eq_prod_net`), the magnitude goes along with products and inverses of factors
  and depends on the balance of each unit alone.
-/

namespace UnitCheck

/-! ## Multiplications -/

namespace Conversion

/-- The multiplication by a number, as a map that respects products. -/
def scaleHom : Rat →* Conversion Rat where
  toFun := scale
  map_one' := rfl
  map_mul' a b := by
    ext
    · rfl
    · show (0 : Rat) = 0 * b + 0
      rw [zero_mul, add_zero]

/-- A multiplication that can be undone. -/
structure IsScale (map : Conversion Rat) : Prop where
  offset : map.offset = 0
  factor : map.factor ≠ 0

theorem isScale_identity : (identity : Conversion Rat).IsScale := ⟨rfl, one_ne_zero⟩

theorem IsScale.eq_scaleHom {map : Conversion Rat} (h : map.IsScale) :
    map = scaleHom map.factor := by
  ext
  · rfl
  · exact h.offset

theorem inverse?_scaleHom {k : Rat} (h : k ≠ 0) : (scaleHom k).inverse? = some (scaleHom k⁻¹) := by
  rw [inverse?_eq_some_iff, ← map_mul, ← map_mul, mul_inv_cancel₀ h, inv_mul_cancel₀ h, map_one]
  exact ⟨rfl, rfl⟩

end Conversion

/-! ## Magnitudes -/

/-- The product over sorted entries is one over any symbols that include those of the entries. -/
theorem SortedEntries.prod_pow {entries : List (String × Exponent)} (h : SortedEntries entries)
    (scales : String → Rat) {symbols : Finset String} (hsymbols : ∀ e ∈ entries, e.1 ∈ symbols) :
    (entries.map fun e => scales e.1 ^ e.2.val).prod =
      ∏ s ∈ symbols, scales s ^ ((entries.lookup s).map Exponent.val).getD 0 := by
  induction entries with
  | nil => simp
  | cons e rest ih =>
    obtain ⟨symbol, power⟩ := e
    obtain ⟨hhead, hrest⟩ := List.forall_mem_cons.1 hsymbols
    -- Behind the head its symbol is not found again, so its power there is zero.
    have hsplit : ∀ s, scales s ^ ((((symbol, power) :: rest).lookup s).map Exponent.val).getD 0 =
        (if s = symbol then scales symbol ^ power.val else 1) *
          scales s ^ ((rest.lookup s).map Exponent.val).getD 0 := by
      intro s
      by_cases hs : s = symbol
      · subst hs
        rw [List.lookup_cons_self, h.lookup_head_eq_none, if_pos rfl]
        simp
      · have hmiss : (s == symbol) = false := beq_eq_false_iff_ne.2 hs
        rw [List.lookup_cons, hmiss, if_neg hs, one_mul]
    rw [List.map_cons, List.prod_cons, ih (List.pairwise_cons.1 h).2 hrest,
      Finset.prod_congr rfl fun s _ => hsplit s, Finset.prod_mul_distrib, Finset.prod_ite_eq',
      if_pos hhead]

/-- The scales of the symbols, raised to their powers and taken together. -/
def Terms.magnitude (scales : String → Rat) (t : Terms) : Rat :=
  (t.entries.map fun e => scales e.1 ^ e.2.val).prod

theorem Terms.magnitude_eq_prod (scales : String → Rat) {t : Terms} {symbols : Finset String}
    (h : ∀ s ∈ t.symbols, s ∈ symbols) :
    t.magnitude scales = ∏ s ∈ symbols, scales s ^ t.exponent s :=
  t.sorted.prod_pow scales fun _ he => h _ (List.mem_map_of_mem he)

namespace Factor

variable {scales : String → Rat} {a b c : Factor}

/-- The magnitude of the numerator, divided by that of the denominator. -/
def magnitude (scales : String → Rat) (a : Factor) : Rat :=
  a.numerator.magnitude scales / a.denominator.magnitude scales

/-- A magnitude as a product over any symbols among which those of the factor are. -/
theorem magnitude_eq_prod (scales : String → Rat) {symbols : Finset String}
    (h : ∀ s ∈ a.symbols, s ∈ symbols) :
    a.magnitude scales = ∏ s ∈ symbols, scales s ^ a.exponent .above s /
      scales s ^ a.exponent .below s := by
  rw [magnitude, Terms.magnitude_eq_prod scales fun s hs => h s (List.mem_append_left _ hs),
    Terms.magnitude_eq_prod scales fun s hs => h s (List.mem_append_right _ hs),
    ← Finset.prod_div_distrib]
  rfl

/-- Symbols without the scale zero count by their balance alone. -/
theorem magnitude_eq_prod_net {symbols : Finset String} (h : ∀ s ∈ a.symbols, s ∈ symbols)
    (hscales : ∀ s ∈ symbols, scales s ≠ 0) :
    a.magnitude scales = ∏ s ∈ symbols, scales s ^ a.net s := by
  rw [magnitude_eq_prod scales h]
  refine Finset.prod_congr rfl fun s hs => ?_
  rw [net, zpow_sub₀ (hscales s hs), zpow_natCast, zpow_natCast]

theorem magnitude_mul (h : a.mul b = .ok c) :
    c.magnitude scales = a.magnitude scales * b.magnitude scales := by
  have hexponent := (gives_mul a b).exponent c h
  -- The magnitudes are products over one set of symbols, where the powers are added.
  have hsymbols : ∀ d : Factor, d = a ∨ d = b ∨ d = c →
      ∀ s ∈ d.symbols, s ∈ (a.symbols ++ b.symbols ++ c.symbols).toFinset := by
    intro d hd s hs
    rw [List.mem_toFinset, List.mem_append, List.mem_append]
    rcases hd with rfl | rfl | rfl
    · exact .inl (.inl hs)
    · exact .inl (.inr hs)
    · exact .inr hs
  rw [magnitude_eq_prod scales (hsymbols a (.inl rfl)),
    magnitude_eq_prod scales (hsymbols b (.inr (.inl rfl))),
    magnitude_eq_prod scales (hsymbols c (.inr (.inr rfl))), ← Finset.prod_mul_distrib]
  refine Finset.prod_congr rfl fun s _ => ?_
  rw [hexponent, hexponent, pow_add, pow_add, mul_div_mul_comm]

theorem magnitude_inverse : a.inverse.magnitude scales = 1 / a.magnitude scales :=
  (one_div_div _ _).symm

theorem magnitude_ne_zero (hscales : ∀ s ∈ a.symbols, scales s ≠ 0) :
    a.magnitude scales ≠ 0 := by
  have hsymbols : ∀ s ∈ a.symbols, s ∈ a.symbols.toFinset := fun s hs => List.mem_toFinset.2 hs
  have hscales' : ∀ s ∈ a.symbols.toFinset, scales s ≠ 0 :=
    fun s hs => hscales s (List.mem_toFinset.1 hs)
  rw [magnitude_eq_prod_net hsymbols hscales']
  exact Finset.prod_ne_zero_iff.2 fun s hs => zpow_ne_zero _ (hscales' s hs)

/-- Factors with the same balance of each symbol have the same magnitude. -/
theorem magnitude_eq_of_net (ha : ∀ s ∈ a.symbols, scales s ≠ 0)
    (hb : ∀ s ∈ b.symbols, scales s ≠ 0) (h : ∀ s, a.net s = b.net s) :
    a.magnitude scales = b.magnitude scales := by
  have hscales : ∀ s ∈ (a.symbols ++ b.symbols).toFinset, scales s ≠ 0 := by
    intro s hs
    rcases List.mem_append.1 (List.mem_toFinset.1 hs) with hs | hs
    · exact ha s hs
    · exact hb s hs
  rw [magnitude_eq_prod_net (fun s hs => List.mem_toFinset.2 (List.mem_append_left _ hs)) hscales,
    magnitude_eq_prod_net (fun s hs => List.mem_toFinset.2 (List.mem_append_right _ hs)) hscales]
  exact Finset.prod_congr rfl fun s _ => by rw [h s]

end Factor

/-! ## Scales of units -/

/-- All conversions of the dimension are multiplications that can be undone. -/
structure Dimension.Scales (dimension : Dimension Rat) : Prop where
  multiples : ∀ e ∈ dimension.multiples, e.2.IsScale
  composition : ∀ composition, dimension.composition = some composition →
    composition.conversion.IsScale

/-- How often the reference is contained in the default unit; once if there is no reference. -/
def Dimension.referenceScale (dimension : Dimension Rat) : Rat :=
  (dimension.composition.map fun composition => composition.conversion.factor).getD 1

/-- The factor of the unit in its dimension, times that of the dimension if it is composed. -/
def Dimension.unitScale (dimension : Dimension Rat) (unit : String) : Rat :=
  ((dimension.multiple? unit).map Conversion.factor).getD 1 * dimension.referenceScale

/-- The conversion of a registration, if it has one, is a multiplication that can be undone. -/
def Registration.Scales : Registration Rat → Prop
  | .fundamental _ _ => True
  | .composed _ _ _ conversion => conversion.IsScale
  | .multiple _ _ conversion => conversion.IsScale

namespace Registry

variable {registry next : Registry Rat} {a b : Factor}

/-- All conversions of the registry are multiplications that can be undone. -/
def Scales (registry : Registry Rat) : Prop :=
  ∀ dimension ∈ registry.dimensions, dimension.Scales

/-- The scale of a unit in the dimension that it measures. -/
def unitScale (registry : Registry Rat) (unit : String) : Rat :=
  match registry.measuredBy unit with
  | .ok dimension => dimension.unitScale unit
  | .error _ => 1

/-- The magnitude of a factor of units. -/
def magnitude (registry : Registry Rat) (units : Factor) : Rat :=
  units.magnitude registry.unitScale

/-- A registration of a multiplication leaves only multiplications. -/
theorem Scales.register (h : registry.Scales) {registration : Registration Rat} {id : Nat}
    (hscales : registration.Scales)
    (hregister : registry.register registration = .ok (next, id)) : next.Scales := by
  -- A new dimension has its default unit alone, with the identity.
  have hnew : ∀ (name unit : String) (composition : Option (Composition Rat)),
      (∀ found, composition = some found → found.conversion.IsScale) →
      (Dimension.new name unit composition).Scales := by
    refine fun name unit composition hcomposition => ⟨fun e he => ?_, hcomposition⟩
    obtain rfl := List.mem_singleton.1 he
    exact Conversion.isScale_identity
  intro dimension hmem
  cases registration with
  | fundamental name unit =>
    obtain ⟨-, -, rfl⟩ := of_addFundamental hregister
    rcases Array.mem_push.1 hmem with hmem | rfl
    · exact h dimension hmem
    · exact hnew name unit none (by simp)
  | composed name unit reference conversion =>
    obtain ⟨-, -, -, dimensions, -, rfl⟩ := of_addComposed hregister
    rcases Array.mem_push.1 hmem with hmem | rfl
    · exact h dimension hmem
    · refine hnew name unit _ fun composition hcomposition => ?_
      obtain rfl := Option.some.inj hcomposition
      exact hscales
  | multiple unit base conversion =>
    obtain ⟨-, -, rfl⟩ := of_addMultiple hregister
    obtain ⟨other, hother⟩ := Array.mem_iff_getElem?.1 hmem
    refine forall_modify (·.addMultiple unit conversion)
      (fun other before hbefore => ?_) id other dimension hother
    obtain ⟨hmultiples, hcomposition⟩ := h before (Array.mem_iff_getElem?.2 ⟨other, hbefore⟩)
    refine ⟨⟨hmultiples, hcomposition⟩, fun e he => ?_, hcomposition⟩
    rcases List.mem_append.1 he with he | he
    · exact hmultiples e he
    · obtain rfl := List.mem_singleton.1 he
      exact hscales

/-- Calls with multiplications only, refused ones included, lead to multiplications only. -/
theorem Scales.after (h : registry.Scales) {calls : List (Registration Rat)}
    (hcalls : ∀ registration ∈ calls, registration.Scales) : (registry.after calls).Scales := by
  induction calls generalizing registry with
  | nil => exact h
  | cons registration calls ih =>
    obtain ⟨hhead, hrest⟩ := List.forall_mem_cons.1 hcalls
    refine ih ?_ hrest
    show (registry.call registration).2.Scales
    rw [call_eq]
    cases hregister : registry.register registration with
    | ok result => exact h.register hhead hregister
    | error cause => exact h

theorem scales_empty : (empty : Registry Rat).Scales :=
  fun _ hmem => absurd hmem (Array.not_mem_empty _)

/-! ## Steps and ways -/

theorem WellFormed.unitScale_eq (h : registry.WellFormed) {unit : String}
    {dimension : Dimension Rat} {step : Conversion Rat} (hmem : dimension ∈ registry.dimensions)
    (hstep : dimension.multiple? unit = some step) : registry.hasUnit unit = true ∧
      registry.unitScale unit = step.factor * dimension.referenceScale := by
  have hmeasured : registry.measuredBy unit = .ok dimension :=
    h.measuredBy_eq_ok_iff_mem.2 ⟨hmem, Dimension.mem_units_iff.2 ⟨step, hstep⟩⟩
  refine ⟨h.hasUnit_iff.2 ⟨dimension, hmeasured⟩, ?_⟩
  rw [unitScale, hmeasured]
  show dimension.unitScale unit = _
  rw [Dimension.unitScale, hstep]
  rfl

/-- The step of a known unit is the multiplication by its scale. -/
theorem Scales.unitStep (h : registry.Scales) (hwell : registry.WellFormed) {unit : String}
    (hunit : registry.hasUnit unit = true) :
    registry.unitStep unit = .ok (Conversion.scaleHom (registry.unitScale unit)) ∧
      registry.unitScale unit ≠ 0 := by
  obtain ⟨dimension, hmeasured⟩ := hwell.hasUnit_iff.1 hunit
  obtain ⟨hmem, hof⟩ := hwell.measuredBy_eq_ok_iff_mem.1 hmeasured
  obtain ⟨step, hstep⟩ := Dimension.exists_multiple_of_mem hof
  obtain ⟨hmultiples, hcomposition⟩ := h dimension hmem
  -- The step of the unit stands among those of its dimension, and all of these are scales.
  have hscale : step.IsScale := by
    obtain ⟨before, after, hsplit, -⟩ := List.lookup_eq_some_iff.1 hstep
    exact hmultiples _ (hsplit ▸ List.mem_append_right _ List.mem_cons_self)
  rw [Registry.unitStep, hmeasured, (hwell.unitScale_eq hmem hstep).2, Dimension.referenceScale]
  simp only [bind, Except.bind, hstep]
  -- The reference of a composed dimension adds its own scale.
  cases hdimension : dimension.composition with
  | none =>
    simp only [Option.map_none, Option.getD_none, mul_one]
    exact ⟨congrArg Except.ok hscale.eq_scaleHom, hscale.factor⟩
  | some composition =>
    have hcomposed := hcomposition composition hdimension
    simp only [Option.map_some, Option.getD_some]
    refine ⟨congrArg Except.ok ?_, mul_ne_zero hscale.factor hcomposed.factor⟩
    rw [map_mul, ← hscale.eq_scaleHom, ← hcomposed.eq_scaleHom, Conversion.compose_eq_mul]

theorem along_scaleHom {β : Type} {step : β → Except UnitError (Conversion Rat)} {scale : β → Rat}
    {entries : List β} (h : ∀ e ∈ entries, step e = .ok (Conversion.scaleHom (scale e)))
    (start : Rat) : along step entries (Conversion.scaleHom start) =
      .ok (Conversion.scaleHom (start * (entries.map scale).prod)) := by
  refine along_eq_ok_iff.2 ⟨entries.map fun e => Conversion.scaleHom (scale e), ?_, ?_⟩
  · rw [List.forall₂_map_right_iff, List.forall₂_same]
    exact h
  · rw [map_mul, map_list_prod, List.map_map]
    rfl

theorem Scales.stepUp (h : registry.Scales) (hwell : registry.WellFormed) {e : String × Exponent}
    (hunit : registry.hasUnit e.1 = true) :
    registry.stepUp e = .ok (Conversion.scaleHom (registry.unitScale e.1 ^ e.2.val)) := by
  rw [Registry.stepUp, (h.unitStep hwell hunit).1, map_pow, ← Conversion.iterate_eq_pow]
  rfl

/-- The scale of a unit is not zero, so the step can be taken back. -/
theorem Scales.stepDown (h : registry.Scales) (hwell : registry.WellFormed) {e : String × Exponent}
    (hunit : registry.hasUnit e.1 = true) :
    registry.stepDown e = .ok (Conversion.scaleHom (registry.unitScale e.1 ^ e.2.val)⁻¹) := by
  obtain ⟨hstep, hne⟩ := h.unitStep hwell hunit
  have hinvert : invert (Conversion.scaleHom (registry.unitScale e.1)) =
      .ok (Conversion.scaleHom (registry.unitScale e.1)⁻¹) := by
    rw [invert, Conversion.inverse?_scaleHom hne]
  rw [Registry.stepDown, hstep, ← inv_pow, map_pow, ← Conversion.iterate_eq_pow]
  exact bind_eq_ok_iff.2 ⟨_, rfl, bind_eq_ok_iff.2 ⟨_, hinvert, rfl⟩⟩

/-- The way to base units is the multiplication by the magnitude. -/
theorem Scales.toBase_eq_magnitude (h : registry.Scales) (hwell : registry.WellFormed)
    (ha : ∀ unit ∈ a.symbols, registry.hasUnit unit = true) :
    registry.toBase a = .ok (Conversion.scaleHom (registry.magnitude a)) := by
  have hup : ∀ e ∈ a.numerator.entries, registry.stepUp e =
      .ok (Conversion.scaleHom (registry.unitScale e.1 ^ e.2.val)) :=
    fun e he => h.stepUp hwell (ha e.1 (List.mem_append_left _ (List.mem_map_of_mem he)))
  have hdown : ∀ e ∈ a.denominator.entries, registry.stepDown e =
      .ok (Conversion.scaleHom (registry.unitScale e.1 ^ e.2.val)⁻¹) :=
    fun e he => h.stepDown hwell (ha e.1 (List.mem_append_right _ (List.mem_map_of_mem he)))
  have hinverses : (a.denominator.entries.map fun e => (registry.unitScale e.1 ^ e.2.val)⁻¹).prod =
      (a.denominator.magnitude registry.unitScale)⁻¹ := by
    rw [Terms.magnitude, List.prod_inv, List.map_map]
    rfl
  -- The way starts at one and multiplies by the steps up, then by the inverses of those down.
  rw [toBase_eq_wayAlong, wayAlong, Conversion.identity_eq_one, ← map_one Conversion.scaleHom,
    along_scaleHom hup, one_mul]
  show along registry.stepDown _ _ = _
  rw [along_scaleHom hdown, hinverses, ← div_eq_mul_inv]
  rfl

theorem Scales.magnitude_ne_zero (h : registry.Scales) (hwell : registry.WellFormed)
    (ha : ∀ unit ∈ a.symbols, registry.hasUnit unit = true) : registry.magnitude a ≠ 0 :=
  Factor.magnitude_ne_zero fun unit hunit => (h.unitStep hwell (ha unit hunit)).2

/-- Between factors of known units there is always a conversion, the multiplication by the quotient
    of their magnitudes. -/
theorem Scales.conversion_eq_quotient (h : registry.Scales) (hwell : registry.WellFormed)
    (ha : ∀ unit ∈ a.symbols, registry.hasUnit unit = true)
    (hb : ∀ unit ∈ b.symbols, registry.hasUnit unit = true) :
    registry.conversion a b = .ok ⟨registry.magnitude a / registry.magnitude b, 0⟩ := by
  have hne := h.magnitude_ne_zero hwell hb
  obtain ⟨hright, hleft⟩ := Conversion.inverse?_eq_some_iff.1 (Conversion.inverse?_scaleHom hne)
  refine conversion_eq_ok_iff.2 ⟨_, _, _, h.toBase_eq_magnitude hwell ha,
    h.toBase_eq_magnitude hwell hb, hright, hleft, ?_⟩
  rw [← map_mul, ← div_eq_mul_inv]
  rfl

/-- Where all conversions are multiplications that can be undone, factors of known units are
    converted by the quotient of their magnitudes. The magnitude of a product is the product of the
    magnitudes, that of an inverse is the inverse, and factors with the same balance of each unit
    are converted alike. -/
theorem conversion_multiplicative (h : registry.Reachable) (hscales : registry.Scales) :
    (∀ a b : Factor, (∀ unit ∈ a.symbols, registry.hasUnit unit = true) →
      (∀ unit ∈ b.symbols, registry.hasUnit unit = true) →
        registry.magnitude b ≠ 0 ∧
        registry.conversion a b = .ok ⟨registry.magnitude a / registry.magnitude b, 0⟩) ∧
    (∀ a b c : Factor, a.mul b = .ok c →
      registry.magnitude c = registry.magnitude a * registry.magnitude b) ∧
    (∀ a : Factor, registry.magnitude a.inverse = 1 / registry.magnitude a) ∧
    ∀ a a' b b' : Factor, (∀ unit ∈ a.symbols ++ a'.symbols, registry.hasUnit unit = true) →
      (∀ unit ∈ b.symbols ++ b'.symbols, registry.hasUnit unit = true) →
        (∀ unit, a.net unit = a'.net unit) → (∀ unit, b.net unit = b'.net unit) →
          registry.conversion a b = registry.conversion a' b' := by
  have hwell := h.wellFormed
  -- The scales are not zero, so a power may be moved to the other side of the bar.
  have hsame : ∀ a a' : Factor, (∀ unit ∈ a.symbols ++ a'.symbols, registry.hasUnit unit = true) →
      (∀ unit, a.net unit = a'.net unit) → registry.magnitude a = registry.magnitude a' := by
    intro a a' hunits hnet
    refine Factor.magnitude_eq_of_net (fun unit hunit => ?_) (fun unit hunit => ?_) hnet
    · exact (hscales.unitStep hwell (hunits unit (List.mem_append_left _ hunit))).2
    · exact (hscales.unitStep hwell (hunits unit (List.mem_append_right _ hunit))).2
  refine ⟨fun a b ha hb => ⟨hscales.magnitude_ne_zero hwell hb,
    hscales.conversion_eq_quotient hwell ha hb⟩, fun a b c hmul => Factor.magnitude_mul hmul,
    fun a => Factor.magnitude_inverse, fun a a' b b' ha hb hnet hnet' => ?_⟩
  obtain ⟨ha, ha'⟩ := List.forall_mem_append.1 ha
  obtain ⟨hb, hb'⟩ := List.forall_mem_append.1 hb
  rw [hscales.conversion_eq_quotient hwell ha hb, hscales.conversion_eq_quotient hwell ha' hb',
    hsame a a' (List.forall_mem_append.2 ⟨ha, ha'⟩) hnet,
    hsame b b' (List.forall_mem_append.2 ⟨hb, hb'⟩) hnet']

/-! ## Knots -/

/-- Lengths and times with a unit more each, and velocities in knots. -/
def speeds : List (Registration Rat) :=
  [.fundamental "length" "m", .fundamental "time" "s",
    .composed "velocity" "kn" ⟨.single "m" .one, .single "s" .one⟩ ⟨1852 / 3600, 0⟩,
    .multiple "km" "m" ⟨1000, 0⟩, .multiple "h" "s" ⟨3600, 0⟩]

theorem scales_speeds : ∀ registration ∈ speeds, registration.Scales := by
  intro registration hmem
  simp only [speeds, List.mem_cons, List.not_mem_nil, or_false] at hmem
  rcases hmem with rfl | rfl | rfl | rfl | rfl
  · trivial
  · trivial
  all_goals exact ⟨rfl, by norm_num⟩

theorem admitsAll_speeds : (empty : Registry Rat).AdmitsAll speeds := by
  refine admitsAll_empty_iff.2 ⟨by decide, by decide, ?_⟩
  simp [speeds, eachAfter_cons, eachAfter_nil, Supplies, Registration.unit,
    Registration.baseUnits, Factor.symbols, Terms.symbols, Terms.single, Terms.set, insertEntry,
    Terms.empty]

theorem unitScale_speeds (hregistry : empty.registerAll speeds = (registry, .ok ())) :
    (∀ unit ∈ ["kn", "km", "h", "s"], registry.hasUnit unit = true) ∧
      registry.unitScale "kn" = 1852 / 3600 ∧ registry.unitScale "km" = 1000 ∧
      registry.unitScale "h" = 3600 := by
  have hwell := wellFormed_empty.registerAll hregistry
  have hholds := holds_of_registerAll wellFormed_empty hregistry
  obtain ⟨length, hlength, -, hmetre, hbase⟩ := hholds (.fundamental "length" "m") (by decide)
  obtain ⟨time, htime, -, hsecond, hbase'⟩ := hholds (.fundamental "time" "s") (by decide)
  obtain ⟨velocity, hvelocity, -, hknot, dimensions, -, hcomposition⟩ := hholds
    (.composed "velocity" "kn" ⟨.single "m" .one, .single "s" .one⟩ ⟨1852 / 3600, 0⟩)
      (by simp [speeds])
  obtain ⟨length', hlength', hthousand⟩ := hholds (.multiple "km" "m" ⟨1000, 0⟩) (by decide)
  obtain ⟨time', htime', hhour⟩ := hholds (.multiple "h" "s" ⟨3600, 0⟩) (by decide)
  -- The multiples stand in the dimensions of their bases.
  obtain rfl := Except.ok.inj ((hmetre ▸ hwell.measuredBy_defaultUnit hlength).symm.trans hlength')
  obtain rfl := Except.ok.inj ((hsecond ▸ hwell.measuredBy_defaultUnit htime).symm.trans htime')
  have hknots := hwell.unitScale_eq hvelocity (hwell.proper_of_mem hvelocity).multiple?_defaultUnit
  have hseconds := hwell.unitScale_eq htime (hwell.proper_of_mem htime).multiple?_defaultUnit
  have hthousands := hwell.unitScale_eq hlength hthousand
  have hhours := hwell.unitScale_eq htime hhour
  rw [Dimension.referenceScale, hcomposition, hknot] at hknots
  rw [Dimension.referenceScale, hbase] at hthousands
  rw [Dimension.referenceScale, hbase'] at hhours
  rw [hsecond] at hseconds
  refine ⟨fun unit hunit => ?_, hknots.2.trans (one_mul _), hthousands.2.trans (mul_one _),
    hhours.2.trans (mul_one _)⟩
  simp only [List.mem_cons, List.not_mem_nil, or_false] at hunit
  rcases hunit with rfl | rfl | rfl | rfl
  · exact hknots.1
  · exact hthousands.1
  · exact hhours.1
  · exact hseconds.1

/-- A knot is 1.852 kilometres an hour, also where hours and seconds stand on both sides of the
    bar. -/
theorem conversion_multiplicative_speeds : ∃ registry : Registry Rat,
    registry.Reachable ∧ registry.Scales ∧
    registry.conversion (.ofSymbol "kn") ⟨.single "km" .one, .single "h" .one⟩ =
      .ok ⟨1852 / 1000, 0⟩ ∧
    registry.conversion (.ofSymbol "kn") ⟨(Terms.single "km" .one).set "s" .one,
      (Terms.single "h" .one).set "s" .one⟩ = .ok ⟨1852 / 1000, 0⟩ ∧
    registry.magnitude (.inverse ⟨.single "km" .one, .single "h" .one⟩) =
      1 / registry.magnitude ⟨.single "km" .one, .single "h" .one⟩ ∧
    registry.magnitude ⟨(Terms.single "kn" .one).set "h" .one, .empty⟩ =
      registry.magnitude (.ofSymbol "kn") * registry.magnitude (.ofSymbol "h") := by
  obtain ⟨registry, hregistry⟩ := wellFormed_empty.exists_registerAll_iff.2 admitsAll_speeds
  have hafter := after_of_registerAll hregistry
  have hreachable : registry.Reachable := ⟨speeds, hafter⟩
  have hscales : registry.Scales := hafter ▸ scales_empty.after scales_speeds
  obtain ⟨hunits, hknot, hthousand, hhour⟩ := unitScale_speeds hregistry
  obtain ⟨hconversion, hmul, hinverse, hnet⟩ := conversion_multiplicative hreachable hscales
  have hknown : ∀ a : Factor, a.symbols ⊆ ["kn", "km", "h", "s"] →
      ∀ unit ∈ a.symbols, registry.hasUnit unit = true :=
    fun a ha unit hunit => hunits unit (ha hunit)
  have hsource : registry.magnitude (.ofSymbol "kn") = 1852 / 3600 := by
    show registry.unitScale "kn" ^ 1 * 1 / 1 = _
    rw [hknot]
    norm_num
  have htarget : registry.magnitude ⟨.single "km" .one, .single "h" .one⟩ = 1000 / 3600 := by
    show registry.unitScale "km" ^ 1 * 1 / (registry.unitScale "h" ^ 1 * 1) = _
    rw [hthousand, hhour]
    norm_num
  have hdirect : registry.conversion (.ofSymbol "kn") ⟨.single "km" .one, .single "h" .one⟩ =
      .ok ⟨1852 / 1000, 0⟩ := by
    obtain ⟨-, h⟩ := hconversion (.ofSymbol "kn") ⟨.single "km" .one, .single "h" .one⟩
      (hknown _ (by decide)) (hknown _ (by decide))
    rw [h, hsource, htarget]
    norm_num
  refine ⟨registry, hreachable, hscales, hdirect, ?_, hinverse _, hmul _ _ _ (by decide +kernel)⟩
  rw [← hdirect]
  refine hnet _ _ _ _ ?_ ?_ (fun _ => rfl) fun unit => ?_
  · exact List.forall_mem_append.2 ⟨hknown _ (by decide), hknown _ (by decide)⟩
  · exact List.forall_mem_append.2 ⟨hknown _ (by decide +kernel), hknown _ (by decide)⟩
  -- Seconds stand on both sides, and no other unit is touched.
  · simp only [Factor.net, Factor.exponent, Factor.side, Terms.single, Terms.exponent_set,
      Terms.exponent_empty]
    by_cases hs : unit = "s"
    · subst hs
      decide
    · rw [if_neg hs, if_neg hs]

end Registry

end UnitCheck
