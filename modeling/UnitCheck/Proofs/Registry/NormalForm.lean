import UnitCheck.Proofs.Registry.BaseUnits
import UnitCheck.Proofs.Registry.Equivalence
import UnitCheck.Quantity

/-!
  Normal forms of quantities.

  A quantity is normalized by converting it to the base units of its unit, which always measure the
  same (`Quantity.normalize_eq_convertTo`). Quantities measure the same just if their normal forms
  have the same unit. Over rational numbers, normalizing goes on from where a conversion stopped
  (`Quantity.normalize_of_convertTo`), so neither a conversion nor a normalization before it changes
  the normal form.
-/

namespace UnitCheck

namespace Registry

variable {α : Type} {registry : Registry α} {a b base : Factor}

/-- The base units of a factor measure the same as the factor. -/
theorem WellFormed.sameDimensions_baseUnits [Scalar α] (h : registry.WellFormed)
    (hbase : registry.baseUnits a = .ok base) : registry.sameDimensions a base = .ok true := by
  obtain ⟨dimensions, hdimensions⟩ := h.exists_baseUnits_iff.1 ⟨base, hbase⟩
  obtain ⟨hmeasured, -⟩ := h.dimensionsOfUnits_of_baseUnits hbase hdimensions
  exact (sameDimensions_eq_ok_true_iff hdimensions hmeasured).2 rfl

/-- What is converted to a factor, is converted from it to itself without a change. -/
theorem conversion_self_of_target {registry : Registry Rat} {map : Conversion Rat}
    (h : registry.conversion a b = .ok map) : registry.conversion b b = .ok 1 := by
  obtain ⟨out, back, inverse, -, hback, hright, hleft, -⟩ := conversion_eq_ok_iff.1 h
  exact conversion_eq_ok_iff.2 ⟨back, back, inverse, hback, hback, hright, hleft, hright.symm⟩

end Registry

namespace Quantity

section

variable {α : Type} [Scalar α] {registry : Registry α} {q r p n m : Quantity α}

theorem normalize_eq_ok_iff : q.normalize registry = .ok n ↔
    registry.baseUnits q.unit = .ok n.unit ∧
      ∃ map, registry.conversion q.unit n.unit = .ok map ∧ map.apply q.value = n.value := by
  constructor
  · intro h
    obtain ⟨base, hbase, h⟩ := bind_eq_ok_iff.1 h
    obtain ⟨map, hmap, h⟩ := bind_eq_ok_iff.1 h
    cases h
    exact ⟨hbase, map, hmap, rfl⟩
  · rintro ⟨hbase, map, hmap, hvalue⟩
    refine bind_eq_ok_iff.2 ⟨n.unit, hbase, bind_eq_ok_iff.2 ⟨map, hmap, ?_⟩⟩
    rw [hvalue]
    rfl

theorem convertTo_eq_ok_iff {target : Factor} : q.convertTo registry target = .ok p ↔
    registry.sameDimensions q.unit target = .ok true ∧ p.unit = target ∧
      ∃ map, registry.conversion q.unit target = .ok map ∧ map.apply q.value = p.value := by
  constructor
  · intro h
    obtain ⟨value, hvalue, h⟩ := bind_eq_ok_iff.1 h
    cases h
    obtain ⟨hsame, map, hmap, happly⟩ := Registry.convert_eq_ok_iff.1 hvalue
    exact ⟨hsame, rfl, map, hmap, happly⟩
  · rintro ⟨hsame, rfl, map, hmap, happly⟩
    exact bind_eq_ok_iff.2 ⟨p.value, Registry.convert_eq_ok_iff.2 ⟨hsame, map, hmap, happly⟩, rfl⟩

/-- Normalizing is converting to base units: the check that a conversion makes always passes. -/
theorem normalize_eq_convertTo (h : registry.WellFormed) {base : Factor}
    (hbase : registry.baseUnits q.unit = .ok base) :
    q.normalize registry = q.convertTo registry base := by
  rw [normalize, convertTo, hbase,
    Registry.convert_of_sameDimensions (h.sameDimensions_baseUnits hbase)]
  simp only [bind_assoc, pure_bind]
  rfl

/-- Quantities measure the same just if their normal forms have the same unit. -/
theorem isCompatible_of_normalize (h : registry.WellFormed) (hq : q.normalize registry = .ok n)
    (hr : r.normalize registry = .ok m) :
    q.isCompatible registry r = .ok (decide (n.unit = m.unit)) := by
  obtain ⟨hbase, -⟩ := normalize_eq_ok_iff.1 hq
  obtain ⟨hother, -⟩ := normalize_eq_ok_iff.1 hr
  obtain ⟨first, hfirst⟩ := h.exists_baseUnits_iff.1 ⟨_, hbase⟩
  obtain ⟨second, hsecond⟩ := h.exists_baseUnits_iff.1 ⟨_, hother⟩
  rw [isCompatible, Registry.sameDimensions_eq hfirst hsecond]
  exact congrArg Except.ok
    (decide_eq_decide.2 (h.baseUnits_eq_iff hbase hother hfirst hsecond).symm)

end

section

variable {registry : Registry Rat} {q p n m : Quantity Rat}

/-- A normal form is its own normal form. -/
theorem normalize_of_normalize (h : registry.WellFormed) (hq : q.normalize registry = .ok n) :
    n.normalize registry = .ok n := by
  obtain ⟨hbase, map, hmap, -⟩ := normalize_eq_ok_iff.1 hq
  -- The first conversion could be turned around at its target, which is all that the second needs.
  refine normalize_eq_ok_iff.2
    ⟨h.baseUnits_self fun _ => h.mem_fundamentalUnits_of_baseUnits hbase, 1,
      Registry.conversion_self_of_target hmap, Conversion.apply_one n.value⟩

/-- A quantity has the normal form of what it is converted to. -/
theorem normalize_of_convertTo (h : registry.WellFormed) {target : Factor}
    (hconvert : q.convertTo registry target = .ok p) (hp : p.normalize registry = .ok n) :
    q.normalize registry = .ok n := by
  obtain ⟨hsame, rfl, out, hout, hvalue⟩ := convertTo_eq_ok_iff.1 hconvert
  obtain ⟨hbase, back, hback, hvalue'⟩ := normalize_eq_ok_iff.1 hp
  obtain ⟨dimensions, hfirst, hsecond⟩ := Registry.sameDimensions_eq_true_iff.1 hsame
  -- What has the same dimensions has the same base units.
  obtain ⟨base, hq⟩ := h.exists_baseUnits_iff.2 ⟨dimensions, hfirst⟩
  have hunit : base = n.unit := (h.baseUnits_eq_iff hq hbase hfirst hsecond).2 rfl
  refine normalize_eq_ok_iff.2 ⟨hunit ▸ hq, out * back, Registry.conversion_trans hout hback, ?_⟩
  rw [Conversion.apply_mul, hvalue, hvalue']

end

/-- A quantity that has base units is normalized by converting it to them, with the same outcome.
    Quantities measure the same just if their normal forms have the same unit. Over rational
    numbers, a normal form is not changed by normalizing it again, and a quantity and what it is
    converted to have the same normal form. -/
theorem normalForm_coherent :
    (∀ (α : Type) [Scalar α] (registry : Registry α), registry.Reachable →
      (∀ (q : Quantity α) (base : Factor), registry.baseUnits q.unit = .ok base →
        registry.sameDimensions q.unit base = .ok true ∧
          q.normalize registry = q.convertTo registry base) ∧
      ∀ q r n m : Quantity α, q.normalize registry = .ok n → r.normalize registry = .ok m →
        q.isCompatible registry r = .ok (decide (n.unit = m.unit))) ∧
    ∀ registry : Registry Rat, registry.Reachable →
      (∀ q n : Quantity Rat, q.normalize registry = .ok n → n.normalize registry = .ok n) ∧
      ∀ (q p n m : Quantity Rat) (target : Factor), q.convertTo registry target = .ok p →
        q.normalize registry = .ok n → p.normalize registry = .ok m →
          n.unit = m.unit ∧ n.value = m.value := by
  refine ⟨fun α _ registry h => ⟨fun q base hbase => ?_, fun q r n m => ?_⟩,
    fun registry h => ⟨fun q n => ?_, fun q p n m target hconvert hq hp => ?_⟩⟩
  · exact ⟨h.wellFormed.sameDimensions_baseUnits hbase, normalize_eq_convertTo h.wellFormed hbase⟩
  · exact isCompatible_of_normalize h.wellFormed
  · exact normalize_of_normalize h.wellFormed
  · obtain rfl := Except.ok.inj (hq.symm.trans (normalize_of_convertTo h.wellFormed hconvert hp))
    exact ⟨rfl, rfl⟩

theorem conversion_motions :
    ((Registry.empty : Registry Rat).after Registry.motions).conversion (.ofSymbol "mark")
      (.ofSymbol "m") = .ok ⟨1000, 5⟩ ∧
    ((Registry.empty : Registry Rat).after Registry.motions).conversion (.ofSymbol "m")
      (.ofSymbol "mark") = .ok ⟨1 / 1000, -5 / 1000⟩ := by
  obtain ⟨hmark, -, hmetre⟩ := Registry.unitStep_motions
  have hmarks := Registry.toBase_ofSymbol hmark
  have hmetres := Registry.toBase_ofSymbol hmetre
  constructor
  · refine Registry.conversion_eq_ok_iff.2 ⟨_, _, ⟨1, 0⟩, hmarks, hmetres, ?_⟩
    norm_num [Conversion.mul_eq]
    rfl
  · refine Registry.conversion_eq_ok_iff.2
      ⟨_, _, ⟨1 / 1000, -5 / 1000⟩, hmetres, hmarks, ?_⟩
    norm_num [Conversion.mul_eq]
    rfl

/-- The third mark is the place of 3005 metres, and both are normalized to these. -/
theorem normalForm_coherent_motions : ∃ registry : Registry Rat, registry.Reachable ∧
    (⟨3, .ofSymbol "mark"⟩ : Quantity Rat).normalize registry =
      (⟨3, .ofSymbol "mark"⟩ : Quantity Rat).convertTo registry (.ofSymbol "m") ∧
    (⟨3005, .ofSymbol "m"⟩ : Quantity Rat).convertTo registry (.ofSymbol "mark") =
      .ok ⟨3, .ofSymbol "mark"⟩ ∧
    ∃ n m : Quantity Rat,
      (⟨3005, .ofSymbol "m"⟩ : Quantity Rat).normalize registry = .ok n ∧
      (⟨3, .ofSymbol "mark"⟩ : Quantity Rat).normalize registry = .ok m ∧
      m.normalize registry = .ok m ∧ n.unit = m.unit ∧ n.value = m.value ∧ m.value = 3005 ∧
      (⟨3005, .ofSymbol "m"⟩ : Quantity Rat).isCompatible registry ⟨3, .ofSymbol "mark"⟩ =
        .ok (decide (n.unit = m.unit)) := by
  have hreachable := Registry.reachable_motions
  obtain ⟨hlength, -, -⟩ := Registry.measuredBy_motions
  obtain ⟨hout, hback⟩ := conversion_motions
  generalize (Registry.empty : Registry Rat).after Registry.motions = registry at *
  have hwell := hreachable.wellFormed
  have hmetre := hlength "m" (by simp)
  have hmark := hlength "mark" (by simp)
  -- The offset is divided by the factor on the way to marks.
  have hconvert : (⟨3005, .ofSymbol "m"⟩ : Quantity Rat).convertTo registry (.ofSymbol "mark") =
      .ok ⟨3, .ofSymbol "mark"⟩ := by
    refine convertTo_eq_ok_iff.2 ⟨Registry.sameDimensions_eq_true_iff.2
      ⟨_, hwell.dimensionsOfUnits_ofSymbol hmetre, hwell.dimensionsOfUnits_ofSymbol hmark⟩,
      rfl, _, hback, ?_⟩
    show (3005 : Rat) * (1 / 1000) + -5 / 1000 = 3
    norm_num
  -- Metres are base units, so their normal form is the quantity itself.
  have hmetres : (⟨3005, .ofSymbol "m"⟩ : Quantity Rat).normalize registry =
      .ok ⟨3005, .ofSymbol "m"⟩ :=
    normalize_eq_ok_iff.2 ⟨hwell.baseUnits_ofSymbol hmetre, 1,
      Registry.conversion_self_of_target hout, Conversion.apply_one 3005⟩
  have hmarks : (⟨3, .ofSymbol "mark"⟩ : Quantity Rat).normalize registry =
      .ok ⟨3005, .ofSymbol "m"⟩ := by
    refine normalize_eq_ok_iff.2 ⟨hwell.baseUnits_ofSymbol hmark, _, hout, ?_⟩
    show (3 : Rat) * 1000 + 5 = 3005
    norm_num
  obtain ⟨hall, hexact⟩ := normalForm_coherent
  obtain ⟨hnormalize, hcompatible⟩ := hall Rat registry hreachable
  obtain ⟨hagain, hsame⟩ := hexact registry hreachable
  obtain ⟨hunit, hvalue⟩ := hsame _ _ _ _ _ hconvert hmetres hmarks
  exact ⟨registry, hreachable, (hnormalize _ _ (hwell.baseUnits_ofSymbol hmark)).2, hconvert, _, _,
    hmetres, hmarks, hagain _ _ hmarks, hunit, hvalue, rfl, hcompatible _ _ _ _ hmetres hmarks⟩

end Quantity

end UnitCheck
