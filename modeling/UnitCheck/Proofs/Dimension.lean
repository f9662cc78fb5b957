import Mathlib.Data.List.Nodup
import UnitCheck.Dimension

/-!
  Dimensions and their units.

  A dimension starts with its default unit and gets units more, each of them once
  (`Dimension.Proper`). Nothing else about it changes (`Dimension.GrowsTo`).
-/

namespace UnitCheck

variable {α : Type}

namespace Dimension

section

variable [Scalar α] (name unit : String) (composition : Option (Composition α))

@[simp] theorem name_new : (Dimension.new name unit composition).name = name := rfl

@[simp] theorem defaultUnit_new : (Dimension.new name unit composition).defaultUnit = unit := rfl

@[simp] theorem composition_new :
    (Dimension.new name unit composition).composition = composition := rfl

@[simp] theorem isComposed_new :
    (Dimension.new name unit composition).isComposed = composition.isSome := rfl

@[simp] theorem units_new : (Dimension.new name unit composition).units = [unit] := rfl

end

section

variable (dimension : Dimension α) (unit : String) (conversion : Conversion α)

@[simp] theorem name_addMultiple :
    (dimension.addMultiple unit conversion).name = dimension.name := rfl

@[simp] theorem defaultUnit_addMultiple :
    (dimension.addMultiple unit conversion).defaultUnit = dimension.defaultUnit := rfl

@[simp] theorem composition_addMultiple :
    (dimension.addMultiple unit conversion).composition = dimension.composition := rfl

@[simp] theorem isComposed_addMultiple :
    (dimension.addMultiple unit conversion).isComposed = dimension.isComposed := rfl

@[simp] theorem units_addMultiple :
    (dimension.addMultiple unit conversion).units = dimension.units ++ [unit] := by
  rw [addMultiple, units, List.map_append]
  rfl

end

/-- The second dimension is the first, maybe with units more. -/
structure GrowsTo (before later : Dimension α) : Prop where
  name : later.name = before.name
  defaultUnit : later.defaultUnit = before.defaultUnit
  composition : later.composition = before.composition
  multiples : before.multiples <+: later.multiples

theorem GrowsTo.refl (dimension : Dimension α) : dimension.GrowsTo dimension :=
  ⟨rfl, rfl, rfl, List.prefix_refl _⟩

theorem growsTo_addMultiple (dimension : Dimension α) (unit : String) (conversion : Conversion α) :
    dimension.GrowsTo (dimension.addMultiple unit conversion) :=
  ⟨rfl, rfl, rfl, List.prefix_append _ _⟩

variable [Scalar α]

/-- The units of a dimension are distinct, and the first of them is the default unit, with the
    identity. -/
structure Proper (dimension : Dimension α) : Prop where
  nodup : dimension.units.Nodup
  default : dimension.multiples.head? = some (dimension.defaultUnit, .identity)

theorem proper_new (name unit : String) (composition : Option (Composition α)) :
    (Dimension.new name unit composition).Proper :=
  ⟨List.nodup_singleton unit, rfl⟩

theorem Proper.addMultiple {dimension : Dimension α} (h : dimension.Proper) {unit : String}
    (hnew : unit ∉ dimension.units) (conversion : Conversion α) :
    (dimension.addMultiple unit conversion).Proper where
  nodup := by
    rw [units_addMultiple, List.nodup_append]
    refine ⟨h.nodup, List.nodup_singleton unit, fun a ha b hb => ?_⟩
    obtain rfl := List.mem_singleton.1 hb
    exact fun heq => hnew (heq ▸ ha)
  default := by
    have hdefault := h.default
    rw [Dimension.addMultiple, List.head?_append, hdefault]
    rfl

/-- The default unit of a dimension is one of its units. -/
theorem Proper.defaultUnit_mem {dimension : Dimension α} (h : dimension.Proper) :
    dimension.defaultUnit ∈ dimension.units :=
  List.mem_map_of_mem (List.mem_of_mem_head? h.default)

omit [Scalar α] in
/-- A unit of a dimension has its conversion to the default unit. -/
theorem exists_multiple_of_mem {dimension : Dimension α} {unit : String}
    (h : unit ∈ dimension.units) : ∃ step, dimension.multiple? unit = some step := by
  obtain ⟨entry, hmem, rfl⟩ := List.mem_map.1 h
  cases hlookup : dimension.multiples.lookup entry.1 with
  | some step => exact ⟨step, hlookup⟩
  | none => exact absurd rfl (bne_iff_ne.1 (List.lookup_eq_none_iff.1 hlookup _ hmem))

end Dimension

end UnitCheck
