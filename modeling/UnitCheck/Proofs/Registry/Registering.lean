import UnitCheck.Proofs.Dimension
import UnitCheck.Proofs.Outcome
import UnitCheck.Proofs.Registry.Tables

/-!
  What registering does to a registry.

  A registration that is not refused has passed its checks, and then makes one new registry
  (`of_addFundamental`, `of_addComposed`, `of_addMultiple`). All that was found before is found in
  it, too (`Registry.Extends`).
-/

namespace UnitCheck.Registry

variable {α : Type} {registry next : Registry α}

/-! ## Finding -/

theorem entry_eq_ok_iff {table : Std.HashMap String Nat} {key : String} {missing : UnitError}
    {dimension : Dimension α} :
    registry.entry table key missing = .ok dimension ↔
      ∃ id, table[key]? = some id ∧ registry.dimension? id = some dimension := by
  rw [entry, ← Option.bind_eq_some_iff]
  cases table[key]?.bind registry.dimension? with
  | some found => rw [Except.ok.injEq, Option.some.injEq]
  | none =>
    constructor
    · intro h
      cases h
    · intro h
      cases h

theorem measuredBy_eq_ok_iff {unit : String} {dimension : Dimension α} :
    registry.measuredBy unit = .ok dimension ↔
      ∃ id, registry.dimensionByUnit[unit]? = some id ∧
        registry.dimension? id = some dimension := entry_eq_ok_iff

/-- The unit measures a dimension of that name. -/
def Measures (registry : Registry α) (unit name : String) : Prop :=
  ∃ dimension, registry.measuredBy unit = .ok dimension ∧ dimension.name = name

/-! ## Registries that say more -/

/-- The registry finds all that another one finds. -/
structure Extends (next registry : Registry α) : Prop where
  dimension : ∀ id dimension, registry.dimension? id = some dimension →
    ∃ later, next.dimension? id = some later ∧ dimension.GrowsTo later
  dimensionByUnit : ∀ (unit : String) (id : Nat), registry.dimensionByUnit[unit]? = some id →
    next.dimensionByUnit[unit]? = some id
  fundamentalUnits : ∀ unit ∈ registry.fundamentalUnits, unit ∈ next.fundamentalUnits

theorem Extends.measures (h : next.Extends registry) {unit name : String}
    (hmeasures : registry.Measures unit name) : next.Measures unit name := by
  obtain ⟨dimension, hdimension, rfl⟩ := hmeasures
  obtain ⟨id, hid, hfound⟩ := measuredBy_eq_ok_iff.1 hdimension
  obtain ⟨later, hlater, hgrows⟩ := h.dimension id dimension hfound
  exact ⟨later, measuredBy_eq_ok_iff.2 ⟨id, h.dimensionByUnit unit id hid, hlater⟩, hgrows.name⟩

/-! ## Checks -/

theorem checkNewName_eq_ok_iff {name : String} : registry.checkNewName name = .ok () ↔
    name ∉ registry.fundamentalByName ∧ name ∉ registry.composedByName := by
  rw [checkNewName, ← Std.HashMap.contains_iff_mem, ← Std.HashMap.contains_iff_mem]
  cases registry.fundamentalByName.contains name <;>
    cases registry.composedByName.contains name <;> simp

theorem checkNewUnit_eq_ok_iff {unit : String} :
    registry.checkNewUnit unit = .ok () ↔ unit ∉ registry.dimensionByUnit := by
  rw [checkNewUnit, hasUnit, ← Std.HashMap.contains_iff_mem]
  cases registry.dimensionByUnit.contains unit <;> simp

theorem checkReference_eq_ok_iff {reference : Factor} : registry.checkReference reference = .ok () ↔
    ∀ unit ∈ reference.symbols, unit ∈ registry.fundamentalUnits := by
  rw [checkReference]
  cases h : reference.symbols.find? fun symbol => !registry.fundamentalUnits.contains symbol with
  | some symbol =>
    have hmissing := List.find?_some h
    have hmem := List.mem_of_find?_eq_some h
    constructor
    · intro herror
      cases herror
    · intro hall
      have hcontains := Std.HashSet.contains_iff_mem.2 (hall symbol hmem)
      simp [hcontains] at hmissing
  | none =>
    rw [List.find?_eq_none] at h
    simpa using h

variable [Scalar α]

/-! ## Registering -/

theorem of_addFundamental {name unit : String} {id : Nat}
    (h : registry.addFundamental name unit = .ok (next, id)) :
    (name ∉ registry.fundamentalByName ∧ name ∉ registry.composedByName) ∧
      unit ∉ registry.dimensionByUnit ∧
      next = ⟨registry.dimensions.push (.new name unit none),
        registry.fundamentalByName.insert name registry.dimensions.size, registry.composedByName,
        registry.dimensionByUnit.insert unit registry.dimensions.size,
        registry.fundamentalUnits.insert unit⟩ := by
  obtain ⟨_, hname, h⟩ := bind_eq_ok_iff.1 h
  obtain ⟨_, hunit, h⟩ := bind_eq_ok_iff.1 h
  cases h
  exact ⟨checkNewName_eq_ok_iff.1 hname, checkNewUnit_eq_ok_iff.1 hunit, rfl⟩

theorem of_addComposed {name unit : String} {reference : Factor} {conversion : Conversion α}
    {id : Nat} (h : registry.addComposed name unit reference conversion = .ok (next, id)) :
    (name ∉ registry.fundamentalByName ∧ name ∉ registry.composedByName) ∧
      unit ∉ registry.dimensionByUnit ∧
      (∀ symbol ∈ reference.symbols, symbol ∈ registry.fundamentalUnits) ∧
      ∃ dimensions, registry.dimensionsOfUnits reference = .ok dimensions ∧
        next = ⟨registry.dimensions.push
            (.new name unit (some ⟨dimensions, reference, conversion⟩)),
          registry.fundamentalByName,
          registry.composedByName.insert name registry.dimensions.size,
          registry.dimensionByUnit.insert unit registry.dimensions.size,
          registry.fundamentalUnits⟩ := by
  obtain ⟨_, hname, h⟩ := bind_eq_ok_iff.1 h
  obtain ⟨_, hunit, h⟩ := bind_eq_ok_iff.1 h
  obtain ⟨_, hreference, h⟩ := bind_eq_ok_iff.1 h
  obtain ⟨dimensions, hdimensions, h⟩ := bind_eq_ok_iff.1 h
  cases h
  exact ⟨checkNewName_eq_ok_iff.1 hname, checkNewUnit_eq_ok_iff.1 hunit,
    checkReference_eq_ok_iff.1 hreference, dimensions, hdimensions, rfl⟩

omit [Scalar α] in
theorem of_addMultiple {unit base : String} {conversion : Conversion α} {id : Nat}
    (h : registry.addMultiple unit base conversion = .ok (next, id)) :
    unit ∉ registry.dimensionByUnit ∧ registry.dimensionByUnit[base]? = some id ∧
      next = ⟨registry.dimensions.modify id (·.addMultiple unit conversion),
        registry.fundamentalByName, registry.composedByName,
        registry.dimensionByUnit.insert unit id, registry.fundamentalUnits⟩ := by
  obtain ⟨_, hunit, h⟩ := bind_eq_ok_iff.1 h
  cases hid : registry.dimensionByUnit[base]? with
  | none =>
    rw [hid] at h
    cases h
  | some found =>
    rw [hid] at h
    cases h
    exact ⟨checkNewUnit_eq_ok_iff.1 hunit, rfl, rfl⟩

omit [Scalar α] in
theorem extends_of_push {dimension : Dimension α} {unit : String}
    (hunit : unit ∉ registry.dimensionByUnit)
    (hdimensions : next.dimensions = registry.dimensions.push dimension)
    (hindex : next.dimensionByUnit =
      registry.dimensionByUnit.insert unit registry.dimensions.size)
    (hunits : ∀ unit ∈ registry.fundamentalUnits, unit ∈ next.fundamentalUnits) :
    next.Extends registry := by
  refine ⟨fun id found hfound => ⟨found, ?_, .refl found⟩, fun key id hid => ?_, hunits⟩
  · rw [dimension?, hdimensions]
    exact getElem?_push_eq_some_iff.2 (.inl hfound)
  · rw [hindex]
    exact getElem?_insert_of_notMem hunit hid _

/-- What was registered stays registered. -/
theorem extends_of_register {registration : Registration α} {id : Nat}
    (h : registry.register registration = .ok (next, id)) : next.Extends registry := by
  cases registration with
  | fundamental name unit =>
    obtain ⟨-, hunit, rfl⟩ := of_addFundamental h
    refine extends_of_push hunit rfl rfl fun other hother => ?_
    exact Std.HashSet.mem_insert.2 (.inr hother)
  | composed name unit reference conversion =>
    obtain ⟨-, hunit, -, dimensions, -, rfl⟩ := of_addComposed h
    exact extends_of_push hunit rfl rfl fun _ hother => hother
  | multiple unit base conversion =>
    obtain ⟨hunit, -, rfl⟩ := of_addMultiple h
    refine ⟨fun other found hfound => ?_, fun key other hother => ?_, fun _ hother => hother⟩
    -- The changed dimension has grown by the unit, and the others are the same.
    · refine ⟨_, getElem?_modify_eq_some_iff.2 ⟨found, hfound, rfl⟩, ?_⟩
      split
      · exact found.growsTo_addMultiple unit conversion
      · exact .refl found
    · exact getElem?_insert_of_notMem hunit hother id

end UnitCheck.Registry
