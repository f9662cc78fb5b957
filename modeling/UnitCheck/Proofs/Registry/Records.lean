import UnitCheck.Proofs.Registry.WellFormed

/-!
  The tables of a registry find what a search through all dimensions finds.

  No two dimensions have a unit or a name in common, so there is only one that a search can find
  (`WellFormed.measuredBy_eq_ok_iff_withUnit?`, `WellFormed.named_eq_ok_iff`).
-/

namespace UnitCheck.Registry

variable {α : Type} {registry : Registry α}

/-- The dimension that has a unit, found among all dimensions. -/
def withUnit? (registry : Registry α) (unit : String) : Option (Dimension α) :=
  registry.dimensions.toList.find? fun dimension => dimension.units.contains unit

/-- The dimension that has a name, found among all dimensions. -/
def withName? (registry : Registry α) (name : String) : Option (Dimension α) :=
  registry.dimensions.toList.find? fun dimension => dimension.name == name

theorem mem_toList_iff {dimension : Dimension α} :
    dimension ∈ registry.dimensions.toList ↔ ∃ id, registry.dimension? id = some dimension := by
  rw [Array.mem_toList_iff, Array.mem_iff_getElem?]
  rfl

/-- A search for what only one dimension has. -/
theorem find?_eq_some_iff {has : Dimension α → Bool} {dimension : Dimension α}
    (hunique : ∀ id found other found', registry.dimension? id = some found → has found = true →
      registry.dimension? other = some found' → has found' = true → id = other) :
    registry.dimensions.toList.find? has = some dimension ↔
      (∃ id, registry.dimension? id = some dimension) ∧ has dimension = true := by
  constructor
  · intro h
    exact ⟨mem_toList_iff.1 (List.mem_of_find?_eq_some h), List.find?_some h⟩
  · rintro ⟨⟨id, hid⟩, hhas⟩
    cases hfind : registry.dimensions.toList.find? has with
    | none => exact absurd hhas (List.find?_eq_none.1 hfind dimension (mem_toList_iff.2 ⟨id, hid⟩))
    | some found =>
      obtain ⟨other, hother⟩ := mem_toList_iff.1 (List.mem_of_find?_eq_some hfind)
      obtain rfl := hunique id dimension other found hid hhas hother (List.find?_some hfind)
      exact hother.symm.trans hid

/-- The names of fundamental dimensions are those of the dimensions that are not composed. -/
theorem mem_fundamentalNames_iff {name : String} : name ∈ registry.fundamentalNames ↔
    ∃ id dimension, registry.dimension? id = some dimension ∧ dimension.isComposed = false ∧
      dimension.name = name := by
  simp only [fundamentalNames, List.mem_map, List.mem_filter, mem_toList_iff, Bool.not_eq_true']
  constructor
  · rintro ⟨dimension, ⟨⟨id, hid⟩, hfundamental⟩, hname⟩
    exact ⟨id, dimension, hid, hfundamental, hname⟩
  · rintro ⟨id, dimension, hid, hfundamental, hname⟩
    exact ⟨dimension, ⟨⟨id, hid⟩, hfundamental⟩, hname⟩

theorem mem_composedNames_iff {name : String} : name ∈ registry.composedNames ↔
    ∃ id dimension, registry.dimension? id = some dimension ∧ dimension.isComposed = true ∧
      dimension.name = name := by
  simp only [composedNames, List.mem_map, List.mem_filter, mem_toList_iff]
  constructor
  · rintro ⟨dimension, ⟨⟨id, hid⟩, hcomposed⟩, hname⟩
    exact ⟨id, dimension, hid, hcomposed, hname⟩
  · rintro ⟨id, dimension, hid, hcomposed, hname⟩
    exact ⟨dimension, ⟨⟨id, hid⟩, hcomposed⟩, hname⟩

/-- A table that finds dimensions by their keys. -/
theorem entry_eq_ok_iff_of_finds {table : Std.HashMap String Nat}
    {Key : Dimension α → String → Prop} (h : Finds table registry.dimensions Key) {key : String}
    {missing : UnitError} {dimension : Dimension α} :
    registry.entry table key missing = .ok dimension ↔
      ∃ id, registry.dimension? id = some dimension ∧ Key dimension key := by
  rw [entry_eq_ok_iff]
  constructor
  · rintro ⟨id, hentry, hid⟩
    obtain ⟨found, hfound, hkey⟩ := (h key id).1 hentry
    obtain rfl := Option.some.inj (hid.symm.trans hfound)
    exact ⟨id, hid, hkey⟩
  · rintro ⟨id, hid, hkey⟩
    exact ⟨id, (h key id).2 ⟨dimension, hid, hkey⟩, hid⟩

theorem mem_of_finds {table : Std.HashMap String Nat} {Key : Dimension α → String → Prop}
    (h : Finds table registry.dimensions Key) {key : String} {id : Nat} {dimension : Dimension α}
    (hid : registry.dimension? id = some dimension) (hkey : Key dimension key) : key ∈ table := by
  have hentry := (h key id).2 ⟨dimension, hid, hkey⟩
  exact Std.HashMap.mem_iff_isSome_getElem?.2 (by rw [hentry]; rfl)

namespace WellFormed

variable [Scalar α]

/-! ## Units -/

theorem withUnit?_eq_some_iff (h : registry.WellFormed) {unit : String} {dimension : Dimension α} :
    registry.withUnit? unit = some dimension ↔
      (∃ id, registry.dimension? id = some dimension) ∧ unit ∈ dimension.units := by
  rw [withUnit?, find?_eq_some_iff, List.contains_iff_mem]
  intro id found other found' hid hfound hother hfound'
  exact h.dimensionByUnit.eq_of_key hid (List.contains_iff_mem.1 hfound) hother
    (List.contains_iff_mem.1 hfound')

/-- The index finds a unit where a search does. -/
theorem measuredBy_eq_ok_iff_withUnit? (h : registry.WellFormed) {unit : String}
    {dimension : Dimension α} :
    registry.measuredBy unit = .ok dimension ↔ registry.withUnit? unit = some dimension := by
  rw [measuredBy, entry_eq_ok_iff_of_finds h.dimensionByUnit, h.withUnit?_eq_some_iff,
    exists_and_right]

/-- The known units are those that have a dimension. -/
theorem hasUnit_iff (h : registry.WellFormed) {unit : String} :
    registry.hasUnit unit = true ↔ ∃ dimension, registry.measuredBy unit = .ok dimension := by
  constructor
  · intro hunit
    have hid := Std.HashMap.getElem?_eq_some_getElem (Std.HashMap.contains_iff_mem.1 hunit)
    obtain ⟨dimension, hdimension, hof⟩ := (h.dimensionByUnit unit _).1 hid
    exact ⟨dimension, h.measuredBy_eq_ok hdimension hof⟩
  · rintro ⟨dimension, hmeasured⟩
    obtain ⟨id, -, hid⟩ := measuredBy_eq_ok_iff.1 hmeasured
    exact Std.HashMap.contains_iff_mem.2
      (mem_of_finds h.dimensionByUnit hid (h.mem_units_of_measuredBy hmeasured))

/-! ## Names -/

/-- No fundamental dimension has the name of a composed one. -/
theorem name_ne (h : registry.WellFormed) {id other : Nat} {dimension found : Dimension α}
    (hid : registry.dimension? id = some dimension) (hfundamental : dimension.isComposed = false)
    (hother : registry.dimension? other = some found) (hcomposed : found.isComposed = true) :
    dimension.name ≠ found.name := by
  intro hname
  have hmem := mem_of_finds h.fundamentalByName hid ⟨rfl, hfundamental⟩
  exact h.disjoint _ hmem (mem_of_finds h.composedByName hother ⟨hname.symm, hcomposed⟩)

/-- No two dimensions have the same name, be they fundamental or composed. -/
theorem eq_of_name (h : registry.WellFormed) {id other : Nat} {dimension found : Dimension α}
    (hid : registry.dimension? id = some dimension)
    (hother : registry.dimension? other = some found) (hname : dimension.name = found.name) :
    id = other := by
  cases hkind : dimension.isComposed with
  | false =>
    cases hkind' : found.isComposed with
    | false =>
      exact h.fundamentalByName.eq_of_key hid ⟨rfl, hkind⟩ hother ⟨hname.symm, hkind'⟩
    | true => exact absurd hname (h.name_ne hid hkind hother hkind')
  | true =>
    cases hkind' : found.isComposed with
    | false => exact absurd hname.symm (h.name_ne hother hkind' hid hkind)
    | true => exact h.composedByName.eq_of_key hid ⟨rfl, hkind⟩ hother ⟨hname.symm, hkind'⟩

theorem withName?_eq_some_iff (h : registry.WellFormed) {name : String} {dimension : Dimension α} :
    registry.withName? name = some dimension ↔
      (∃ id, registry.dimension? id = some dimension) ∧ dimension.name = name := by
  rw [withName?, find?_eq_some_iff, beq_iff_eq]
  intro id found other found' hid hfound hother hfound'
  exact h.eq_of_name hid hother ((eq_of_beq hfound).trans (eq_of_beq hfound').symm)

/-- The tables find a name where a search does. -/
theorem named_eq_ok_iff (h : registry.WellFormed) {name : String} {dimension : Dimension α} :
    registry.named name = .ok dimension ↔ registry.withName? name = some dimension := by
  have hcomposed : ∀ dimension, registry.composed name = .ok dimension ↔
      ∃ id, registry.dimension? id = some dimension ∧ dimension.name = name ∧
        dimension.isComposed = true := fun _ => entry_eq_ok_iff_of_finds h.composedByName
  have hfundamental : ∀ dimension, registry.fundamental name = .ok dimension ↔
      ∃ id, registry.dimension? id = some dimension ∧ dimension.name = name ∧
        dimension.isComposed = false := fun _ => entry_eq_ok_iff_of_finds h.fundamentalByName
  rw [named, h.withName?_eq_some_iff]
  cases hlookup : registry.composed name with
  | ok found =>
    obtain ⟨other, hother, hfound, -⟩ := (hcomposed found).1 hlookup
    constructor
    · intro hok
      cases hok
      exact ⟨⟨other, hother⟩, hfound⟩
    · rintro ⟨⟨id, hid⟩, hname⟩
      obtain rfl := h.eq_of_name hid hother (hname.trans hfound.symm)
      rw [Option.some.inj (hid.symm.trans hother)]
  | error cause =>
    dsimp only
    rw [hfundamental]
    constructor
    · rintro ⟨id, hid, hname, -⟩
      exact ⟨⟨id, hid⟩, hname⟩
    · rintro ⟨⟨id, hid⟩, hname⟩
      -- A composed dimension of this name would have been found before.
      cases hkind : dimension.isComposed with
      | false => exact ⟨id, hid, hname, rfl⟩
      | true => exact absurd ((hcomposed dimension).2 ⟨id, hid, hname, hkind⟩) (by simp [hlookup])

/-- The names of dimensions are those that a search finds. -/
theorem mem_names_iff (h : registry.WellFormed) {name : String} :
    name ∈ registry.fundamentalNames ∨ name ∈ registry.composedNames ↔
      ∃ dimension, registry.named name = .ok dimension := by
  simp only [h.named_eq_ok_iff, h.withName?_eq_some_iff, mem_fundamentalNames_iff,
    mem_composedNames_iff]
  constructor
  · rintro (⟨id, dimension, hid, -, hname⟩ | ⟨id, dimension, hid, -, hname⟩)
    · exact ⟨dimension, ⟨id, hid⟩, hname⟩
    · exact ⟨dimension, ⟨id, hid⟩, hname⟩
  · rintro ⟨dimension, ⟨id, hid⟩, hname⟩
    cases hkind : dimension.isComposed with
    | false => exact .inl ⟨id, dimension, hid, hkind, hname⟩
    | true => exact .inr ⟨id, dimension, hid, hkind, hname⟩

end WellFormed

end UnitCheck.Registry
