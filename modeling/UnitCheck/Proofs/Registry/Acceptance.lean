import UnitCheck.Proofs.Registry.Records

/-!
  What is accepted when registrations are carried out.

  A registration is accepted if its name and its unit are new and what it refers to is there
  (`WellFormed.exists_register_iff`), and it leaves its names and its unit behind
  (`gains_of_register`). So a list of registrations is accepted if its names and its units are new
  and distinct, and each of them finds what it refers to in the registry or among those before it
  (`WellFormed.exists_registerAll_iff`).
-/

namespace UnitCheck

/-! ## Lists whose members depend on those before -/

section

variable {β γ : Type} {P : List β → β → Prop} {l l' : List β}

/-- Every member of the list fits those before it. -/
def EachAfter (P : List β → β → Prop) (l : List β) : Prop :=
  ∀ earlier x later, l = earlier ++ x :: later → P earlier x

theorem eachAfter_nil : EachAfter P [] := by
  intro earlier x later h
  simp at h

theorem eachAfter_cons {x : β} :
    EachAfter P (x :: l) ↔ P [] x ∧ EachAfter (fun earlier => P (x :: earlier)) l := by
  constructor
  · intro h
    refine ⟨h [] x l rfl, fun earlier y later hl => ?_⟩
    exact h (x :: earlier) y later (by rw [hl, List.cons_append])
  · rintro ⟨hhead, hrest⟩ earlier y later hl
    cases earlier with
    | nil =>
      cases hl
      exact hhead
    | cons z earlier =>
      obtain ⟨rfl, hsplit⟩ := List.cons.inj hl
      exact hrest earlier y later hsplit

theorem eachAfter_append :
    EachAfter P (l ++ l') ↔ EachAfter P l ∧ EachAfter (fun earlier => P (l ++ earlier)) l' := by
  induction l generalizing P with
  | nil => simp [eachAfter_nil]
  | cons x l ih => simp only [List.cons_append, eachAfter_cons, ih, and_assoc]

theorem eachAfter_map {f : γ → β} {l : List γ} :
    EachAfter P (l.map f) ↔ EachAfter (fun earlier x => P (earlier.map f) (f x)) l := by
  induction l generalizing P with
  | nil => simp [eachAfter_nil]
  | cons x l ih => simp only [List.map_cons, List.map_nil, eachAfter_cons, ih]

theorem eachAfter_const {Q : β → Prop} : EachAfter (fun _ => Q) l ↔ ∀ x ∈ l, Q x := by
  induction l with
  | nil => simp [eachAfter_nil]
  | cons x l ih => simp only [eachAfter_cons, ih, List.forall_mem_cons]

end

/-! ## Keys that are new -/

section

variable {Taken Later : String → Prop} {keys later : List String}

/-- The keys are distinct, and none of them is taken. -/
structure Fresh (Taken : String → Prop) (keys : List String) : Prop where
  nodup : keys.Nodup
  notTaken : ∀ key ∈ keys, ¬Taken key

theorem fresh_singleton_iff {key : String} : Fresh Taken [key] ↔ ¬Taken key :=
  ⟨fun h => h.notTaken key List.mem_cons_self,
    fun h => ⟨List.nodup_singleton key, fun _ hmem => List.mem_singleton.1 hmem ▸ h⟩⟩

/-- Keys of which the first are taken before the others come. -/
theorem fresh_append_iff (h : ∀ key, Later key ↔ key ∈ keys ∨ Taken key) :
    Fresh Taken (keys ++ later) ↔ Fresh Taken keys ∧ Fresh Later later := by
  constructor
  · rintro ⟨hnodup, hnot⟩
    obtain ⟨hkeys, hlater, hdisjoint⟩ := List.nodup_append.1 hnodup
    refine ⟨⟨hkeys, fun key hmem => hnot key (List.mem_append_left _ hmem)⟩, hlater, ?_⟩
    intro key hmem htaken
    rcases (h key).1 htaken with hkey | htaken
    · exact hdisjoint key hkey key hmem rfl
    · exact hnot key (List.mem_append_right _ hmem) htaken
  · rintro ⟨⟨hkeys, hnot⟩, ⟨hlater, hnot'⟩⟩
    refine ⟨List.nodup_append.2 ⟨hkeys, hlater, ?_⟩, fun key hmem htaken => ?_⟩
    · rintro key hkey _ hmem rfl
      exact hnot' key hmem ((h key).2 (.inl hkey))
    · rcases List.mem_append.1 hmem with hmem | hmem
      · exact hnot key hmem htaken
      · exact hnot' key hmem ((h key).2 (.inr htaken))

end

variable {α : Type}

/-! ## What a registration adds -/

namespace Registration

/-- The name of a fundamental dimension, if one is registered. -/
def fundamentalNames : Registration α → List String
  | fundamental name _ => [name]
  | _ => []

/-- The name of a composed dimension, if one is registered. -/
def composedNames : Registration α → List String
  | composed name _ _ _ => [name]
  | _ => []

/-- The name of the dimension that is registered, if one is. -/
def names (registration : Registration α) : List String :=
  registration.fundamentalNames ++ registration.composedNames

/-- The unit that is registered. -/
def unit : Registration α → String
  | fundamental _ unit => unit
  | composed _ unit _ _ => unit
  | multiple unit _ _ => unit

/-- The default unit of a fundamental dimension, if one is registered. -/
def baseUnits : Registration α → List String
  | fundamental _ unit => [unit]
  | _ => []

theorem nodup_names (registration : Registration α) : registration.names.Nodup := by
  cases registration <;> simp [names, fundamentalNames, composedNames]

end Registration

namespace Registry

variable {registry next final : Registry α}

/-- A dimension has the name. -/
def HasName (registry : Registry α) (name : String) : Prop :=
  name ∈ registry.fundamentalByName ∨ name ∈ registry.composedByName

/-- The registry lists what another one lists, and what the registrations add. -/
structure Gains (next registry : Registry α) (calls : List (Registration α)) : Prop where
  hasName : ∀ name, next.HasName name ↔ name ∈ calls.flatMap (·.names) ∨ registry.HasName name
  unit : ∀ unit, unit ∈ next.dimensionByUnit ↔
    unit ∈ calls.map (·.unit) ∨ unit ∈ registry.dimensionByUnit
  baseUnit : ∀ unit, unit ∈ next.fundamentalUnits ↔
    unit ∈ calls.flatMap (·.baseUnits) ∨ unit ∈ registry.fundamentalUnits
  fundamentalNames : next.fundamentalNames =
    registry.fundamentalNames ++ calls.flatMap (·.fundamentalNames)
  composedNames : next.composedNames = registry.composedNames ++ calls.flatMap (·.composedNames)

theorem Gains.refl (registry : Registry α) : registry.Gains registry [] := by
  constructor <;> simp

theorem Gains.trans {calls later : List (Registration α)} (h : next.Gains registry calls)
    (hlater : final.Gains next later) : final.Gains registry (calls ++ later) where
  hasName name := by
    rw [hlater.hasName, h.hasName, List.flatMap_append, List.mem_append, or_left_comm, or_assoc]
  unit unit := by
    rw [hlater.unit, h.unit, List.map_append, List.mem_append, or_left_comm, or_assoc]
  baseUnit unit := by
    rw [hlater.baseUnit, h.baseUnit, List.flatMap_append, List.mem_append, or_left_comm, or_assoc]
  fundamentalNames := by
    rw [hlater.fundamentalNames, h.fundamentalNames, List.flatMap_append, List.append_assoc]
  composedNames := by
    rw [hlater.composedNames, h.composedNames, List.flatMap_append, List.append_assoc]

/-- The names of dimensions, and whether they are composed. -/
def namesAndKinds (registry : Registry α) : List (String × Bool) :=
  registry.dimensions.toList.map fun dimension => (dimension.name, dimension.isComposed)

theorem fundamentalNames_eq (registry : Registry α) :
    registry.fundamentalNames = (registry.namesAndKinds.filter (!·.2)).map Prod.fst := by
  rw [fundamentalNames, namesAndKinds, List.filter_map, List.map_map]
  rfl

theorem composedNames_eq (registry : Registry α) :
    registry.composedNames = (registry.namesAndKinds.filter (·.2)).map Prod.fst := by
  rw [composedNames, namesAndKinds, List.filter_map, List.map_map]
  rfl

/-- A unit more leaves the names and kinds of dimensions as they are. -/
theorem map_namesAndKinds_modify (dimensions : Array (Dimension α)) (id : Nat) (unit : String)
    (conversion : Conversion α) :
    (dimensions.modify id (·.addMultiple unit conversion)).toList.map
        (fun dimension => (dimension.name, dimension.isComposed)) =
      dimensions.toList.map fun dimension => (dimension.name, dimension.isComposed) := by
  apply List.ext_getElem?
  intro i
  simp only [List.getElem?_map, Array.getElem?_toList, Array.getElem?_modify]
  split
  · rw [Option.map_map]
    rfl
  · rfl

/-- What the registration refers to is in the registry or among the registrations before it. -/
def Supplies (registry : Registry α) (earlier : List (Registration α)) : Registration α → Prop
  | .fundamental _ _ => True
  | .composed _ _ reference _ => ∀ unit ∈ reference.symbols,
    unit ∈ earlier.flatMap (·.baseUnits) ∨ unit ∈ registry.fundamentalUnits
  | .multiple _ base _ => base ∈ earlier.map (·.unit) ∨ base ∈ registry.dimensionByUnit

theorem Gains.supplies_iff {calls : List (Registration α)} (h : next.Gains registry calls)
    (earlier : List (Registration α)) (registration : Registration α) :
    next.Supplies earlier registration ↔ registry.Supplies (calls ++ earlier) registration := by
  cases registration with
  | fundamental name unit => exact Iff.rfl
  | composed name unit reference conversion =>
    simp only [Supplies, h.baseUnit, List.flatMap_append, List.mem_append, or_left_comm, or_assoc]
  | multiple unit base conversion =>
    simp only [Supplies, h.unit, List.map_append, List.mem_append, or_left_comm, or_assoc]

/-- The name and the unit are new, and what the registration refers to is there. -/
structure Admits (registry : Registry α) (registration : Registration α) : Prop where
  name : ∀ name ∈ registration.names, ¬registry.HasName name
  unit : registration.unit ∉ registry.dimensionByUnit
  supplies : registry.Supplies [] registration

/-- The names and units are new and distinct, and what the registrations refer to is there in
    time. -/
structure AdmitsAll (registry : Registry α) (calls : List (Registration α)) : Prop where
  names : Fresh registry.HasName (calls.flatMap (·.names))
  units : Fresh (· ∈ registry.dimensionByUnit) (calls.map (·.unit))
  supplies : EachAfter registry.Supplies calls

theorem admitsAll_nil (registry : Registry α) : registry.AdmitsAll [] :=
  ⟨⟨List.nodup_nil, fun _ h => nomatch h⟩, ⟨List.nodup_nil, fun _ h => nomatch h⟩, eachAfter_nil⟩

/-- The first registration is judged by the registry, and the others by what it leaves. -/
theorem admitsAll_cons_iff {registration : Registration α} {calls : List (Registration α)}
    (h : next.Gains registry [registration]) :
    registry.AdmitsAll (registration :: calls) ↔
      registry.Admits registration ∧ next.AdmitsAll calls := by
  -- Names, units and references are judged apart, each by what the first call adds to them.
  have hnames : Fresh registry.HasName ((registration :: calls).flatMap (·.names)) ↔
      (∀ name ∈ registration.names, ¬registry.HasName name) ∧
        Fresh next.HasName (calls.flatMap (·.names)) := by
    rw [List.flatMap_cons, fresh_append_iff (by simpa using h.hasName)]
    exact and_congr_left' ⟨fun h => h.notTaken, fun h => ⟨registration.nodup_names, h⟩⟩
  have hunits : Fresh (· ∈ registry.dimensionByUnit) ((registration :: calls).map (·.unit)) ↔
      registration.unit ∉ registry.dimensionByUnit ∧
        Fresh (· ∈ next.dimensionByUnit) (calls.map (·.unit)) := by
    exact (fresh_append_iff h.unit).trans (and_congr_left' fresh_singleton_iff)
  have hsupplies : EachAfter registry.Supplies (registration :: calls) ↔
      registry.Supplies [] registration ∧ EachAfter next.Supplies calls := by
    have hsame : (fun earlier => registry.Supplies (registration :: earlier)) = next.Supplies :=
      funext fun earlier => funext fun call => propext (h.supplies_iff earlier call).symm
    rw [eachAfter_cons, hsame]
  constructor
  · rintro ⟨hname, hunit, hsupplied⟩
    obtain ⟨hfirst, hrest⟩ := hnames.1 hname
    obtain ⟨hfirst', hrest'⟩ := hunits.1 hunit
    obtain ⟨hsupplied, hsuppliedRest⟩ := hsupplies.1 hsupplied
    exact ⟨⟨hfirst, hfirst', hsupplied⟩, ⟨hrest, hrest', hsuppliedRest⟩⟩
  · rintro ⟨⟨hfirst, hfirst', hsupplied⟩, ⟨hrest, hrest', hsuppliedRest⟩⟩
    exact ⟨hnames.2 ⟨hfirst, hrest⟩, hunits.2 ⟨hfirst', hrest'⟩,
      hsupplies.2 ⟨hsupplied, hsuppliedRest⟩⟩

/-- In the empty registry no key is taken. -/
theorem admitsAll_empty_iff {calls : List (Registration α)} : empty.AdmitsAll calls ↔
    (calls.flatMap (·.names)).Nodup ∧ (calls.map (·.unit)).Nodup ∧
      EachAfter empty.Supplies calls := by
  have hname : ∀ name : String, ¬(empty : Registry α).HasName name :=
    fun name hname => hname.elim Std.HashMap.not_mem_empty Std.HashMap.not_mem_empty
  constructor
  · rintro ⟨⟨hnames, -⟩, ⟨hunits, -⟩, hsupplies⟩
    exact ⟨hnames, hunits, hsupplies⟩
  · rintro ⟨hnames, hunits, hsupplies⟩
    exact ⟨⟨hnames, fun name _ => hname name⟩, ⟨hunits, fun _ _ => Std.HashMap.not_mem_empty⟩,
      hsupplies⟩

/-! ## Registering one by one -/

theorem kind_of_checkNewName_eq_error {name : String} {cause : UnitError}
    (h : registry.checkNewName name = .error cause) : cause.kind = .registration := by
  rw [checkNewName] at h
  split at h <;> cases h
  rfl

theorem kind_of_checkNewUnit_eq_error {unit : String} {cause : UnitError}
    (h : registry.checkNewUnit unit = .error cause) : cause.kind = .registration := by
  rw [checkNewUnit] at h
  split at h <;> cases h
  rfl

theorem kind_of_checkReference_eq_error {reference : Factor} {cause : UnitError}
    (h : registry.checkReference reference = .error cause) : cause.kind = .registration := by
  rw [checkReference] at h
  split at h <;> cases h
  rfl

variable [Scalar α]

namespace WellFormed

/-- A registration is accepted just if its name and its unit are new and what it refers to is
    there. -/
theorem exists_register_iff (h : registry.WellFormed) {registration : Registration α} :
    (∃ next id, registry.register registration = .ok (next, id)) ↔
      registry.Admits registration := by
  constructor
  · rintro ⟨next, id, hregister⟩
    cases registration with
    | fundamental name unit =>
      obtain ⟨hname, hunit, -⟩ := of_addFundamental hregister
      exact ⟨fun _ hmem => List.mem_singleton.1 hmem ▸ not_or.2 hname, hunit, trivial⟩
    | composed name unit reference conversion =>
      obtain ⟨hname, hunit, hreference, -⟩ := of_addComposed hregister
      exact ⟨fun _ hmem => List.mem_singleton.1 hmem ▸ not_or.2 hname, hunit,
        fun unit hmem => .inr (hreference unit hmem)⟩
    | multiple unit base conversion =>
      obtain ⟨hunit, hbase, -⟩ := of_addMultiple hregister
      refine ⟨(fun _ hmem => nomatch hmem), hunit, .inr ?_⟩
      exact Std.HashMap.mem_iff_isSome_getElem?.2 (by rw [hbase]; rfl)
  · rintro ⟨hname, hunit, hsupplies⟩
    have hunitNew := checkNewUnit_eq_ok_iff.2 hunit
    cases registration with
    | fundamental name unit =>
      have hnameNew := checkNewName_eq_ok_iff.2 (not_or.1 (hname name List.mem_cons_self))
      exact ⟨_, _, bind_eq_ok_iff.2 ⟨(), hnameNew, bind_eq_ok_iff.2 ⟨(), hunitNew, rfl⟩⟩⟩
    | composed name unit reference conversion =>
      have hnameNew := checkNewName_eq_ok_iff.2 (not_or.1 (hname name List.mem_cons_self))
      have hreference : ∀ unit ∈ reference.symbols, unit ∈ registry.fundamentalUnits :=
        fun unit hmem => (hsupplies unit hmem).resolve_left (fun hnone => nomatch hnone)
      -- A reference over base units always has its dimensions, so no other error is left.
      obtain ⟨dimensions, hdimensions, -⟩ := h.exists_dimensionsOfUnits hreference
      exact ⟨_, _, bind_eq_ok_iff.2 ⟨(), hnameNew, bind_eq_ok_iff.2 ⟨(), hunitNew,
        bind_eq_ok_iff.2 ⟨(), checkReference_eq_ok_iff.2 hreference,
          bind_eq_ok_iff.2 ⟨dimensions, hdimensions, rfl⟩⟩⟩⟩⟩
    | multiple unit base conversion =>
      have hbase : base ∈ registry.dimensionByUnit :=
        hsupplies.resolve_left fun hnone => nomatch hnone
      have hid := Std.HashMap.getElem?_eq_some_getElem hbase
      have hchecked : registry.checkNewUnit unit = .ok () := hunitNew
      show ∃ next id, registry.addMultiple unit base conversion = .ok (next, id)
      rw [Registry.addMultiple, hchecked, hid]
      exact ⟨_, _, rfl⟩

/-- A registration that is refused is refused for what it registers. -/
theorem kind_of_register_eq_error (h : registry.WellFormed) {registration : Registration α}
    {cause : UnitError} (hregister : registry.register registration = .error cause) :
    cause.kind = .registration := by
  cases registration with
  | fundamental name unit =>
    rcases bind_eq_error_iff.1 hregister with hcheck | ⟨_, -, hregister⟩
    · exact kind_of_checkNewName_eq_error hcheck
    rcases bind_eq_error_iff.1 hregister with hcheck | ⟨_, -, hregister⟩
    · exact kind_of_checkNewUnit_eq_error hcheck
    · cases hregister
  | composed name unit reference conversion =>
    rcases bind_eq_error_iff.1 hregister with hcheck | ⟨_, -, hregister⟩
    · exact kind_of_checkNewName_eq_error hcheck
    rcases bind_eq_error_iff.1 hregister with hcheck | ⟨_, -, hregister⟩
    · exact kind_of_checkNewUnit_eq_error hcheck
    rcases bind_eq_error_iff.1 hregister with hcheck | ⟨_, hreference, hregister⟩
    · exact kind_of_checkReference_eq_error hcheck
    -- The reference has passed its check, so its dimensions are found.
    obtain ⟨dimensions, hdimensions, -⟩ :=
      h.exists_dimensionsOfUnits (checkReference_eq_ok_iff.1 hreference)
    rcases bind_eq_error_iff.1 hregister with hfail | ⟨_, -, hregister⟩
    · cases hdimensions.symm.trans hfail
    · cases hregister
  | multiple unit base conversion =>
    rcases bind_eq_error_iff.1 hregister with hcheck | ⟨_, -, hregister⟩
    · exact kind_of_checkNewUnit_eq_error hcheck
    split at hregister
    · cases hregister
      rfl
    · cases hregister

end WellFormed

/-- A registration leaves its names and its unit behind. -/
theorem gains_of_register {registration : Registration α} {id : Nat}
    (hregister : registry.register registration = .ok (next, id)) :
    next.Gains registry [registration] := by
  -- A table gains the key that is entered.
  have hinsert : ∀ (table : Std.HashMap String Nat) (added : Nat) (key other : String),
      other ∈ table.insert key added ↔ other ∈ [key] ∨ other ∈ table := by
    intro table added key other
    rw [Std.HashMap.mem_insert, beq_iff_eq, List.mem_singleton, eq_comm]
  have hnone : ∀ {p : Prop} (other : String), p ↔ other ∈ [] ∨ p := by simp
  cases registration with
  | fundamental name unit =>
    obtain ⟨-, -, rfl⟩ := of_addFundamental hregister
    refine ⟨fun other => ?_, fun other => hinsert _ _ _ _, fun other => ?_, ?_, ?_⟩
    · exact (or_congr_left (hinsert _ _ _ _)).trans or_assoc
    · rw [Std.HashSet.mem_insert, beq_iff_eq, eq_comm]
      exact or_congr_left List.mem_singleton.symm
    · simp [fundamentalNames, Registration.fundamentalNames]
    · simp [composedNames, Registration.composedNames]
  | composed name unit reference conversion =>
    obtain ⟨-, -, -, dimensions, -, rfl⟩ := of_addComposed hregister
    refine ⟨fun other => ?_, fun other => hinsert _ _ _ _, fun other => hnone other, ?_, ?_⟩
    · exact (or_congr_right (hinsert _ _ _ _)).trans or_left_comm
    · simp [fundamentalNames, Registration.fundamentalNames]
    · simp [composedNames, Registration.composedNames, List.filter_cons]
  | multiple unit base conversion =>
    obtain ⟨-, -, rfl⟩ := of_addMultiple hregister
    -- A multiple changes a dimension in its place and leaves its name and its kind.
    have hsame := map_namesAndKinds_modify registry.dimensions id unit conversion
    refine ⟨fun other => hnone other, fun other => hinsert _ _ _ _, fun other => hnone other,
      ?_, ?_⟩
    · rw [fundamentalNames_eq, fundamentalNames_eq, namesAndKinds, hsame]
      exact (List.append_nil _).symm
    · rw [composedNames_eq, composedNames_eq, namesAndKinds, hsame]
      exact (List.append_nil _).symm

/-! ## Registering all -/

theorem registerAll_cons_eq_ok_iff {registration : Registration α}
    {calls : List (Registration α)} :
    registry.registerAll (registration :: calls) = (final, .ok ()) ↔
      ∃ next id, registry.register registration = .ok (next, id) ∧
        next.registerAll calls = (final, .ok ()) := by
  rw [registerAll]
  cases registry.register registration with
  | ok result =>
    obtain ⟨next, id⟩ := result
    simp
  | error cause => simp

/-- What is accepted is what the calls leave that are made one by one. -/
theorem after_of_registerAll {calls : List (Registration α)}
    (h : registry.registerAll calls = (final, .ok ())) : registry.after calls = final := by
  induction calls generalizing registry with
  | nil =>
    cases h
    rfl
  | cons registration calls ih =>
    obtain ⟨next, id, hregister, hrest⟩ := registerAll_cons_eq_ok_iff.1 h
    have hcall : (registry.call registration).2 = next := by rw [call_eq, hregister]
    rw [after, List.foldl_cons, hcall]
    exact ih hrest

/-- What is accepted adds its names and units. -/
theorem gains_of_registerAll {calls : List (Registration α)}
    (h : registry.registerAll calls = (final, .ok ())) : final.Gains registry calls := by
  induction calls generalizing registry with
  | nil =>
    cases h
    exact .refl _
  | cons registration calls ih =>
    obtain ⟨next, id, hregister, hrest⟩ := registerAll_cons_eq_ok_iff.1 h
    exact (gains_of_register hregister).trans (ih hrest)

namespace WellFormed

theorem registerAll (h : registry.WellFormed) {calls : List (Registration α)}
    {outcome : Except UnitError Unit}
    (hcalls : registry.registerAll calls = (final, outcome)) : final.WellFormed := by
  -- Induction on the calls: a call that is refused leaves the registry, which is well-formed.
  induction calls generalizing registry with
  | nil =>
    cases hcalls
    exact h
  | cons registration calls ih =>
    rw [Registry.registerAll] at hcalls
    cases hregister : registry.register registration with
    | ok result =>
      rw [hregister] at hcalls
      exact ih (h.register hregister) hcalls
    | error cause =>
      rw [hregister] at hcalls
      cases hcalls
      exact h

/-- A list of registrations is accepted just if its names and units are new and distinct, and each
    of them finds what it refers to. -/
theorem exists_registerAll_iff (h : registry.WellFormed) {calls : List (Registration α)} :
    (∃ final, registry.registerAll calls = (final, .ok ())) ↔ registry.AdmitsAll calls := by
  -- Induction on the calls, for any registry: the first is judged by it and the others by what it
  -- leaves.
  induction calls generalizing registry with
  | nil => exact ⟨fun _ => admitsAll_nil registry, fun _ => ⟨registry, rfl⟩⟩
  | cons registration calls ih =>
    simp only [registerAll_cons_eq_ok_iff]
    constructor
    · rintro ⟨final, next, id, hregister, hrest⟩
      have hgains := gains_of_register hregister
      exact (admitsAll_cons_iff hgains).2 ⟨h.exists_register_iff.1 ⟨next, id, hregister⟩,
        (ih (h.register hregister)).1 ⟨final, hrest⟩⟩
    · intro hadmits
      have hfirst : registry.Admits registration :=
        ⟨fun name hmem => hadmits.names.notTaken name (List.mem_append_left _ hmem),
          hadmits.units.notTaken _ List.mem_cons_self, (eachAfter_cons.1 hadmits.supplies).1⟩
      obtain ⟨next, id, hregister⟩ := h.exists_register_iff.2 hfirst
      obtain ⟨-, hrest⟩ := (admitsAll_cons_iff (gains_of_register hregister)).1 hadmits
      obtain ⟨final, hfinal⟩ := (ih (h.register hregister)).2 hrest
      exact ⟨final, next, id, hregister, hfinal⟩

end WellFormed

/-- Registering stops at the first registration that is refused, with all before it in place. -/
theorem registerAll_eq_error_iff {calls : List (Registration α)} {cause : UnitError} :
    registry.registerAll calls = (final, .error cause) ↔
      ∃ done refused rest, calls = done ++ refused :: rest ∧
        registry.registerAll done = (final, .ok ()) ∧ final.register refused = .error cause := by
  constructor
  · intro h
    -- Induction on the calls: the first refuses, or one of the others does after it.
    induction calls generalizing registry with
    | nil => cases h
    | cons registration calls ih =>
      rw [registerAll] at h
      cases hregister : registry.register registration with
      | ok result =>
        rw [hregister] at h
        obtain ⟨done, refused, rest, rfl, hdone, hrefused⟩ := ih h
        exact ⟨registration :: done, refused, rest, rfl,
          registerAll_cons_eq_ok_iff.2 ⟨_, _, hregister, hdone⟩, hrefused⟩
      | error cause' =>
        rw [hregister] at h
        cases h
        exact ⟨[], registration, calls, rfl, rfl, hregister⟩
  · rintro ⟨done, refused, rest, rfl, hdone, hrefused⟩
    rw [registerAll_append, hdone]
    show final.registerAll (refused :: rest) = _
    rw [registerAll, hrefused]

end Registry

end UnitCheck
