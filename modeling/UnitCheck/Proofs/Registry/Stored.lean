import UnitCheck.Proofs.Factor.Text
import UnitCheck.Proofs.Json.Finite
import UnitCheck.Registry.Configuration

/-!
  Descriptions of registries are read back from their JSON, but for their numbers.

  Every entry is a record, so its names, units and reference factor are found again. The factor and
  the offset of a conversion become what is reread of them (`Conversion.reread`), and a whole
  description what is reread of its entries (`Configuration.ofText_valueText`). What was read from
  JSON has finite numbers, which are always reread, so its text is never refused
  (`Configuration.exists_reread`).
-/

namespace UnitCheck

open Json (Value IsPlain IsShort rereadNumber)
open Number (IsDigits)

/-! ## Entries -/

namespace Conversion

/-- The conversion that is read from what is written for a conversion. -/
def reread (conversion : Conversion Float) : Option (Conversion Float) := do
  return ⟨← rereadNumber conversion.factor, ← rereadNumber conversion.offset⟩

/-- The numbers of a conversion. -/
def numbers (conversion : Conversion Float) : List Float := [conversion.factor, conversion.offset]

theorem reread_eq_self_iff (conversion : Conversion Float) :
    conversion.reread = some conversion ↔ ∀ x ∈ conversion.numbers, rereadNumber x = some x := by
  obtain ⟨factor, offset⟩ := conversion
  rw [reread, numbers]
  cases hfactor : rereadNumber factor with
  | none => simp [hfactor]
  | some f =>
    cases hoffset : rereadNumber offset with
    | none => simp [hoffset]
    | some o => simp [hfactor, hoffset]

/-- A conversion of finite numbers is always reread. -/
theorem exists_reread {conversion : Conversion Float}
    (h : ∀ x ∈ conversion.numbers, x.isFinite = true) : ∃ read, conversion.reread = some read := by
  obtain ⟨factor, hfactor⟩ := Json.exists_rereadNumber (h conversion.factor (by simp [numbers]))
  obtain ⟨offset, hoffset⟩ := Json.exists_rereadNumber (h conversion.offset (by simp [numbers]))
  exact ⟨⟨factor, offset⟩, by rw [reread, hfactor, hoffset]; rfl⟩

/-- The conversions that JSON gives are of finite numbers. -/
theorem isFinite_of_ofFields? {factor offset : Option Value} {conversion : Conversion Float}
    (h : ofFields? factor offset = some conversion) :
    ∀ x ∈ conversion.numbers, x.isFinite = true := by
  simp only [ofFields?, Option.bind_eq_bind, Option.bind_eq_some_iff] at h
  obtain ⟨value, -, x, hx, y, hy, heq⟩ := h
  cases heq
  exact List.forall_mem_cons.2 ⟨Json.isFinite_of_value hx,
    List.forall_mem_singleton.2 (Json.isFinite_of_optionalFloat? hy)⟩

theorem ofFields?_ofFloat (conversion : Conversion Float) :
    ofFields? (some (.ofFloat conversion.factor)) (some (.ofFloat conversion.offset)) =
      conversion.reread := by
  rw [ofFields?, Json.optionalFloat?]
  simp only [Option.bind_eq_bind, Option.bind_some, Json.toFloat?_ofFloat]
  rfl

end Conversion

namespace FundamentalEntry

theorem ofJson?_toJson (entry : FundamentalEntry) : ofJson? entry.toJson = some entry := by
  rw [ofJson?, toJson, Json.fields_record]
  · rfl
  · rfl
  · decide

theorem isPlain_toJson (entry : FundamentalEntry) : IsPlain entry.toJson := by
  refine .record ?_
  simp [IsPlain.text]

end FundamentalEntry

namespace ComposedEntry

/-- The entry that is read from what is written for an entry. -/
def reread (entry : ComposedEntry Float) : Option (ComposedEntry Float) := do
  return { entry with conversion := ← entry.conversion.reread }

theorem exists_reread {entry : ComposedEntry Float}
    (h : ∀ x ∈ entry.conversion.numbers, x.isFinite = true) : ∃ read, entry.reread = some read := by
  obtain ⟨read, hread⟩ := Conversion.exists_reread h
  exact ⟨_, by rw [reread, hread]; rfl⟩

theorem isFinite_of_ofJson? {value : Value} {entry : ComposedEntry Float}
    (h : ofJson? value = some entry) : ∀ x ∈ entry.conversion.numbers, x.isFinite = true := by
  obtain ⟨fields, -, hentry⟩ := Option.bind_eq_some_iff.1 h
  split at hentry
  · simp only [Option.bind_eq_bind, Option.bind_eq_some_iff] at hentry
    obtain ⟨_, -, _, -, _, -, _, -, _, -, _, -, conversion, hconversion, hentry⟩ := hentry
    cases hentry
    exact Conversion.isFinite_of_ofFields? hconversion
  · cases hentry

theorem reread_eq_self_iff (entry : ComposedEntry Float) :
    entry.reread = some entry ↔ entry.conversion.reread = some entry.conversion := by
  obtain ⟨name, unit, reference, conversion⟩ := entry
  rw [reread]
  cases conversion.reread with
  | none => simp
  | some read => simp

/-- An entry whose reference factor is read back from its text is read back as it is reread. -/
theorem ofJson?_toJson {entry : ComposedEntry Float}
    (hreference : Factor.ofText entry.reference.text = .ok entry.reference) :
    ofJson? entry.toJson = entry.reread := by
  have hfactor : Factor.ofJson? entry.reference.toJson = some entry.reference := by
    rw [Factor.ofJson?, Factor.toJson]
    simp only [Value.text, Value.toText?, Option.bind_eq_bind, Option.bind_some, hreference]
    rfl
  rw [ofJson?, toJson, Json.fields_record]
  · simp only [Conversion.toMembers, List.cons_append, List.nil_append, List.map_cons,
      List.map_nil, Option.bind_eq_bind, Option.bind_some, Value.text, Value.toText?, hfactor,
      Conversion.ofFields?_ofFloat]
    rfl
  · rfl
  · decide

theorem isPlain_toJson (entry : ComposedEntry Float) : IsPlain entry.toJson := by
  refine .record ?_
  simp [IsPlain.text, Factor.toJson, Conversion.toMembers, Json.isPlain_ofFloat]

end ComposedEntry

namespace MultipleEntry

/-- The entry that is read from what is written for an entry. -/
def reread (entry : MultipleEntry Float) : Option (MultipleEntry Float) := do
  return { entry with conversion := ← entry.conversion.reread }

theorem exists_reread {entry : MultipleEntry Float}
    (h : ∀ x ∈ entry.conversion.numbers, x.isFinite = true) : ∃ read, entry.reread = some read := by
  obtain ⟨read, hread⟩ := Conversion.exists_reread h
  exact ⟨_, by rw [reread, hread]; rfl⟩

theorem isFinite_of_ofJson? {value : Value} {entry : MultipleEntry Float}
    (h : ofJson? value = some entry) : ∀ x ∈ entry.conversion.numbers, x.isFinite = true := by
  obtain ⟨fields, -, hentry⟩ := Option.bind_eq_some_iff.1 h
  split at hentry
  · simp only [Option.bind_eq_bind, Option.bind_eq_some_iff] at hentry
    obtain ⟨_, -, _, -, _, -, _, -, conversion, hconversion, hentry⟩ := hentry
    cases hentry
    exact Conversion.isFinite_of_ofFields? hconversion
  · cases hentry

theorem reread_eq_self_iff (entry : MultipleEntry Float) :
    entry.reread = some entry ↔ entry.conversion.reread = some entry.conversion := by
  obtain ⟨unit, base, conversion⟩ := entry
  rw [reread]
  cases conversion.reread with
  | none => simp
  | some read => simp

theorem ofJson?_toJson (entry : MultipleEntry Float) : ofJson? entry.toJson = entry.reread := by
  rw [ofJson?, toJson, Json.fields_record]
  · simp only [Conversion.toMembers, List.cons_append, List.nil_append, List.map_cons,
      List.map_nil, Option.bind_eq_bind, Option.bind_some, Value.text, Value.toText?,
      Conversion.ofFields?_ofFloat]
    rfl
  · rfl
  · decide

theorem isPlain_toJson (entry : MultipleEntry Float) : IsPlain entry.toJson := by
  refine .record ?_
  simp [IsPlain.text, Conversion.toMembers, Json.isPlain_ofFloat]

end MultipleEntry

/-! ## Descriptions -/

namespace Configuration

/-- The description that is read from what is written for a description. -/
def reread (configuration : Configuration Float) : Option (Configuration Float) := do
  return ⟨configuration.fundamental, ← configuration.composed.mapM ComposedEntry.reread,
    ← configuration.multiples.mapM MultipleEntry.reread⟩

/-- The reference factors of the description are read back from their texts. -/
def HasReferences (configuration : Configuration Float) : Prop :=
  ∀ entry ∈ configuration.composed, Factor.ofText entry.reference.text = .ok entry.reference

theorem isPlain_toJson (configuration : Configuration Float) : IsPlain configuration.toJson := by
  refine .record ?_
  simp only [List.forall_mem_cons, List.not_mem_nil, false_implies, implies_true, and_true]
  refine ⟨.array ?_, .array ?_, .array ?_⟩
  · exact List.forall_mem_map.2 fun entry _ => entry.isPlain_toJson
  · exact List.forall_mem_map.2 fun entry _ => entry.isPlain_toJson
  · exact List.forall_mem_map.2 fun entry _ => entry.isPlain_toJson

theorem ofJson?_toJson {configuration : Configuration Float}
    (h : configuration.HasReferences) :
    ofJson? configuration.toJson = configuration.reread := by
  -- The lists are read one by one, each by the reader of its entries.
  have hfundamental : Json.optionalList? FundamentalEntry.ofJson?
      (some (.array (configuration.fundamental.map FundamentalEntry.toJson))) =
        some configuration.fundamental := by
    rw [Json.optionalList?, Value.toList?, List.mapM_map, Json.mapM_eq_some (g := id)]
    · rw [List.map_id]
    · exact fun entry _ => entry.ofJson?_toJson
  have hcomposed : Json.optionalList? ComposedEntry.ofJson?
      (some (.array (configuration.composed.map ComposedEntry.toJson))) =
        configuration.composed.mapM ComposedEntry.reread := by
    rw [Json.optionalList?, Value.toList?, List.mapM_map]
    exact Json.mapM_congr fun entry hentry => ComposedEntry.ofJson?_toJson (h entry hentry)
  have hmultiples : Json.optionalList? MultipleEntry.ofJson?
      (some (.array (configuration.multiples.map MultipleEntry.toJson))) =
        configuration.multiples.mapM MultipleEntry.reread := by
    rw [Json.optionalList?, Value.toList?, List.mapM_map]
    exact Json.mapM_congr fun entry _ => entry.ofJson?_toJson
  rw [ofJson?, toJson, Json.fields_record]
  · simp only [List.map_cons, List.map_nil, Option.bind_eq_bind, Option.bind_some, hfundamental,
      hcomposed, hmultiples]
    rfl
  · rfl
  · decide

/-- A description whose reference factors are read back is read back as it is reread, on one line
    or on lines of its own, and refused if it has a number that is not reread at all. -/
theorem ofText_valueText {configuration : Configuration Float} (h : configuration.HasReferences)
    (layout : Json.Layout) : ofText (String.ofList (Json.valueText layout 0 configuration.toJson)) =
      match configuration.reread with
      | some read => .ok read
      | none => .error .configuration := by
  have hvalue : (Value.ofText (String.ofList
      (Json.valueText layout 0 configuration.toJson))).bind ofJson? = configuration.reread := by
    rw [Value.ofText_valueText configuration.isPlain_toJson, Option.bind_some, ofJson?_toJson h]
  cases hread : configuration.reread with
  | none => rw [ofText, hvalue, hread]
  | some read => rw [ofText, hvalue, hread]

/-! ## Descriptions that are accepted -/

/-- A factor that JSON gives is read back from its text. -/
theorem ofText_text_of_ofJson? {value : Value} {factor : Factor}
    (h : Factor.ofJson? value = some factor) : Factor.ofText factor.text = .ok factor := by
  obtain ⟨text, -, hread⟩ := Option.bind_eq_some_iff.1 h
  cases hresult : Factor.ofText text with
  | error cause =>
    rw [hresult] at hread
    cases hread
  | ok read =>
    rw [hresult] at hread
    cases hread
    exact Factor.ofText_text (Factor.isSymbol_of_ofText hresult)

theorem ofText_reference_of_ofJson? {value : Value} {entry : ComposedEntry Float}
    (h : ComposedEntry.ofJson? value = some entry) :
    Factor.ofText entry.reference.text = .ok entry.reference := by
  obtain ⟨fields, -, hentry⟩ := Option.bind_eq_some_iff.1 h
  split at hentry
  · simp only [Option.bind_eq_bind, Option.bind_eq_some_iff] at hentry
    obtain ⟨_, -, _, -, _, -, _, -, _, -, factor, hfactor, _, -, hentry⟩ := hentry
    cases hentry
    exact ofText_text_of_ofJson? hfactor
  · cases hentry

theorem hasReferences_of_ofJson? {value : Value} {configuration : Configuration Float}
    (h : ofJson? value = some configuration) : configuration.HasReferences := by
  obtain ⟨fields, -, hread⟩ := Option.bind_eq_some_iff.1 h
  split at hread
  · simp only [Option.bind_eq_bind, Option.bind_eq_some_iff] at hread
    obtain ⟨_, -, entries, hentries, _, -, hread⟩ := hread
    cases hread
    exact Json.forall_of_optionalList? hentries fun _ _ => ofText_reference_of_ofJson?
  · cases hread

/-- The numbers of a description: the factor and the offset of every conversion. -/
def numbers (configuration : Configuration Float) : List Float :=
  configuration.composed.flatMap (fun entry => entry.conversion.numbers) ++
    configuration.multiples.flatMap (fun entry => entry.conversion.numbers)

/-- The numbers that JSON gives are finite. -/
theorem isFinite_of_ofJson? {value : Value} {configuration : Configuration Float}
    (h : ofJson? value = some configuration) : ∀ x ∈ configuration.numbers, x.isFinite = true := by
  obtain ⟨fields, -, hread⟩ := Option.bind_eq_some_iff.1 h
  split at hread
  · simp only [Option.bind_eq_bind, Option.bind_eq_some_iff] at hread
    obtain ⟨_, -, composed, hcomposed, multiples, hmultiples, hread⟩ := hread
    cases hread
    rw [numbers, List.forall_mem_append, List.forall_mem_flatMap, List.forall_mem_flatMap]
    exact ⟨Json.forall_of_optionalList? hcomposed fun _ _ => ComposedEntry.isFinite_of_ofJson?,
      Json.forall_of_optionalList? hmultiples fun _ _ => MultipleEntry.isFinite_of_ofJson?⟩
  · cases hread

theorem exists_reread {configuration : Configuration Float}
    (h : ∀ x ∈ configuration.numbers, x.isFinite = true) :
    ∃ read, configuration.reread = some read := by
  rw [numbers, List.forall_mem_append, List.forall_mem_flatMap, List.forall_mem_flatMap] at h
  obtain ⟨composed, hcomposed⟩ := Json.exists_mapM fun entry hentry =>
    ComposedEntry.exists_reread (h.1 entry hentry)
  obtain ⟨multiples, hmultiples⟩ := Json.exists_mapM fun entry hentry =>
    MultipleEntry.exists_reread (h.2 entry hentry)
  exact ⟨_, by rw [reread, hcomposed, hmultiples]; rfl⟩

/-- What is read from a text is described by a value of JSON. -/
theorem exists_of_ofText {text : String} {configuration : Configuration Float}
    (h : ofText text = .ok configuration) : ∃ value, ofJson? value = some configuration := by
  unfold ofText at h
  split at h
  · next read hread =>
    cases h
    obtain ⟨value, -, hvalue⟩ := Option.bind_eq_some_iff.1 hread
    exact ⟨value, hvalue⟩
  · cases h

/-! ## Descriptions that are kept -/

theorem reread_eq_self_iff (configuration : Configuration Float) :
    configuration.reread = some configuration ↔
      ∀ x ∈ configuration.numbers, rereadNumber x = some x := by
  -- The lists are kept one by one.
  have hlists : configuration.reread = some configuration ↔
      configuration.composed.mapM ComposedEntry.reread = some configuration.composed ∧
        configuration.multiples.mapM MultipleEntry.reread = some configuration.multiples := by
    obtain ⟨fundamental, composed, multiples⟩ := configuration
    rw [reread]
    cases composed.mapM ComposedEntry.reread with
    | none => simp
    | some composed =>
      cases multiples.mapM MultipleEntry.reread with
      | none => simp
      | some multiples => simp
  rw [hlists, Json.mapM_eq_self_iff, Json.mapM_eq_self_iff]
  simp only [ComposedEntry.reread_eq_self_iff, MultipleEntry.reread_eq_self_iff,
    Conversion.reread_eq_self_iff, numbers, List.forall_mem_append, List.forall_mem_flatMap]

/-- The text of a number is short. -/
def HasShortText (x : Float) : Prop := ∃ chars, Json.numberText? x = some chars ∧ IsShort chars

/-- A description that was read is written as a text that is read again, as the description with
    each number reread. So it is kept if, and only if, every number of it is reread as it is; and
    that holds of numbers with short texts. -/
theorem ofText_text_of_accepted {text : String} {configuration : Configuration Float}
    (h : ofText text = .ok configuration) :
    ∃ read, configuration.reread = some read ∧ ofText configuration.text = .ok read ∧
      (read = configuration ↔ ∀ x ∈ configuration.numbers, rereadNumber x = some x) ∧
        ((∀ x ∈ configuration.numbers, HasShortText x) → read = configuration) := by
  obtain ⟨value, hvalue⟩ := exists_of_ofText h
  obtain ⟨read, hreread⟩ := exists_reread (isFinite_of_ofJson? hvalue)
  have hread := ofText_valueText (hasReferences_of_ofJson? hvalue) .pretty
  rw [hreread] at hread
  have hkept : read = configuration ↔ ∀ x ∈ configuration.numbers, rereadNumber x = some x := by
    rw [← reread_eq_self_iff, hreread, Option.some.injEq]
  refine ⟨read, hreread, hread, hkept, fun hshort => hkept.2 fun x hx => ?_⟩
  obtain ⟨chars, htext, hchars⟩ := hshort x hx
  exact Json.rereadNumber_of_isShort htext hchars

/-- A length, its square and a multiple. -/
def grounds : Configuration Float where
  fundamental := [⟨"length", "m"⟩]
  composed := [⟨"area", "m2", Factor.power "m" ⟨2, by decide, by decide⟩, ⟨1.0, 0.0⟩⟩]
  multiples := [⟨"km", "m", ⟨1000.0, 0.0⟩⟩]

theorem hasReferences_grounds : grounds.HasReferences := by
  intro entry hentry
  obtain rfl := List.mem_singleton.1 hentry
  refine Factor.ofText_text fun symbol hsymbol => ?_
  obtain rfl : symbol = "m" := List.mem_singleton.1 hsymbol
  have hchar : Factor.isSymbolChar 'm' = true := by cbv
  exact ⟨⟨'m', [], rfl, rfl⟩, List.forall_mem_singleton.2 hchar⟩

theorem hasShortText_grounds : ∀ x ∈ grounds.numbers, HasShortText x := by
  -- Each number is an integer, written with a zero after the point.
  have hinteger : ∀ {x : Float} {whole : List Char},
      Json.numberText? x = some (whole ++ ['.', '0']) → IsDigits whole →
        Json.digitsOf whole ['.', '0'] < 2 ^ 53 → HasShortText x := by
    intro x whole htext hwhole hdigits
    refine ⟨[] ++ (whole ++ (['.', '0'] ++ [])), by rw [htext]; simp, ?_⟩
    exact .intro (.inl rfl) hwhole (.inr ⟨['0'], rfl, by simp [IsDigits]⟩) (.inl ⟨rfl, rfl⟩)
      hdigits (by decide) (by decide)
  have hzero : HasShortText 0.0 :=
    @hinteger _ ['0'] (by decide +kernel) (by simp [IsDigits]) (by decide)
  have hone : HasShortText 1.0 :=
    @hinteger _ ['1'] (by decide +kernel) (by simp [IsDigits]) (by decide)
  have hthousand : HasShortText 1000.0 :=
    @hinteger _ ['1', '0', '0', '0'] (by decide +kernel) (by simp [IsDigits]) (by decide)
  intro x hx
  have hmem : x = 1.0 ∨ x = 0.0 ∨ x = 1000.0 ∨ x = 0.0 := by
    simpa [grounds, numbers, Conversion.numbers, or_assoc] using hx
  obtain rfl | rfl | rfl | rfl := hmem
  · exact hone
  · exact hzero
  · exact hthousand
  · exact hzero

theorem ofText_text_of_accepted_grounds :
    ofText grounds.toJson.compact = .ok grounds ∧ (∀ x ∈ grounds.numbers, HasShortText x) ∧
      ofText grounds.text = .ok grounds := by
  have hnumbers : ∀ x ∈ grounds.numbers, rereadNumber x = some x := by decide +kernel
  have haccepted : ofText grounds.toJson.compact = .ok grounds := by
    rw [Value.compact, ofText_valueText hasReferences_grounds,
      (reread_eq_self_iff grounds).2 hnumbers]
  obtain ⟨read, -, hread, -, hshort⟩ := ofText_text_of_accepted haccepted
  rw [hshort hasShortText_grounds] at hread
  exact ⟨haccepted, hasShortText_grounds, hread⟩

/-- A length with a multiple of a given size. -/
def grains (factor : Float) : Configuration Float where
  fundamental := [⟨"length", "m"⟩]
  composed := []
  multiples := [⟨"qm", "m", ⟨factor, 0.0⟩⟩]

/-- The numbers next to each other are each written as the shortest decimal that it is the nearest
    number to, and each is read as the other. -/
theorem grains_not_kept :
    ofText (grains 1e-30).text = .ok (grains 9.999999999999999e-31) ∧
      ofText (grains 9.999999999999999e-31).text = .ok (grains 1e-30) ∧
        grains 9.999999999999999e-31 ≠ grains 1e-30 := by
  have hreferences : ∀ factor, (grains factor).HasReferences := by
    intro factor entry hentry
    exact absurd hentry List.not_mem_nil
  have hzero : rereadNumber 0.0 = some 0.0 := by decide +kernel
  -- Only the factor is a number that the reader may change.
  have hreread : ∀ {factor read : Float}, rereadNumber factor = some read →
      ofText (grains factor).text = .ok (grains read) := by
    intro factor read hread
    rw [Configuration.text, Value.pretty, ofText_valueText (hreferences factor)]
    simp only [reread, grains, List.mapM_nil, List.mapM_cons, MultipleEntry.reread,
      Conversion.reread, hread, hzero]
    rfl
  refine ⟨hreread (by decide +kernel), hreread (by decide +kernel), fun heq => ?_⟩
  simp only [grains, mk.injEq, List.cons.injEq, MultipleEntry.mk.injEq, Conversion.mk.injEq] at heq
  have hne : (9.999999999999999e-31 : Float) ≠ 1e-30 := by decide +kernel
  exact hne heq.2.2.1.2.2.1

end Configuration

end UnitCheck
