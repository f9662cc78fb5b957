import UnitCheck.Json.Record
import UnitCheck.Proofs.Json.Value

/-!
  Records of JSON are read back.

  An object whose keys are distinct has one value for each of them, so the fields of a record are
  those that were written (`fields_record`). A floating-point number is written by its shortest
  decimal, and what is read from that need not be the number: the digits and the power of ten are
  rounded apart (`rereadNumber`).
-/

namespace UnitCheck.Json

/-! ## Fields -/

theorem valuesOf_eq_nil {members : List (String × Value)} {key : String}
    (h : key ∉ members.map Prod.fst) : valuesOf members key = [] := by
  rw [valuesOf, List.map_eq_nil_iff, List.filter_eq_nil_iff]
  intro member hmember
  simpa using fun heq : member.1 = key => h (List.mem_map.2 ⟨member, hmember, heq⟩)

/-- A key that occurs once has one value. -/
theorem valuesOf_of_nodup {members : List (String × Value)} (h : (members.map Prod.fst).Nodup)
    {member : String × Value} (hmember : member ∈ members) :
    valuesOf members member.1 = [member.2] := by
  induction members with
  | nil => cases hmember
  | cons first members ih =>
    rw [List.map_cons, List.nodup_cons] at h
    obtain rfl | hmember := List.mem_cons.1 hmember
    · have hrest := valuesOf_eq_nil h.1
      rw [valuesOf] at hrest ⊢
      rw [List.filter_cons_of_pos (by simp), List.map_cons, hrest]
    -- The first member has another key, for the keys are different.
    · have hne : first.1 ≠ member.1 := fun heq =>
        h.1 (heq ▸ List.mem_map_of_mem hmember)
      have hrest := ih h.2 hmember
      rw [valuesOf] at hrest ⊢
      rw [List.filter_cons_of_neg (by simpa using hne), hrest]

/-- What succeeds on each entry of a list succeeds on the list. -/
theorem mapM_eq_some {α β : Type} {f : α → Option β} {g : α → β} {entries : List α}
    (h : ∀ entry ∈ entries, f entry = some (g entry)) :
    entries.mapM f = some (entries.map g) := by
  induction entries with
  | nil => rfl
  | cons entry entries ih =>
    rw [List.mapM_cons, h entry List.mem_cons_self,
      ih fun other hother => h other (List.mem_cons_of_mem entry hother)]
    rfl

theorem mapM_congr {α β : Type} {f g : α → Option β} {entries : List α}
    (h : ∀ entry ∈ entries, f entry = g entry) : entries.mapM f = entries.mapM g := by
  induction entries with
  | nil => rfl
  | cons entry entries ih =>
    rw [List.mapM_cons, List.mapM_cons, h entry List.mem_cons_self,
      ih fun other hother => h other (List.mem_cons_of_mem entry hother)]

theorem exists_mapM {α β : Type} {f : α → Option β} {entries : List α}
    (h : ∀ entry ∈ entries, ∃ result, f entry = some result) :
    ∃ results, entries.mapM f = some results := by
  induction entries with
  | nil => exact ⟨[], rfl⟩
  | cons entry entries ih =>
    obtain ⟨first, hfirst⟩ := h entry List.mem_cons_self
    obtain ⟨rest, hrest⟩ := ih fun other hother => h other (List.mem_cons_of_mem entry hother)
    exact ⟨first :: rest, by rw [List.mapM_cons, hfirst, hrest]; rfl⟩

/-- A list is what is made of its entries if each entry is what is made of it. -/
theorem mapM_eq_self_iff {α : Type} {f : α → Option α} {entries : List α} :
    entries.mapM f = some entries ↔ ∀ entry ∈ entries, f entry = some entry := by
  induction entries with
  | nil => simp
  | cons entry entries ih =>
    rw [List.mapM_cons, List.forall_mem_cons, ← ih]
    cases f entry with
    | none => simp
    | some first =>
      cases entries.mapM f with
      | none => simp
      | some rest => simp

theorem textMembers_map (members : List (String × Value)) :
    textMembers (members.map fun (key, value) => (some key, value)) = some members := by
  rw [textMembers, List.mapM_map, mapM_eq_some (g := id)]
  · rw [List.map_id]
  · rintro ⟨key, value⟩ -
    rfl

/-- The fields of a record are the values that it was made of. -/
theorem fields_record {keys : List String} {members : List (String × Value)}
    (hkeys : keys = members.map Prod.fst) (hnodup : keys.Nodup) :
    fields keys (.record members) = some (members.map fun member => some member.2) := by
  subst hkeys
  rw [Value.record, fields, textMembers_map]
  simp only [Option.bind_eq_bind, Option.bind_some]
  rw [List.mapM_map]
  refine mapM_eq_some fun member hmember => ?_
  rw [Function.comp_apply, valuesOf_of_nodup hnodup hmember]

/-! ## Lists -/

theorem forall_of_mapM {α β : Type} {f : α → Option β} {P : β → Prop} {entries : List α}
    {results : List β} (h : entries.mapM f = some results)
    (hP : ∀ entry result, f entry = some result → P result) : ∀ result ∈ results, P result := by
  induction entries generalizing results with
  | nil =>
    cases h
    simp
  | cons entry entries ih =>
    rw [List.mapM_cons] at h
    obtain ⟨first, hfirst, h⟩ := Option.bind_eq_some_iff.1 h
    obtain ⟨rest, hrest, h⟩ := Option.bind_eq_some_iff.1 h
    cases h
    exact List.forall_mem_cons.2 ⟨hP entry first hfirst, ih hrest⟩

/-- What holds of whatever is read from an item holds of the entries of a list field. -/
theorem forall_of_optionalList? {α : Type} {read : Value → Option α} {P : α → Prop}
    {field : Option Value} {entries : List α} (h : optionalList? read field = some entries)
    (hP : ∀ item entry, read item = some entry → P entry) : ∀ entry ∈ entries, P entry := by
  cases field with
  -- a list that is not given is empty
  | none =>
    cases h
    simp
  | some value =>
    cases value with
    | array items => exact forall_of_mapM h hP
    | _ => cases h

/-! ## Numbers -/

/-- The number that is read from what is written for a number. -/
def rereadNumber (x : Float) : Option Float := (numberText? x).bind toFloat?

theorem toFloat?_ofFloat (x : Float) : (Value.ofFloat x).toFloat? = rereadNumber x := by
  unfold Value.ofFloat rereadNumber
  cases numberText? x with
  | none => rfl
  | some chars => rfl

theorem isPlain_ofFloat (x : Float) : IsPlain (.ofFloat x) := by
  unfold Value.ofFloat
  split
  · next heq => exact .number (isNumber_of_numberText? heq)
  · exact .null

end UnitCheck.Json
