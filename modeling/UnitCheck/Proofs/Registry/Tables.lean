import Mathlib.Tactic.ByContra
import Std.Data.HashMap.Lemmas
import UnitCheck.Registry.Basic

/-!
  Tables that find dimensions.

  The tables of names and the index of units find dimensions by keys (`Finds`): every entry leads
  to a dimension of its key, and every key of a dimension has its entry. Dimensions are appended
  or changed, and a key is entered for it when the dimension gets it.
-/

namespace UnitCheck

variable {α : Type}

/-- The table leads from every key of a dimension to this dimension, and from nowhere else. -/
def Finds (table : Std.HashMap String Nat) (dimensions : Array (Dimension α))
    (Key : Dimension α → String → Prop) : Prop :=
  ∀ key id, table[key]? = some id ↔
    ∃ dimension, dimensions[id]? = some dimension ∧ Key dimension key

theorem getElem?_push_eq_some_iff {dimensions : Array (Dimension α)} {dimension found : Dimension α}
    {id : Nat} : (dimensions.push dimension)[id]? = some found ↔
      dimensions[id]? = some found ∨ id = dimensions.size ∧ found = dimension := by
  rw [Array.getElem?_push]
  by_cases hid : id = dimensions.size
  · subst hid
    simp [eq_comm]
  · simp [hid]

theorem getElem?_modify_eq_some_iff {dimensions : Array (Dimension α)} {found : Dimension α}
    {change : Dimension α → Dimension α} {id changed : Nat} :
    (dimensions.modify changed change)[id]? = some found ↔
      ∃ before, dimensions[id]? = some before ∧
        found = if id = changed then change before else before := by
  rw [Array.getElem?_modify]
  by_cases hid : changed = id
  · rw [if_pos hid, Option.map_eq_some_iff]
    simp [hid, eq_comm]
  · simp [hid, Ne.symm hid, eq_comm]

/-- The dimension in one place after one was appended. -/
theorem exists_push_at_iff {dimensions : Array (Dimension α)} (dimension : Dimension α)
    {P : Dimension α → Prop} {id : Nat} :
    (∃ found, (dimensions.push dimension)[id]? = some found ∧ P found) ↔
      (∃ found, dimensions[id]? = some found ∧ P found) ∨ id = dimensions.size ∧ P dimension := by
  simp only [getElem?_push_eq_some_iff, or_and_right, exists_or]
  refine or_congr_right ⟨?_, ?_⟩
  · rintro ⟨_, ⟨hid, rfl⟩, h⟩
    exact ⟨hid, h⟩
  · rintro ⟨hid, h⟩
    exact ⟨dimension, ⟨hid, rfl⟩, h⟩

/-- Some dimension after one was appended. -/
theorem exists_push_iff {dimensions : Array (Dimension α)} (dimension : Dimension α)
    {P : Dimension α → Prop} :
    (∃ (id : Nat) (found : Dimension α), (dimensions.push dimension)[id]? = some found ∧ P found) ↔
      (∃ (id : Nat) (found : Dimension α), dimensions[id]? = some found ∧ P found) ∨
        P dimension := by
  simp only [exists_push_at_iff, exists_or, exists_eq_left]

/-- All dimensions after one was appended. -/
theorem forall_push {dimensions : Array (Dimension α)} {dimension : Dimension α}
    {P : Dimension α → Prop}
    (h : ∀ (id : Nat) (found : Dimension α), dimensions[id]? = some found → P found)
    (hnew : P dimension) (id : Nat) (found : Dimension α)
    (hfound : (dimensions.push dimension)[id]? = some found) : P found := by
  rcases getElem?_push_eq_some_iff.1 hfound with hfound | ⟨-, rfl⟩
  · exact h id found hfound
  · exact hnew

/-- The dimension in one place after one was changed. -/
theorem exists_modify_at_iff {dimensions : Array (Dimension α)}
    {change : Dimension α → Dimension α} {P : Dimension α → Prop} {id changed : Nat} :
    (∃ found, (dimensions.modify changed change)[id]? = some found ∧ P found) ↔
      ∃ before, dimensions[id]? = some before ∧
        P (if id = changed then change before else before) := by
  simp only [getElem?_modify_eq_some_iff]
  constructor
  · rintro ⟨_, ⟨before, hbefore, rfl⟩, h⟩
    exact ⟨before, hbefore, h⟩
  · rintro ⟨before, hbefore, h⟩
    exact ⟨_, ⟨before, hbefore, rfl⟩, h⟩

/-- The dimension in one place after one was changed in a way that does not matter. -/
theorem exists_modify_at_iff_of_keeps {dimensions : Array (Dimension α)}
    {change : Dimension α → Dimension α} {P : Dimension α → Prop}
    (hchange : ∀ dimension, P (change dimension) ↔ P dimension) {id changed : Nat} :
    (∃ found, (dimensions.modify changed change)[id]? = some found ∧ P found) ↔
      ∃ found, dimensions[id]? = some found ∧ P found := by
  rw [exists_modify_at_iff]
  refine exists_congr fun before => and_congr_right fun _ => ?_
  split
  · exact hchange before
  · rfl

/-- Some dimension after one was changed in a way that does not matter. -/
theorem exists_modify_iff {dimensions : Array (Dimension α)} {change : Dimension α → Dimension α}
    {P : Dimension α → Prop} (hchange : ∀ dimension, P (change dimension) ↔ P dimension)
    (changed : Nat) :
    (∃ (id : Nat) (found : Dimension α),
        (dimensions.modify changed change)[id]? = some found ∧ P found) ↔
      ∃ (id : Nat) (found : Dimension α), dimensions[id]? = some found ∧ P found :=
  exists_congr fun _ => exists_modify_at_iff_of_keeps hchange

/-- All dimensions after one was changed. -/
theorem forall_modify {dimensions : Array (Dimension α)} (change : Dimension α → Dimension α)
    {P : Dimension α → Prop}
    (h : ∀ (id : Nat) (found : Dimension α), dimensions[id]? = some found →
      P found ∧ P (change found)) (changed id : Nat) (found : Dimension α)
    (hfound : (dimensions.modify changed change)[id]? = some found) : P found := by
  obtain ⟨before, hbefore, rfl⟩ := getElem?_modify_eq_some_iff.1 hfound
  split
  · exact (h id before hbefore).2
  · exact (h id before hbefore).1

/-- A new entry leaves the others. -/
theorem getElem?_insert_of_notMem {table : Std.HashMap String Nat} {new key : String} {id : Nat}
    (hnew : new ∉ table) (h : table[key]? = some id) (other : Nat) :
    (table.insert new other)[key]? = some id := by
  rw [Std.HashMap.getElem?_insert, if_neg, h]
  intro hsame
  obtain rfl := eq_of_beq hsame
  rw [Std.HashMap.getElem?_eq_none hnew] at h
  cases h

namespace Finds

variable {table : Std.HashMap String Nat} {dimensions : Array (Dimension α)}
  {Key : Dimension α → String → Prop}

/-- An entry refers to a dimension that exists. -/
theorem lt_size (h : Finds table dimensions Key) {key : String} {id : Nat}
    (hid : table[key]? = some id) : id < dimensions.size := by
  obtain ⟨dimension, hdimension, -⟩ := (h key id).1 hid
  exact (Array.getElem?_eq_some_iff.1 hdimension).1

/-- No two dimensions have a key in common. -/
theorem eq_of_key (h : Finds table dimensions Key) {id other : Nat} {dimension found : Dimension α}
    {key : String} (hdimension : dimensions[id]? = some dimension) (hkey : Key dimension key)
    (hfound : dimensions[other]? = some found) (hkey' : Key found key) : id = other := by
  have hid := (h key id).2 ⟨dimension, hdimension, hkey⟩
  have hother := (h key other).2 ⟨found, hfound, hkey'⟩
  rw [hid] at hother
  exact Option.some.inj hother

/-- No dimension has a key without an entry. -/
theorem not_key (h : Finds table dimensions Key) {key : String} (hkey : key ∉ table) {id : Nat}
    {dimension : Dimension α} (hdimension : dimensions[id]? = some dimension) :
    ¬Key dimension key := by
  intro hof
  have hid := (h key id).2 ⟨dimension, hdimension, hof⟩
  rw [Std.HashMap.getElem?_eq_none hkey] at hid
  cases hid

/-- A dimension without keys is appended. -/
theorem push_of_forall_not (h : Finds table dimensions Key) {dimension : Dimension α}
    (hkey : ∀ key, ¬Key dimension key) : Finds table (dimensions.push dimension) Key := by
  intro key id
  rw [h, exists_push_at_iff]
  exact (or_iff_left fun hlast => hkey key hlast.2).symm

/-- A dimension with one key, which is new, is appended and entered. -/
theorem push_insert (h : Finds table dimensions Key) {dimension : Dimension α} {new : String}
    (hnew : new ∉ table) (hkey : ∀ key, Key dimension key ↔ key = new) :
    Finds (table.insert new dimensions.size) (dimensions.push dimension) Key := by
  intro key id
  rw [Std.HashMap.getElem?_insert, exists_push_at_iff, hkey]
  by_cases hsame : new = key
  · subst hsame
    have hother : ¬∃ found, dimensions[id]? = some found ∧ Key found new :=
      fun ⟨_, hfound, hkey'⟩ => h.not_key hnew hfound hkey'
    rw [if_pos (beq_self_eq_true new), Option.some.injEq, or_iff_right hother,
      and_iff_left rfl, eq_comm]
  · rw [if_neg (by simpa using hsame), h]
    exact (or_iff_left fun hlast => hsame hlast.2.symm).symm

/-- A change that keeps the keys of a dimension. -/
theorem modify (h : Finds table dimensions Key) {change : Dimension α → Dimension α}
    (hchange : ∀ dimension key, Key (change dimension) key ↔ Key dimension key) (id : Nat) :
    Finds table (dimensions.modify id change) Key := by
  intro key other
  rw [h]
  exact (exists_modify_at_iff_of_keeps fun dimension => hchange dimension key).symm

/-- A dimension gets one key more, which is new and is entered for it. -/
theorem modify_insert (h : Finds table dimensions Key) {change : Dimension α → Dimension α}
    {new : String} {id : Nat} (hid : id < dimensions.size) (hnew : new ∉ table)
    (hchange : ∀ dimension key, Key (change dimension) key ↔ Key dimension key ∨ key = new) :
    Finds (table.insert new id) (dimensions.modify id change) Key := by
  intro key other
  rw [Std.HashMap.getElem?_insert]
  by_cases hsame : new = key
  · subst hsame
    rw [if_pos (beq_self_eq_true new), Option.some.injEq, exists_modify_at_iff]
    constructor
    · rintro rfl
      refine ⟨_, Array.getElem?_eq_getElem hid, ?_⟩
      rw [if_pos rfl]
      exact (hchange _ new).2 (.inr rfl)
    · rintro ⟨before, hbefore, hkey⟩
      -- Any other dimension had the new key before, without an entry.
      by_contra hne
      rw [if_neg (Ne.symm hne)] at hkey
      exact h.not_key hnew hbefore hkey
  · rw [if_neg (by simpa using hsame), h]
    -- For the other keys the change does not matter.
    refine (exists_modify_at_iff_of_keeps fun dimension => ?_).symm
    rw [hchange, or_iff_left (Ne.symm hsame)]

end Finds

end UnitCheck
