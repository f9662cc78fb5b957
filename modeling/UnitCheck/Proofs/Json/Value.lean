import UnitCheck.Json.Reader
import UnitCheck.Json.Writer
import UnitCheck.Proofs.Json.Number
import UnitCheck.Proofs.Json.Text

/-!
  A JSON value is read back from its text.

  The first character that is no blank tells which kind of value is written, and what stands after
  a value, a comma or a line's end or a closing mark, goes on with none. So a value is read with
  its layout, whatever follows (`IsReread`): arrays and objects by induction over their parts
  (`readItems_of_isReread`, `readMembers_of_isReread`), values by induction over what makes them
  plain (`IsPlain.isReread`).
-/

namespace UnitCheck.Json

/-! ## Readers -/

/-- A reader gives a value and leaves a text. -/
def Reads {α : Type} {cs : List Char} (read : Option (Read α cs)) (value : α)
    (rest : List Char) : Prop :=
  ∃ r, read = some r ∧ r.value = value ∧ r.rest = rest

theorem skipSpaces_append {blanks : List Char} (h : ∀ c ∈ blanks, isSpace c = true)
    (cs : List Char) : skipSpaces (blanks ++ cs) = skipSpaces cs :=
  List.dropWhile_append_of_pos h

theorem skipSpaces_cons {c : Char} (h : isSpace c = false) (cs : List Char) :
    skipSpaces (c :: cs) = c :: cs :=
  List.dropWhile_cons_of_neg (by simp [h])

theorem readMark_of_skipSpaces {mark : Char} {cs rest : List Char}
    (h : skipSpaces cs = mark :: rest) : Reads (readMark mark cs) () rest := by
  unfold readMark
  split
  · next heq =>
    rw [h] at heq
    cases heq
  · next c ds heq =>
    rw [h] at heq
    cases heq
    rw [if_pos rfl]
    exact ⟨_, rfl, rfl, rfl⟩

theorem readMark_eq_none {mark c : Char} {cs ds : List Char} (h : skipSpaces cs = c :: ds)
    (hc : c ≠ mark) : readMark mark cs = none := by
  unfold readMark
  split
  · rfl
  · next heq =>
    rw [h] at heq
    cases heq
    exact if_neg hc

theorem readText_of_skipSpaces {s : String} {cs rest : List Char}
    (h : skipSpaces cs = stringText s.toList ++ rest) : Reads (readText cs) (some s) rest := by
  obtain ⟨after, hafter, hread⟩ := readString_stringText s.toList rest
  rw [hafter] at h
  obtain ⟨mark, hmark, -, rfl⟩ := readMark_of_skipSpaces h
  rw [readText, hmark]
  simp only [Option.bind_eq_bind, Option.bind_some]
  split
  · next heq =>
    rw [hread] at heq
    cases heq
  · next text after heq =>
    obtain ⟨rfl, rfl⟩ := Prod.mk.inj (Option.some.inj (hread.symm.trans heq))
    exact ⟨_, rfl, congrArg some String.ofList_toList, rfl⟩

theorem readText_eq_none {c : Char} {cs ds : List Char} (h : skipSpaces cs = c :: ds)
    (hc : c ≠ '"') : readText cs = none := by
  rw [readText, readMark_eq_none h hc]
  rfl

theorem readWord_append (word rest : List Char) (h : 0 < word.length) :
    Reads (readWord word (word ++ rest) h) () rest := by
  rw [readWord, dif_pos (List.prefix_append word rest)]
  exact ⟨_, rfl, rfl, List.drop_left⟩

theorem readWord_eq_none {c d : Char} (hne : d ≠ c) (word cs : List Char) :
    readWord (c :: word) (d :: cs) (Nat.succ_pos _) = none := by
  rw [readWord, dif_neg]
  rintro ⟨rest, heq⟩
  cases heq
  exact hne rfl

theorem readAtom_null (rest : List Char) :
    Reads (readAtom ('n' :: 'u' :: 'l' :: 'l' :: rest)) .null rest := by
  have hnull : Reads (readWord ['n', 'u', 'l', 'l'] ('n' :: 'u' :: 'l' :: 'l' :: rest)
      (by decide)) () rest := readWord_append _ rest _
  obtain ⟨word, hword, -, hrest⟩ := hnull
  rw [readAtom, hword]
  exact ⟨_, rfl, rfl, hrest⟩

theorem readAtom_true (rest : List Char) :
    Reads (readAtom ('t' :: 'r' :: 'u' :: 'e' :: rest)) (.bool true) rest := by
  have htrue : Reads (readWord ['t', 'r', 'u', 'e'] ('t' :: 'r' :: 'u' :: 'e' :: rest)
      (by decide)) () rest := readWord_append _ rest _
  obtain ⟨word, hword, -, hrest⟩ := htrue
  rw [readAtom, readWord_eq_none (by decide), hword]
  exact ⟨_, rfl, rfl, hrest⟩

theorem readAtom_false (rest : List Char) :
    Reads (readAtom ('f' :: 'a' :: 'l' :: 's' :: 'e' :: rest)) (.bool false) rest := by
  have hfalse : Reads (readWord ['f', 'a', 'l', 's', 'e'] ('f' :: 'a' :: 'l' :: 's' :: 'e' :: rest)
      (by decide)) () rest := readWord_append _ rest _
  obtain ⟨word, hword, -, hrest⟩ := hfalse
  rw [readAtom, readWord_eq_none (by decide), readWord_eq_none (by decide), hword]
  exact ⟨_, rfl, rfl, hrest⟩

theorem readAtom_number {chars rest : List Char} (h : IsNumber chars) (hrest : EndsNumber rest) :
    Reads (readAtom (chars ++ rest)) (.number chars) rest := by
  have hnumber : Reads (readNumber (chars ++ rest)) (.number chars) rest := by
    have hread := readNumber?_of_isNumber h hrest
    unfold readNumber
    split
    · next heq =>
      obtain ⟨rfl, rfl⟩ := Prod.mk.inj (Option.some.inj (hread.symm.trans heq))
      exact ⟨_, rfl, rfl, rfl⟩
    · next heq =>
      rw [hread] at heq
      cases heq
  obtain ⟨c, cs, rfl, hc⟩ := h.head
  -- None of the words starts with a digit or a minus sign.
  have hwords : c ≠ 'n' ∧ c ≠ 't' ∧ c ≠ 'f' := by
    obtain hc | rfl := hc
    · exact Number.forall_digit (P := fun c => c ≠ 'n' ∧ c ≠ 't' ∧ c ≠ 'f') (by decide) hc
    · decide
  rw [List.cons_append] at hnumber ⊢
  rw [readAtom, readWord_eq_none hwords.1, readWord_eq_none hwords.2.1,
    readWord_eq_none hwords.2.2]
  exact hnumber

/-- What starts with none of the marks of arrays, objects and strings is an atom. -/
theorem readValue_of_readAtom {c : Char} {cs ds rest : List Char} {value : Value}
    (h : skipSpaces cs = c :: ds) (harray : c ≠ '[') (hobject : c ≠ '\x7b') (htext : c ≠ '"')
    (hatom : Reads (readAtom (skipSpaces cs)) value rest) : Reads (readValue cs) value rest := by
  obtain ⟨atom, hatom, rfl, rfl⟩ := hatom
  rw [readValue, readMark_eq_none h harray]
  dsimp only
  rw [readMark_eq_none h hobject]
  dsimp only
  rw [readText_eq_none h htext]
  dsimp only
  rw [hatom]
  exact ⟨_, rfl, rfl, rfl⟩

/-! ## Plain values -/

/-- A value whose strings are texts and whose numbers are in the form of JSON. -/
inductive IsPlain : Value → Prop where
  | null : IsPlain .null
  | bool (value : Bool) : IsPlain (.bool value)
  | number {chars : List Char} (h : IsNumber chars) : IsPlain (.number chars)
  | text (s : String) : IsPlain (.text s)
  | array {items : List Value} (h : ∀ item ∈ items, IsPlain item) : IsPlain (.array items)
  | record {members : List (String × Value)} (h : ∀ member ∈ members, IsPlain member.2) :
      IsPlain (.record members)

/-- What is written for a value starts with no blank, and not as an array ends. -/
theorem IsPlain.head {value : Value} (h : IsPlain value) (layout : Layout) (level : Nat) :
    ∃ c cs, valueText layout level value = c :: cs ∧ isSpace c = false ∧ c ≠ ']' := by
  -- A value is told by its first character, and no kind of value starts with the end of an array.
  cases h with
  | null => exact ⟨'n', _, rfl, by decide⟩
  | bool value =>
    cases value with
    | true => exact ⟨'t', _, rfl, by decide⟩
    | false => exact ⟨'f', _, rfl, by decide⟩
  | number h =>
    obtain ⟨c, cs, rfl, hc | rfl⟩ := h.head
    · exact ⟨c, cs, rfl, Number.forall_digit (P := fun c => isSpace c = false ∧ c ≠ ']')
        (by decide) hc⟩
    · exact ⟨'-', cs, rfl, by decide⟩
  | text s => exact ⟨'"', _, rfl, by decide⟩
  | @array items =>
    cases items with
    | nil => exact ⟨'[', _, rfl, by decide⟩
    | cons => exact ⟨'[', _, rfl, by decide⟩
  | @record members =>
    cases members with
    | nil => exact ⟨'\x7b', _, rfl, by decide⟩
    | cons => exact ⟨'\x7b', _, rfl, by decide⟩

/-- A value is read wherever it is written and no number goes on after it. -/
def IsReread (value : Value) : Prop :=
  ∀ (layout : Layout) (level : Nat) (cs rest : List Char), EndsNumber rest →
    skipSpaces cs = valueText layout level value ++ rest → Reads (readValue cs) value rest

theorem isReread_null : IsReread .null := by
  intro layout level cs rest _ hcs
  refine readValue_of_readAtom hcs (by decide) (by decide) (by decide) ?_
  rw [hcs]
  exact readAtom_null rest

theorem isReread_bool (value : Bool) : IsReread (.bool value) := by
  intro layout level cs rest _ hcs
  cases value with
  | true =>
    refine readValue_of_readAtom hcs (by decide) (by decide) (by decide) ?_
    rw [hcs]
    exact readAtom_true rest
  | false =>
    refine readValue_of_readAtom hcs (by decide) (by decide) (by decide) ?_
    rw [hcs]
    exact readAtom_false rest

theorem isReread_number {chars : List Char} (h : IsNumber chars) : IsReread (.number chars) := by
  intro layout level cs rest hrest hcs
  rw [valueText] at hcs
  obtain ⟨c, ds, hchars, hc⟩ := h.head
  have hmarks : c ≠ '[' ∧ c ≠ '\x7b' ∧ c ≠ '"' := by
    obtain hc | rfl := hc
    · exact Number.forall_digit (P := fun c => c ≠ '[' ∧ c ≠ '\x7b' ∧ c ≠ '"') (by decide) hc
    · decide
  have hstart : skipSpaces cs = c :: (ds ++ rest) := by rw [hcs, hchars, List.cons_append]
  refine readValue_of_readAtom hstart hmarks.1 hmarks.2.1 hmarks.2.2 ?_
  rw [hcs]
  exact readAtom_number h hrest

theorem isReread_text (s : String) : IsReread (.text s) := by
  intro layout level cs rest _ hcs
  have hstart : skipSpaces cs = stringText s.toList ++ rest := hcs
  have hquote : ∃ after, skipSpaces cs = '"' :: after := ⟨_, hstart⟩
  obtain ⟨after, hquote⟩ := hquote
  obtain ⟨text, htext, hvalue, hrest⟩ := readText_of_skipSpaces hstart
  rw [readValue, readMark_eq_none hquote (by decide)]
  dsimp only
  rw [readMark_eq_none hquote (by decide)]
  dsimp only
  rw [htext]
  exact ⟨_, rfl, congrArg Value.string hvalue, hrest⟩

/-! ## Arrays and objects -/

theorem isSpace_of_mem_newline (layout : Layout) (level : Nat) :
    ∀ c ∈ layout.newline level, isSpace c = true := by
  intro c hc
  cases layout with
  | compact => cases hc
  | pretty =>
    obtain rfl | hc := List.mem_cons.1 hc
    · rfl
    · rw [List.eq_of_mem_replicate hc]
      rfl

/-- What comes on a new line is found after the blanks. -/
theorem skipSpaces_newline (layout : Layout) (level : Nat) {c : Char} (h : isSpace c = false)
    (cs : List Char) : skipSpaces (layout.newline level ++ c :: cs) = c :: cs := by
  rw [skipSpaces_append (isSpace_of_mem_newline layout level), skipSpaces_cons h]

theorem skipSpaces_newline_stringText (layout : Layout) (level : Nat) (s rest : List Char) :
    skipSpaces (layout.newline level ++ (stringText s ++ rest)) = stringText s ++ rest :=
  skipSpaces_newline layout level (by decide) _

/-- A new line, or the mark on it, goes on with no number. -/
theorem endsNumber_newline (layout : Layout) (level : Nat) {c : Char}
    (h : c.isDigit = false ∧ c ≠ '.' ∧ ¬(c = 'e' ∨ c = 'E')) (cs : List Char) :
    EndsNumber (layout.newline level ++ c :: cs) := by
  intro d hd
  cases layout with
  | compact =>
    obtain rfl : c = d := by simpa [Layout.newline] using hd
    exact h
  | pretty =>
    obtain rfl : '\n' = d := by simpa [Layout.newline] using hd
    decide

theorem IsPlain.skipSpaces_valueText {value : Value} (h : IsPlain value) (layout : Layout)
    (level : Nat) (rest : List Char) :
    skipSpaces (valueText layout level value ++ rest) = valueText layout level value ++ rest := by
  obtain ⟨c, cs, htext, hspace, -⟩ := h.head layout level
  rw [htext, List.cons_append, skipSpaces_cons hspace]

theorem IsPlain.skipSpaces_newline {value : Value} (h : IsPlain value) (layout : Layout)
    (level : Nat) (rest : List Char) :
    skipSpaces (layout.newline level ++ (valueText layout level value ++ rest)) =
      valueText layout level value ++ rest := by
  rw [skipSpaces_append (isSpace_of_mem_newline layout level), h.skipSpaces_valueText]

/-- What stands between an item and what is written after an array. -/
theorem endsNumber_items (layout : Layout) (level : Nat) (items : List Value) (rest : List Char) :
    EndsNumber (itemsText layout (level + 1) items ++ (layout.newline level ++ ']' :: rest)) := by
  cases items with
  | nil => exact endsNumber_newline layout level (by decide) rest
  | cons item items =>
    intro c hc
    obtain rfl : ',' = c := by simpa [itemsText] using hc
    decide

theorem readItems_of_isReread {layout : Layout} {level : Nat} {item : Value} {items : List Value}
    (hplain : ∀ value ∈ item :: items, IsPlain value ∧ IsReread value) {cs rest : List Char}
    (hcs : skipSpaces cs = valueText layout (level + 1) item ++
      (itemsText layout (level + 1) items ++ (layout.newline level ++ ']' :: rest))) :
    Reads (readItems cs) (item :: items) rest := by
  -- Induction on the items behind the first: a comma asks for one more, and the bracket is the end.
  induction items generalizing item cs with
  | nil =>
    obtain ⟨read, hread, rfl, hafter⟩ := (hplain item (by simp)).2 layout (level + 1) cs _
      (endsNumber_items layout level [] rest) hcs
    have hclosing : skipSpaces read.rest = ']' :: rest := by
      rw [hafter]
      exact skipSpaces_newline layout level (by decide) rest
    obtain ⟨closing, hclosing, -, hrest⟩ := readMark_of_skipSpaces hclosing
    rw [readItems, hread]
    simp only [Option.bind_eq_bind, Option.bind_some, hclosing]
    exact ⟨_, rfl, rfl, hrest⟩
  | cons next items ih =>
    obtain ⟨read, hread, rfl, hafter⟩ := (hplain item (by simp)).2 layout (level + 1) cs _
      (endsNumber_items layout level (next :: items) rest) hcs
    have hcomma : skipSpaces read.rest = ',' :: (layout.newline (level + 1) ++
        (valueText layout (level + 1) next ++ (itemsText layout (level + 1) items ++
          (layout.newline level ++ ']' :: rest)))) := by
      rw [hafter, itemsText, List.cons_append, skipSpaces_cons (by decide)]
      simp only [List.append_assoc]
    obtain ⟨comma, hmark, -, hcommaRest⟩ := readMark_of_skipSpaces hcomma
    have hnext := (congrArg skipSpaces hcommaRest).trans
      ((hplain next (by simp)).1.skipSpaces_newline ..)
    obtain ⟨more, hmore, hitems, hrest⟩ := ih (fun value hvalue =>
      hplain value (List.mem_cons_of_mem _ hvalue)) hnext
    rw [readItems, hread]
    simp only [Option.bind_eq_bind, Option.bind_some,
      readMark_eq_none hcomma (show ',' ≠ ']' by decide), hmark, hmore]
    exact ⟨_, rfl, congrArg (read.value :: ·) hitems, hrest⟩

theorem isReread_array {items : List Value}
    (hplain : ∀ value ∈ items, IsPlain value ∧ IsReread value) : IsReread (.array items) := by
  intro layout level cs rest _ hcs
  cases items with
  | nil =>
    have hopening : skipSpaces cs = '[' :: ']' :: rest := hcs
    obtain ⟨opening, hopening, -, hafter⟩ := readMark_of_skipSpaces hopening
    have hclosing : skipSpaces opening.rest = ']' :: rest := by
      rw [hafter, skipSpaces_cons (by decide)]
    obtain ⟨closing, hclosing, -, hrest⟩ := readMark_of_skipSpaces hclosing
    rw [readValue, hopening]
    dsimp only
    rw [hclosing]
    exact ⟨_, rfl, rfl, hrest⟩
  | cons item items =>
    have hopening : skipSpaces cs = '[' :: (layout.newline (level + 1) ++
        (valueText layout (level + 1) item ++ (itemsText layout (level + 1) items ++
          (layout.newline level ++ ']' :: rest)))) := by
      rw [hcs, valueText]
      simp only [List.cons_append, List.append_assoc, List.nil_append]
    obtain ⟨opening, hopening, -, hafter⟩ := readMark_of_skipSpaces hopening
    have hitem : IsPlain item := (hplain item (by simp)).1
    have hfirst := (congrArg skipSpaces hafter).trans (hitem.skipSpaces_newline ..)
    obtain ⟨read, hread, hitems, hrest⟩ := readItems_of_isReread hplain hfirst
    -- An item does not start as an array ends.
    have hclosing : readMark ']' opening.rest = none := by
      obtain ⟨c, ds, htext, -, hc⟩ := hitem.head layout (level + 1)
      rw [htext, List.cons_append] at hfirst
      exact readMark_eq_none hfirst hc
    rw [readValue, hopening]
    dsimp only
    rw [hclosing]
    simp only [Option.bind_eq_bind, hread, Option.bind_some]
    exact ⟨_, rfl, congrArg Value.array hitems, hrest⟩

/-- What stands between a value and what is written after an object. -/
theorem endsNumber_members (layout : Layout) (level : Nat)
    (members : List (Option String × Value)) (rest : List Char) :
    EndsNumber (membersText layout (level + 1) members ++
      (layout.newline level ++ '\x7d' :: rest)) := by
  cases members with
  | nil => exact endsNumber_newline layout level (by decide) rest
  | cons member members =>
    intro c hc
    obtain rfl : ',' = c := by simpa [membersText] using hc
    decide

/-- A key with the colon after it is read. -/
theorem readMember_key (layout : Layout) {key : String} {cs rest : List Char}
    (hcs : skipSpaces cs = stringText key.toList ++ (layout.colon ++ rest)) :
    ∃ text colon, readText cs = some text ∧ text.value = some key ∧
      readMark ':' text.rest = some colon ∧ skipSpaces colon.rest = skipSpaces rest := by
  obtain ⟨text, htext, hvalue, hafter⟩ := readText_of_skipSpaces hcs
  -- After the colon a pretty layout has a blank, which is passed with the spaces.
  cases layout with
  | compact =>
    have hcolon : skipSpaces text.rest = ':' :: rest := by
      rw [hafter]
      exact skipSpaces_cons (by decide) rest
    obtain ⟨colon, hcolon, -, hrest⟩ := readMark_of_skipSpaces hcolon
    exact ⟨text, colon, htext, hvalue, hcolon, by rw [hrest]⟩
  | pretty =>
    have hcolon : skipSpaces text.rest = ':' :: ' ' :: rest := by
      rw [hafter]
      exact skipSpaces_cons (by decide) (' ' :: rest)
    obtain ⟨colon, hcolon, -, hrest⟩ := readMark_of_skipSpaces hcolon
    refine ⟨text, colon, htext, hvalue, hcolon, ?_⟩
    rw [hrest]
    exact skipSpaces_append (by simp [isSpace] : ∀ c ∈ [' '], isSpace c = true) rest

/-- A member up to the end of its value. -/
theorem readMember {layout : Layout} {level : Nat} {key : String} {value : Value}
    (hplain : IsPlain value) (hreread : IsReread value) {cs rest : List Char}
    (hrest : EndsNumber rest)
    (hcs : skipSpaces cs = stringText key.toList ++ (layout.colon ++
      (valueText layout level value ++ rest))) :
    ∃ text colon, ∃ read : Read Value colon.rest, readText cs = some text ∧
      text.value = some key ∧ readMark ':' text.rest = some colon ∧
        readValue colon.rest = some read ∧ read.value = value ∧
          (text.after (colon.after read)).rest = rest := by
  obtain ⟨text, colon, htext, hkey, hcolon, hafter⟩ := readMember_key layout hcs
  rw [hplain.skipSpaces_valueText] at hafter
  obtain ⟨read, hread, hvalue, hleft⟩ := hreread layout level colon.rest rest hrest hafter
  exact ⟨text, colon, read, htext, hkey, hcolon, hread, hvalue, hleft⟩

theorem readMembers_of_isReread {layout : Layout} {level : Nat} {key : String} {value : Value}
    {members : List (String × Value)}
    (hplain : ∀ member ∈ (key, value) :: members, IsPlain member.2 ∧ IsReread member.2)
    {cs rest : List Char}
    (hcs : skipSpaces cs = stringText key.toList ++ (layout.colon ++
      (valueText layout (level + 1) value ++ (membersText layout (level + 1)
        (members.map fun (key, value) => (some key, value)) ++
          (layout.newline level ++ '\x7d' :: rest))))) :
    Reads (readMembers cs)
      (((key, value) :: members).map fun (key, value) => (some key, value)) rest := by
  -- Induction on the members behind the first, as for items.
  induction members generalizing key value cs with
  | nil =>
    obtain ⟨hvalue, hreread⟩ := hplain (key, value) (by simp)
    obtain ⟨text, colon, read, htext, hkey, hcolon, hread, rfl, hafter⟩ :=
      readMember hvalue hreread (endsNumber_members layout level [] rest) hcs
    have hclosing : skipSpaces (text.after (colon.after read)).rest = '\x7d' :: rest := by
      rw [hafter]
      exact skipSpaces_newline layout level (by decide) rest
    obtain ⟨closing, hclosing, -, hrest⟩ := readMark_of_skipSpaces hclosing
    rw [readMembers, htext]
    simp only [Option.bind_eq_bind, Option.bind_some, hcolon, hread, hclosing]
    refine ⟨_, rfl, ?_, hrest⟩
    simp only [Read.map, hkey, List.map_cons, List.map_nil]
  | cons next members ih =>
    obtain ⟨hvalue, hreread⟩ := hplain (key, value) (by simp)
    obtain ⟨text, colon, read, htext, hkey, hcolon, hread, rfl, hafter⟩ :=
      readMember hvalue hreread (endsNumber_members layout level _ rest) hcs
    have hcomma : skipSpaces (text.after (colon.after read)).rest =
        ',' :: (layout.newline (level + 1) ++
          (stringText next.1.toList ++ (layout.colon ++ (valueText layout (level + 1) next.2 ++
            (membersText layout (level + 1) (members.map fun (key, value) => (some key, value)) ++
              (layout.newline level ++ '\x7d' :: rest)))))) := by
      rw [hafter, List.map_cons, membersText, List.cons_append, skipSpaces_cons (by decide)]
      simp only [optionalText, List.append_assoc]
    obtain ⟨comma, hmark, -, hcommaRest⟩ := readMark_of_skipSpaces hcomma
    have hnext := (congrArg skipSpaces hcommaRest).trans (skipSpaces_newline_stringText ..)
    obtain ⟨more, hmore, hmembers, hrest⟩ := ih (fun member hmember =>
      hplain member (List.mem_cons_of_mem _ hmember)) hnext
    rw [readMembers, htext]
    simp only [Option.bind_eq_bind, Option.bind_some, hcolon, hread,
      readMark_eq_none hcomma (show ',' ≠ '\x7d' by decide), hmark, hmore]
    refine ⟨_, rfl, ?_, hrest⟩
    simp only [Read.map, Read.after, hkey, hmembers, List.map_cons]

theorem isReread_record {members : List (String × Value)}
    (hplain : ∀ member ∈ members, IsPlain member.2 ∧ IsReread member.2) :
    IsReread (.record members) := by
  intro layout level cs rest _ hcs
  cases members with
  | nil =>
    have hopening : skipSpaces cs = '\x7b' :: '\x7d' :: rest := hcs
    obtain ⟨opening, hmark, -, hafter⟩ := readMark_of_skipSpaces hopening
    have hclosing : skipSpaces opening.rest = '\x7d' :: rest := by
      rw [hafter, skipSpaces_cons (by decide)]
    obtain ⟨closing, hclosing, -, hrest⟩ := readMark_of_skipSpaces hclosing
    rw [readValue, readMark_eq_none hopening (by decide)]
    dsimp only
    rw [hmark]
    dsimp only
    rw [hclosing]
    exact ⟨_, rfl, rfl, hrest⟩
  | cons member members =>
    obtain ⟨key, value⟩ := member
    have hopening : skipSpaces cs = '\x7b' :: (layout.newline (level + 1) ++
        (stringText key.toList ++ (layout.colon ++ (valueText layout (level + 1) value ++
          (membersText layout (level + 1) (members.map fun (key, value) => (some key, value)) ++
            (layout.newline level ++ '\x7d' :: rest)))))) := by
      rw [hcs, Value.record, List.map_cons, valueText, optionalText]
      simp only [List.cons_append, List.append_assoc, List.nil_append]
    obtain ⟨opening, hmark, -, hafter⟩ := readMark_of_skipSpaces hopening
    have hfirst := (congrArg skipSpaces hafter).trans (skipSpaces_newline_stringText ..)
    obtain ⟨read, hread, hmembers, hrest⟩ := readMembers_of_isReread hplain hfirst
    rw [readValue, readMark_eq_none hopening (by decide)]
    dsimp only
    rw [hmark]
    dsimp only
    -- A member starts with the quote of its key.
    rw [readMark_eq_none hfirst (by decide)]
    simp only [Option.bind_eq_bind, hread, Option.bind_some]
    exact ⟨_, rfl, congrArg Value.object hmembers, hrest⟩

theorem IsPlain.isReread {value : Value} (h : IsPlain value) : IsReread value := by
  induction h with
  | null => exact isReread_null
  | bool value => exact isReread_bool value
  | number h => exact isReread_number h
  | text s => exact isReread_text s
  | array h ih => exact isReread_array fun item hitem => ⟨h item hitem, ih item hitem⟩
  | record h ih => exact isReread_record fun member hmember => ⟨h member hmember, ih member hmember⟩

/-- A plain value is read back from its text, on one line or on lines of its own. -/
theorem Value.ofText_valueText {value : Value} (h : IsPlain value) (layout : Layout) :
    Value.ofText (String.ofList (valueText layout 0 value)) = some value := by
  obtain ⟨c, cs, htext, hspace, -⟩ := h.head layout 0
  have hstart : skipSpaces (String.ofList (valueText layout 0 value)).toList =
      valueText layout 0 value ++ [] := by
    rw [String.toList_ofList, List.append_nil, htext, skipSpaces_cons hspace]
  obtain ⟨read, hread, hvalue, hrest⟩ :=
    h.isReread layout 0 _ [] (by simp [EndsNumber]) hstart
  rw [Value.ofText, hread]
  simp only [Option.bind_eq_bind, Option.bind_some, hrest, hvalue]
  rfl

end UnitCheck.Json
