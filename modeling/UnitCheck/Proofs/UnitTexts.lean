import UnitCheck.CommandLine.Run
import UnitCheck.Proofs.Factor.Text
import UnitCheck.Proofs.Legible
import UnitCheck.Proofs.Symbols

/-!
  Units of expressions as texts.

  The unit of a literal is an identifier, and characters of identifiers are characters of symbols
  (`isSymbolChar_of_isIdentifierChar`): no blank, operator or parenthesis is one of a name. Fields
  have units that were read, hence with symbols that can be read as well. As no rule brings in a
  symbol of its own, all units of nodes are read back from their texts.
-/

namespace UnitCheck

open Text (isBlank)

/-! ## Names are symbols -/

theorem isSymbolChar_of_isIdentifierChar {c : Char} (h : isIdentifierChar c = true) :
    Factor.isSymbolChar c = true := by
  have hblank : isBlank c = false := by
    by_contra hblank
    rw [Bool.not_eq_false] at hblank
    rw [not_isIdentifierChar_of_isBlank hblank] at h
    cases h
  have hne : ∀ d, isIdentifierChar d = false → c ≠ d := by
    rintro d hd rfl
    rw [hd] at h
    cases h
  simp [Factor.isSymbolChar, hblank, hne '*' (by decide), hne '.' (by decide),
    hne '/' (by decide), hne '^' (by decide), hne '(' (by decide), hne ')' (by decide)]

theorem IsIdentifier.isSymbol {name : String} (h : IsIdentifier name) : Factor.IsSymbol name := by
  obtain ⟨⟨c, cs, hname, hstart⟩, hchars⟩ := h.isName
  exact ⟨⟨c, cs, hname, hstart.not_digit⟩,
    fun d hd => isSymbolChar_of_isIdentifierChar (hchars d hd)⟩

/-! ## Units of nodes -/

namespace Context

variable {context : Context}

/-- All fields have units that were read from texts. -/
def FieldsRead (context : Context) : Prop :=
  ∀ name unit, context.fieldUnit name = some unit → ∃ text, Factor.ofText text = .ok unit

/-- All symbols in the units of nodes can be read. -/
theorem isSymbol_of_resolve {text : String} {tree : Expr} {units : UnitMap}
    (hread : Expr.ofText text = .ok tree) (hmethods : context.StandardMethods)
    (hfields : context.FieldsRead) (hresolve : context.resolve tree = .ok units) {id : Nat}
    {unit : Factor} (hunit : units[id]? = some unit) :
    ∀ symbol ∈ unit.symbols, Factor.IsSymbol symbol := by
  intro symbol hsymbol
  obtain ⟨giver, hgiver, hgives⟩ := exists_gives_of_resolve hmethods hresolve hunit hsymbol
  cases giver with
  | literal node value own =>
    -- The unit of a literal is a word of the text.
    obtain rfl : own = some symbol := hgives
    have hwritten := Expr.legible_of_ofText hread _ hgiver
    exact (hwritten.2 symbol rfl).1.isSymbol
  | field node name =>
    obtain ⟨fieldUnit, hfieldUnit, hmem⟩ := hgives
    obtain ⟨written, hwritten⟩ := hfields name fieldUnit hfieldUnit
    exact Factor.isSymbol_of_ofText hwritten symbol hmem
  | _ => exact hgives.elim

end Context

/-! ## Rows of output -/

namespace CommandLine

theorem fieldsRead_setField {bindings : Bindings} (h : bindings.context.FieldsRead) (name : String)
    {unit : Factor} {text : String} (hunit : Factor.ofText text = .ok unit) :
    (bindings.setField name unit).context.FieldsRead := by
  intro other unit' hother
  have hfound : (bindings.fields.insert name unit)[other]? = some unit' := hother
  rw [Std.HashMap.getElem?_insert] at hfound
  split at hfound
  · obtain rfl := Option.some.inj hfound
    exact ⟨text, hunit⟩
  · exact h other unit' hfound

/-- The unit of a field that was given as an argument was read. -/
theorem ofText_of_readBinding {text name : String} {unit : Factor}
    (h : readBinding text = some (name, unit)) : ∃ written, Factor.ofText written = .ok unit := by
  simp only [readBinding, Option.bind_eq_bind, Option.bind_eq_some_iff, Option.pure_def,
    Option.some.injEq, Prod.mk.injEq] at h
  obtain ⟨written, -, read, hread, -, rfl⟩ := h
  refine ⟨String.ofList (Text.trimBlanks written), ?_⟩
  rw [Factor.ofText, String.toList_ofList]
  cases hchars : Factor.ofChars (Text.trimBlanks written) with
  | error cause =>
    rw [hchars] at hread
    cases hread
  | ok found =>
    rw [hchars] at hread
    exact congrArg Except.ok (Option.some.inj hread)

/-- The bindings with the units of some fields given one after the other. -/
def setFields (bindings : Bindings) (fields : List (String × Factor)) : Bindings :=
  fields.foldl (fun (bound : Bindings) (name, unit) => bound.setField name unit) bindings

theorem methods_setFields (bindings : Bindings) (fields : List (String × Factor)) :
    (setFields bindings fields).methods = bindings.methods := by
  induction fields generalizing bindings with
  | nil => rfl
  | cons field fields ih => exact ih (bindings.setField field.1 field.2)

/-- Fields that were given as arguments have units that were read. -/
theorem fieldsRead_setFields {texts : List String} {fields : List (String × Factor)}
    (h : texts.mapM readBinding = some fields) {bindings : Bindings}
    (hbindings : bindings.context.FieldsRead) :
    (setFields bindings fields).context.FieldsRead := by
  induction texts generalizing fields bindings with
  | nil =>
    rw [List.mapM_nil] at h
    cases h
    exact hbindings
  | cons text texts ih =>
    rw [List.mapM_cons] at h
    obtain ⟨⟨name, unit⟩, hfield, h⟩ := Option.bind_eq_some_iff.1 h
    obtain ⟨rest, hrest, h⟩ := Option.bind_eq_some_iff.1 h
    cases h
    obtain ⟨written, hunit⟩ := ofText_of_readBinding hfield
    exact ih hrest (fieldsRead_setField hbindings name hunit)

/-- The rows of a tree whose nodes have units show units of the map. -/
theorem exists_unit_of_mem_rows {context : Context} {tree : Expr} {units : UnitMap}
    (h : context.resolve tree = .ok units) {row : Nat × String × String}
    (hrow : row ∈ rows tree units) : ∃ unit, units[row.1]? = some unit ∧ row.2.2 = unit.text := by
  obtain ⟨node, hnode, rfl⟩ := List.mem_map.1 hrow
  have hkey := ((Context.noted_of_resolve h).keys node.id).2 (List.mem_map_of_mem hnode)
  obtain ⟨unit, hunit⟩ := Option.isSome_iff_exists.1 (Std.HashMap.mem_iff_isSome_getElem?.1 hkey)
  refine ⟨unit, hunit, ?_⟩
  dsimp only
  rw [hunit]
  rfl

/-- **Printed units are read back.** With standard methods and with fields whose units were read,
    the text of each unit of a text that was read is read as that unit. The rows of output show such
    texts. -/
theorem printed_units_reread :
    (∀ (text : String) (context : Context) (tree : Expr) (units : UnitMap),
      Expr.ofText text = .ok tree → context.StandardMethods → context.FieldsRead →
        context.resolve tree = .ok units →
          ∀ (id : Nat) (unit : Factor), units[id]? = some unit →
            Factor.ofText unit.text = .ok unit) ∧
    ∀ (registry : Registry Float) (expression : String) (texts : List String)
      (fields : List (String × Factor)) (strictUnits json : Bool) (output : String),
      texts.mapM readBinding = some fields →
        resolve registry expression fields strictUnits json = .ok output →
          ∃ (tree : Expr) (units : UnitMap),
            output = lines (if json then
              [(Json.Value.array ((rows tree units).map rowJson)).pretty]
              else (rows tree units).map rowText) ∧
            ∀ row ∈ rows tree units, ∃ unit, units[row.1]? = some unit ∧
              row.2.2 = unit.text ∧ Factor.ofText row.2.2 = .ok unit := by
  have hreread : ∀ (text : String) (context : Context) (tree : Expr) (units : UnitMap),
      Expr.ofText text = .ok tree → context.StandardMethods → context.FieldsRead →
        context.resolve tree = .ok units →
          ∀ (id : Nat) (unit : Factor), units[id]? = some unit →
            Factor.ofText unit.text = .ok unit :=
    fun text context tree units hread hmethods hfields hresolve id unit hunit =>
      Factor.ofText_text (Context.isSymbol_of_resolve hread hmethods hfields hresolve hunit)
  refine ⟨hreread, ?_⟩
  intro registry expression texts fields strictUnits json output hfields houtput
  -- The command reads the expression and then resolves it, and the rows show the units it finds.
  obtain ⟨tree, htree, houtput⟩ := bind_eq_ok_iff.1 houtput
  obtain ⟨units, hunits, houtput⟩ := bind_eq_ok_iff.1 houtput
  have hread := (Expr.ofTextWith_eq_ok_iff.1 (mapError_eq_ok_iff.1 htree)).1
  have hresolve := mapError_eq_ok_iff.1 hunits
  -- Before the fields are bound there are none.
  have hempty : (Bindings.empty true).context.FieldsRead := by
    intro name unit hunit
    have hnone : (∅ : Std.HashMap String Factor)[name]? = some unit := hunit
    simp at hnone
  refine ⟨tree, units, ?_, fun row hrow => ?_⟩
  · cases json with
    | true => exact (Except.ok.inj houtput).symm
    | false => exact (Except.ok.inj houtput).symm
  · obtain ⟨unit, hunit, htext⟩ := exists_unit_of_mem_rows hresolve hrow
    refine ⟨unit, hunit, htext, ?_⟩
    rw [htext]
    exact hreread expression _ tree units hread
      (Context.standardMethods_of_bindings (methods_setFields (Bindings.empty true) fields))
      (fieldsRead_setFields hfields hempty) hresolve row.1 unit hunit

/-- The quotient of five degrees and a field in another unit, in the library and on the command
    line. -/
theorem printed_units_reread_steep : ∃ units,
    (Expr.ofText "5 C / t" = .ok Context.steep ∧ Context.steepField.StandardMethods ∧
      Context.steepField.FieldsRead ∧ Context.steepField.resolve Context.steep = .ok units ∧
      units[2]? = some ⟨.single "C" .one, .single "Z" .one⟩ ∧
      Factor.ofText (⟨.single "C" .one, .single "Z" .one⟩ : Factor).text =
        .ok ⟨.single "C" .one, .single "Z" .one⟩) ∧
    ∃ output, ["t = Z"].mapM readBinding = some [("t", .ofSymbol "Z")] ∧
      resolve .empty "5 C / t" [("t", .ofSymbol "Z")] false false = .ok output ∧
      ∃ (tree : Expr) (units : UnitMap), output = lines ((rows tree units).map rowText) ∧
        ∀ row ∈ rows tree units, ∃ unit, units[row.1]? = some unit ∧
          row.2.2 = unit.text ∧ Factor.ofText row.2.2 = .ok unit := by
  obtain ⟨units, hstrict, hunit⟩ := Context.strictlyResolved_steep
  obtain ⟨hlibrary, hcommand⟩ := printed_units_reread
  have hread := (Expr.ofTextWith_eq_ok_iff.1 hstrict.read).1
  have hfields : Context.steepField.FieldsRead := by
    intro name unit hfound
    rw [Context.fieldUnit_steepField hfound]
    exact ⟨"Z", by cbv⟩
  have hbindings : ["t = Z"].mapM readBinding = some [("t", .ofSymbol "Z")] := by cbv
  have hresolve : resolve .empty "5 C / t" [("t", .ofSymbol "Z")] false false =
      .ok (lines ((rows Context.steep units).map rowText)) :=
    bind_eq_ok_iff.2 ⟨Context.steep, mapError_eq_ok_iff.2 hread,
      bind_eq_ok_iff.2 ⟨units, mapError_eq_ok_iff.2 hstrict.resolved, rfl⟩⟩
  refine ⟨units, ⟨hread, hstrict.methods, hfields, hstrict.resolved, hunit,
    hlibrary _ _ _ _ hread hstrict.methods hfields hstrict.resolved 2 _ hunit⟩, _, hbindings,
    hresolve, hcommand _ _ _ _ false false _ hbindings hresolve⟩

end CommandLine

end UnitCheck
