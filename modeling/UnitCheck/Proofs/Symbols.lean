import UnitCheck.Proofs.NodeUnit
import UnitCheck.Proofs.Parser.Validation
import UnitCheck.Proofs.Registry.Failures

/-!
  Where the symbols in the units of an expression come from.

  No rule brings in a symbol of its own. A symbol in the unit of a node is given by the node, if it
  is a literal or a field, or stands in the unit of a node right below it
  (`mem_symbols_of_nodeUnit`). Every symbol therefore leads down to a literal or a field that gives
  it (`Noted.exists_gives`). If a text is read with the units of a registry only, and the fields
  have such units too, then all symbols are known and the registry analyzes the units of all nodes.
-/

namespace UnitCheck

/-! ## Standard methods -/

theorem Factor.not_mem_symbols_one (symbol : String) : symbol ∉ one.symbols := List.not_mem_nil

/-- A standard method gives no symbol that none of its arguments has. -/
theorem Method.mem_symbols_of_unit {method : Method} {units : List Factor} {unit : Factor}
    (h : method.unit units = .ok unit) {symbol : String} (hsymbol : symbol ∈ unit.symbols) :
    ∃ argument ∈ units, symbol ∈ argument.symbols := by
  obtain ⟨-, -, h⟩ := bind_eq_ok_iff.1 h
  -- Whatever the rule is, the unit is made of that of the first argument.
  have hfirst : symbol ∈ (units.headD .one).symbols := by
    cases hrule : method.rule with
    | dimensionless =>
      rw [hrule] at h
      cases h
      exact absurd hsymbol (Factor.not_mem_symbols_one symbol)
    | sameAsArgument =>
      rw [hrule] at h
      cases h
      exact hsymbol
    | squared =>
      rw [hrule] at h
      exact or_self_iff.1 ((Factor.mem_symbols_of_mul (mapError_eq_ok_iff.1 h)).1 hsymbol)
    | commonUnit =>
      rw [hrule] at h
      simp only [commonUnit] at h
      split at h
      · cases h
        exact hsymbol
      · cases h
  cases units with
  | nil => exact absurd hfirst (Factor.not_mem_symbols_one symbol)
  | cons first units => exact ⟨first, List.mem_cons_self, hfirst⟩

namespace Context

variable {context : Context}

/-- All fields have units over known symbols. -/
def FieldsIn (context : Context) (known : String → Bool) : Prop :=
  ∀ name unit, context.fieldUnit name = some unit → ∀ symbol ∈ unit.symbols, known symbol = true

/-! ## A node -/

/-- The node gives the symbol: as the unit of a literal, or in the unit of a field. -/
def Gives (context : Context) (symbol : String) : Expr → Prop
  | .literal _ _ unit => unit = some symbol
  | .field _ name => ∃ unit, context.fieldUnit name = some unit ∧ symbol ∈ unit.symbols
  | _ => False

/-- An operator has symbols of its operands only. -/
theorem mem_symbols_of_binaryUnit {node : Nat} {op : BinaryOp} {left right unit : Factor}
    (h : binaryUnit node op left right = .ok unit) {symbol : String}
    (hsymbol : symbol ∈ unit.symbols) : symbol ∈ left.symbols ∨ symbol ∈ right.symbols := by
  rcases binaryUnit_cases node op left right with hunit | hunit | hunit | hunit | hunit
  · cases hunit.symm.trans h
    exact .inl hsymbol
  · cases hunit.symm.trans h
    exact absurd hsymbol (Factor.not_mem_symbols_one symbol)
  · have hmul : left.mul right = .ok unit := mapError_eq_ok_iff.1 (hunit.symm.trans h)
    exact (Factor.mem_symbols_of_mul hmul).1 hsymbol
  · have hdiv : left.mul right.inverse = .ok unit := mapError_eq_ok_iff.1 (hunit.symm.trans h)
    rw [← Factor.mem_symbols_inverse (a := right)]
    exact (Factor.mem_symbols_of_mul hdiv).1 hsymbol
  · cases hunit.symm.trans h

/-- A symbol in the unit of a node is given by the node or stands in the unit of a node right
    below it. -/
theorem mem_symbols_of_nodeUnit (hmethods : context.StandardMethods) {unitOf : Expr → Factor}
    {node : Expr} {unit : Factor} (h : context.nodeUnit unitOf node = .ok unit) {symbol : String}
    (hsymbol : symbol ∈ unit.symbols) :
    context.Gives symbol node ∨ ∃ child ∈ node.children, symbol ∈ (unitOf child).symbols := by
  cases node with
  | literal id value own =>
    cases own with
    | none =>
      cases h
      exact absurd hsymbol (Factor.not_mem_symbols_one symbol)
    | some own =>
      cases h
      exact .inl (congrArg some (List.mem_singleton.1 hsymbol).symm)
  | field id name =>
    rw [nodeUnit] at h
    split at h
    · next hfield =>
      cases h
      exact .inl ⟨unit, hfield, hsymbol⟩
    · cases h
  | cast id target operand =>
    cases h
    exact .inr ⟨operand, List.mem_singleton_self _, hsymbol⟩
  | unary id op operand =>
    cases h
    exact .inr ⟨operand, List.mem_singleton_self _, hsymbol⟩
  | call id name arguments =>
    rw [nodeUnit] at h
    split at h
    · next rule hrule =>
      -- A standard method answers in units made of those of its arguments.
      obtain ⟨method, -, rfl⟩ := hmethods name rule hrule
      obtain ⟨argument, hargument, hmem⟩ := Method.mem_symbols_of_unit h hsymbol
      obtain ⟨child, hchild, rfl⟩ := List.mem_map.1 hargument
      exact .inr ⟨child, hchild, hmem⟩
    · cases h
  | binary id op left right =>
    rcases mem_symbols_of_binaryUnit h hsymbol with hleft | hright
    · exact .inr ⟨left, List.mem_cons_self, hleft⟩
    · exact .inr ⟨right, List.mem_cons_of_mem _ (List.mem_singleton_self _), hright⟩

end Context

/-! ## A tree -/

/-- With a node, a tree has the nodes right below it. -/
theorem Expr.mem_postOrder_of_mem_children {root node child : Expr} (hnode : node ∈ root.postOrder)
    (hchild : child ∈ node.children) : child ∈ root.postOrder := by
  induction root using Expr.induct with
  | step root ih =>
    rw [Expr.postOrder_eq, List.mem_append] at hnode ⊢
    left
    -- The node is in a tree right below the root, or it is the root.
    rcases hnode with hbelow | hroot
    · obtain ⟨top, htop, hbelow⟩ := List.mem_flatMap.1 hbelow
      exact List.mem_flatMap.2 ⟨top, htop, ih top htop hbelow⟩
    · rw [List.mem_singleton.1 hroot] at hchild
      exact List.mem_flatMap.2 ⟨child, hchild, child.self_mem_postOrder⟩

namespace Context

variable {context : Context} {root : Expr} {units : UnitMap}

/-- Every symbol in the unit of a node is given by a node of the tree. -/
theorem Noted.exists_gives (h : Noted context root.postOrder units)
    (hmethods : context.StandardMethods) {node : Expr} (hnode : node ∈ root.postOrder)
    {symbol : String} (hsymbol : symbol ∈ (units.getD node.id .one).symbols) :
    ∃ giver ∈ root.postOrder, context.Gives symbol giver := by
  induction node using Expr.induct with
  | step node ih =>
    have hchildren : ∀ child ∈ node.children, child ∈ root.postOrder := fun _ =>
      Expr.mem_postOrder_of_mem_children hnode
    have hunit : context.nodeUnit (fun child => units.getD child.id .one) node =
        .ok (units.getD node.id .one) := by
      rw [nodeUnit_eq_unitOf fun child hchild => h.unitOf_child (hchildren child hchild)]
      exact h.unitOf_child hnode
    -- A symbol that the node does not give is followed down to a child, which is noted too.
    rcases mem_symbols_of_nodeUnit hmethods hunit hsymbol with hgives | ⟨child, hchild, hmem⟩
    · exact ⟨node, hnode, hgives⟩
    · exact ih child hchild (hchildren child hchild) hmem

/-- Every symbol in the map of a tree is given by a node of the tree. -/
theorem exists_gives_of_resolve (hmethods : context.StandardMethods)
    (h : context.resolve root = .ok units) {id : Nat} {unit : Factor}
    (hunit : units[id]? = some unit) {symbol : String} (hsymbol : symbol ∈ unit.symbols) :
    ∃ giver ∈ root.postOrder, context.Gives symbol giver := by
  have hnoted := noted_of_resolve h
  have hid : id ∈ units := Std.HashMap.mem_iff_isSome_getElem?.2 (by rw [hunit]; rfl)
  obtain ⟨node, hnode, rfl⟩ := List.mem_map.1 ((hnoted.keys id).1 hid)
  refine hnoted.exists_gives hmethods hnode ?_
  rw [Std.HashMap.getD_eq_getD_getElem?, hunit]
  exact hsymbol

/-- What the nodes of a tree give is known, if literals and fields are restricted to it. -/
theorem known_of_gives {known : String → Bool} (hliterals : root.HasUnitsIn known)
    (hfields : context.FieldsIn known) {giver : Expr} (hgiver : giver ∈ root.postOrder)
    {symbol : String} (hgives : context.Gives symbol giver) : known symbol = true := by
  cases giver with
  | literal id value own =>
    obtain rfl : own = some symbol := hgives
    exact hliterals id value symbol hgiver
  | field id name =>
    obtain ⟨unit, hunit, hsymbol⟩ := hgives
    exact hfields name unit hunit symbol hsymbol
  | _ => exact hgives.elim

/-! ## A text that is read with the units of a registry -/

/-- A text is read with the units of the registry only, its methods are standard ones and its fields
    have units of the registry, and all of its nodes have units. -/
structure StrictlyResolved {α : Type} (registry : Registry α) (context : Context) (text : String)
    (tree : Expr) (units : UnitMap) : Prop where
  read : Expr.ofTextWith registry.hasUnit text = .ok tree
  methods : context.StandardMethods
  fields : context.FieldsIn registry.hasUnit
  resolved : context.resolve tree = .ok units

theorem StrictlyResolved.hasUnit {α : Type} {registry : Registry α} {text : String}
    (h : StrictlyResolved registry context text root units) {id : Nat} {unit : Factor}
    (hunit : units[id]? = some unit) : ∀ symbol ∈ unit.symbols, registry.hasUnit symbol = true := by
  intro symbol hsymbol
  obtain ⟨giver, hgiver, hgives⟩ := exists_gives_of_resolve h.methods h.resolved hunit hsymbol
  exact known_of_gives (Expr.ofTextWith_eq_ok_iff.1 h.read).2 h.fields hgiver hgives

/-- **With the units of a registry only, every node can be analyzed.** All symbols in the units of
    nodes are units of literals or stand in units of fields, and so the registry knows them. No
    question about such a unit fails for an unknown one: what is refused is a power that gets too
    large, or a quantity whose unit cannot be followed backwards. Over rational numbers, the latter
    are the ones with a unit below the bar that maps all values to one. -/
theorem resolved_units_analyzed :
    (∀ (α : Type) [Scalar α] (registry : Registry α) (context : Context) (text : String)
      (tree : Expr) (units : UnitMap), registry.Reachable →
        StrictlyResolved registry context text tree units →
          ∀ (id : Nat) (unit : Factor), units[id]? = some unit →
            (∀ symbol ∈ unit.symbols, (∃ node ∈ tree.postOrder, context.Gives symbol node) ∧
              registry.hasUnit symbol = true) ∧
            registry.Analyzes unit) ∧
    ∀ (registry : Registry Rat) (context : Context) (text : String) (tree : Expr)
      (units : UnitMap), registry.Reachable →
        StrictlyResolved registry context text tree units →
          ∀ (id : Nat) (unit : Factor), units[id]? = some unit → ∀ value,
            (⟨value, unit⟩ : Quantity Rat).normalize registry = .error .zeroConversionFactor ↔
              (∃ base, registry.baseUnits unit = .ok base) ∧
                ∃ symbol ∈ unit.denominator.symbols, registry.Collapses symbol := by
  refine ⟨fun α _ registry context text tree units hreachable h id unit hunit => ?_,
    fun registry context text tree units hreachable h id unit hunit value => ?_⟩
  · have hknown := h.hasUnit hunit
    refine ⟨fun symbol hsymbol => ⟨?_, hknown symbol hsymbol⟩,
      hreachable.wellFormed.analyzes hknown⟩
    exact exists_gives_of_resolve h.methods h.resolved hunit hsymbol
  · exact Quantity.normalize_eq_error_iff hreachable.wellFormed (h.hasUnit hunit)

/-! ## A quotient of temperatures -/

/-- The standard methods, and a field `t` in a unit of temperature that has no way back. -/
def steepField : Context := ((Bindings.empty true).setField "t" (.ofSymbol "Z")).context

theorem fieldUnit_steepField {name : String} {unit : Factor}
    (h : steepField.fieldUnit name = some unit) : unit = .ofSymbol "Z" := by
  have hfield : ((∅ : Std.HashMap String Factor).insert "t" (.ofSymbol "Z"))[name]? = some unit := h
  rw [Std.HashMap.getElem?_insert] at hfield
  split at hfield
  · exact (Option.some.inj hfield).symm
  · simp at hfield

/-- The quotient of five degrees and the field. -/
def steep : Expr := .binary 2 .divide (.literal 0 (.int 5) (some "C")) (.field 1 "t")

theorem unitOf_steep : ∀ node ∈ steep.postOrder, ∃ unit, steepField.unitOf node = .ok unit ∧
    (node.id = 2 → unit = ⟨.single "C" .one, .single "Z" .one⟩) := by
  have hfield : steepField.unitOf (.field 1 "t") = .ok (.ofSymbol "Z") := by
    have hunit : steepField.fieldUnit "t" = some (.ofSymbol "Z") := Std.HashMap.getElem?_insert_self
    rw [unitOf, hunit]
  have hroot : steepField.unitOf steep = .ok ⟨.single "C" .one, .single "Z" .one⟩ := by
    rw [steep, unitOf, hfield]
    rfl
  intro node hnode
  simp only [steep, Expr.postOrder, List.cons_append, List.nil_append, List.mem_cons,
    List.not_mem_nil, or_false] at hnode
  rcases hnode with rfl | rfl | rfl
  · exact ⟨_, rfl, fun h => absurd h (by decide)⟩
  · exact ⟨_, hfield, fun h => absurd h (by decide)⟩
  · exact ⟨_, hroot, fun _ => rfl⟩

theorem strictlyResolved_steep : ∃ units,
    StrictlyResolved ((Registry.empty : Registry Rat).after Registry.temperatures) steepField
      "5 C / t" steep units ∧
    units[2]? = some ⟨.single "C" .one, .single "Z" .one⟩ := by
  have hwell : ((Registry.empty : Registry Rat).after Registry.temperatures).WellFormed :=
    Registry.Reachable.wellFormed ⟨Registry.temperatures, rfl⟩
  have hknown : ∀ unit ∈ ["K", "C", "Z"],
      ((Registry.empty : Registry Rat).after Registry.temperatures).hasUnit unit = true :=
    fun unit hunit => hwell.hasUnit_iff.2 ⟨_, Registry.measuredBy_temperatures hunit⟩
  have hread : Expr.ofText "5 C / t" = .ok steep := by cbv
  -- All nodes have units and no id is repeated, so nothing stops the walk.
  rcases resolve_spec steepField steep with ⟨units, hunits, hnoted⟩ | ⟨error, -, hstop⟩
  · refine ⟨units, ⟨Expr.ofTextWith_eq_ok_iff.2 ⟨hread, ?_⟩, standardMethods_of_bindings rfl, ?_,
      hunits⟩, ?_⟩
    · intro id value unit hmem
      simp only [steep, Expr.postOrder, List.cons_append, List.nil_append, List.mem_cons,
        List.not_mem_nil, or_false, Expr.literal.injEq, Option.some.injEq, reduceCtorEq] at hmem
      exact hknown unit (by simp [hmem.2.2])
    · intro name unit hfield symbol hsymbol
      obtain rfl := fieldUnit_steepField hfield
      exact hknown symbol (by simp [List.mem_singleton.1 hsymbol])
    · obtain ⟨unit, hunit, hmap⟩ := hnoted.unit steep steep.self_mem_postOrder
      obtain ⟨unit', hunit', hsame⟩ := unitOf_steep steep steep.self_mem_postOrder
      obtain rfl := Except.ok.inj (hunit.symm.trans hunit')
      rw [← hsame rfl]
      exact hmap
  · refine absurd (by decide) (hstop.not_nodup fun node hnode => ?_)
    obtain ⟨unit, hunit, -⟩ := unitOf_steep node hnode
    exact ⟨unit, hunit⟩

theorem resolved_units_analyzed_steep : ∃ (registry : Registry Rat) (units : UnitMap),
    registry.Reachable ∧ StrictlyResolved registry steepField "5 C / t" steep units ∧
    units[2]? = some ⟨.single "C" .one, .single "Z" .one⟩ ∧
    (∀ symbol ∈ ["C", "Z"], (∃ node ∈ steep.postOrder, steepField.Gives symbol node) ∧
      registry.hasUnit symbol = true) ∧
    registry.Analyzes ⟨.single "C" .one, .single "Z" .one⟩ ∧
    ((⟨5, ⟨.single "C" .one, .single "Z" .one⟩⟩ : Quantity Rat).normalize registry =
        .error .zeroConversionFactor ↔
      (∃ base, registry.baseUnits ⟨.single "C" .one, .single "Z" .one⟩ = .ok base) ∧
        ∃ symbol ∈ ["Z"], registry.Collapses symbol) := by
  obtain ⟨units, h, hunit⟩ := strictlyResolved_steep
  have hreachable : ((Registry.empty : Registry Rat).after Registry.temperatures).Reachable :=
    ⟨Registry.temperatures, rfl⟩
  obtain ⟨hall, hexact⟩ := resolved_units_analyzed
  obtain ⟨hsymbols, hanalyzes⟩ := hall _ _ _ _ _ _ hreachable h 2 _ hunit
  exact ⟨_, units, hreachable, h, hunit, hsymbols, hanalyzes,
    hexact _ _ _ _ _ hreachable h 2 _ hunit 5⟩

/-- The quotient has base units, and yet a quantity in its unit is not normalized: no way leads back
    from the unit of the field. -/
theorem not_isOverflow_steep : ∃ (registry : Registry Rat) (units : UnitMap),
    registry.Reachable ∧ StrictlyResolved registry steepField "5 C / t" steep units ∧
    units[2]? = some ⟨.single "C" .one, .single "Z" .one⟩ ∧
    ∃ cause, (⟨5, ⟨.single "C" .one, .single "Z" .one⟩⟩ : Quantity Rat).normalize registry =
      .error cause ∧ ¬cause.IsOverflow := by
  obtain ⟨units, h, hunit⟩ := strictlyResolved_steep
  have hreachable : ((Registry.empty : Registry Rat).after Registry.temperatures).Reachable :=
    ⟨Registry.temperatures, rfl⟩
  have hbase : ∃ base, ((Registry.empty : Registry Rat).after Registry.temperatures).baseUnits
      ⟨.single "C" .one, .single "Z" .one⟩ = .ok base :=
    hreachable.wellFormed.exists_baseUnits_iff.2 ⟨_, Registry.dimensionsOfUnits_quotient
      (Registry.measuredBy_temperatures (by simp)) (Registry.measuredBy_temperatures (by simp)) _ _⟩
  -- The number of a step is zero for the unit of the field, so it cannot be divided by.
  have hcollapses :
      ((Registry.empty : Registry Rat).after Registry.temperatures).Collapses "Z" := by
    refine ⟨⟨0, 1⟩, ?_, rfl⟩
    rw [Registry.unitStep, Registry.measuredBy_temperatures (by simp)]
    rfl
  refine ⟨_, units, hreachable, h, hunit, .zeroConversionFactor, ?_, ?_⟩
  · exact (Quantity.normalize_eq_error_iff hreachable.wellFormed (h.hasUnit hunit)).2
      ⟨hbase, "Z", List.mem_singleton_self _, hcollapses⟩
  · rintro ⟨symbol, hsymbol⟩
    cases hsymbol

end Context

end UnitCheck
