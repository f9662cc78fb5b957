import UnitCheck.Proofs.NodeUnit
import UnitCheck.Proofs.Parser.Steps
import UnitCheck.Proofs.RoundTrip

/-!
  Numbers of nodes over all calls of a parser.

  A parser can be called again after it has answered, and its builder counts on. A tree that a
  call returns has consecutive ids in post-order, the first of which is the number of nodes made
  before (`numbered_of_parse`); since calls that fail make nodes too, and none takes a node back
  (`Steps.count_le`), trees of different calls share no id. The ids of one tree are distinct, so
  its resolution never meets an id twice. Even so it can answer with that failure, if the rule
  that a context gives a method does (`Context.resolve_eq_duplicateId_iff`).
-/

namespace UnitCheck

/-! ## Trees that are built -/

namespace Phrase

mutual
/-- A phrase has the size of the tree that it denotes. -/
theorem size_of_build : ∀ {phrase : Phrase} {start : Nat} {tree : Expr},
    phrase.build start = .ok tree → tree.size = phrase.size
  | field _, _, _, h => by
    cases h
    rfl
  | literal _ _, _, _, h => by
    obtain ⟨v, -, rfl⟩ := exists_of_build_literal h
    rfl
  | cast _ operand, _, _, h => by
    obtain ⟨inner, hinner, rfl⟩ := exists_of_build_cast h
    rw [Expr.size, size, size_of_build hinner, Nat.add_comm]
  | call _ arguments, _, _, h => by
    obtain ⟨built, hbuilt, rfl⟩ := exists_of_build_call h
    rw [Expr.size, size, sizes_of_buildAll hbuilt, Nat.add_comm]
  | binary _ left right, _, _, h => by
    obtain ⟨l, r, hl, hr, rfl⟩ := exists_of_build_binary h
    rw [Expr.size, size, size_of_build hl, size_of_build hr, Nat.add_comm]
  | unary _ operand, _, _, h => by
    obtain ⟨inner, hinner, rfl⟩ := exists_of_build_unary h
    rw [Expr.size, size, size_of_build hinner, Nat.add_comm]

theorem sizes_of_buildAll : ∀ {phrases : List Phrase} {start : Nat} {trees : List Expr},
    buildAll phrases start = .ok trees → Expr.sizes trees = sizes phrases
  | [], _, _, h => by
    cases h
    rfl
  | p :: ps, _, _, h => by
    obtain ⟨e, es, he, hes, rfl⟩ := exists_of_buildAll_cons h
    rw [Expr.sizes, sizes, size_of_build he, sizes_of_buildAll hes]
end

mutual
/-- The nodes are built in post-order, so numbering them again changes nothing. -/
theorem numberedFrom_of_build : ∀ {phrase : Phrase} {start : Nat} {tree : Expr},
    phrase.build start = .ok tree → tree.numberedFrom start = tree
  | field _, _, _, h => by
    cases h
    rfl
  | literal _ _, _, _, h => by
    obtain ⟨v, -, rfl⟩ := exists_of_build_literal h
    rfl
  | cast _ operand, _, _, h => by
    obtain ⟨inner, hinner, rfl⟩ := exists_of_build_cast h
    rw [Expr.numberedFrom, size_of_build hinner, numberedFrom_of_build hinner]
  | call _ arguments, _, _, h => by
    obtain ⟨built, hbuilt, rfl⟩ := exists_of_build_call h
    rw [Expr.numberedFrom, sizes_of_buildAll hbuilt, allNumberedFrom_of_buildAll hbuilt]
  | binary _ left right, _, _, h => by
    obtain ⟨l, r, hl, hr, rfl⟩ := exists_of_build_binary h
    rw [Expr.numberedFrom, size_of_build hl, size_of_build hr, numberedFrom_of_build hl,
      numberedFrom_of_build hr]
  | unary _ operand, _, _, h => by
    obtain ⟨inner, hinner, rfl⟩ := exists_of_build_unary h
    rw [Expr.numberedFrom, size_of_build hinner, numberedFrom_of_build hinner]

theorem allNumberedFrom_of_buildAll : ∀ {phrases : List Phrase} {start : Nat} {trees : List Expr},
    buildAll phrases start = .ok trees → Expr.allNumberedFrom trees start = trees
  | [], _, _, h => by
    cases h
    rfl
  | p :: ps, _, _, h => by
    obtain ⟨e, es, he, hes, rfl⟩ := exists_of_buildAll_cons h
    rw [Expr.allNumberedFrom, size_of_build he, numberedFrom_of_build he,
      allNumberedFrom_of_buildAll hes]
end

end Phrase

namespace Parser

variable {allowed : String → Bool} {p q : Parser} {tree : Expr}

/-! ## One call -/

/-- A call that succeeds numbers its nodes from the count on, and counts them. -/
theorem numbered_of_parse (h : p.parse allowed = (.ok tree, q)) :
    tree.ids = List.range' p.builder.count tree.size ∧
      q.builder.count = p.builder.count + tree.size := by
  -- The tree is a phrase built from the count on, so it has the numbers it would get from there.
  obtain ⟨phrase, words, n, -, -, hconsumes, hbuild, -, -⟩ := parse_sound h
  have hnumbered := tree.ids_numberedFrom p.builder.count
  rw [Phrase.numberedFrom_of_build hbuild] at hnumbered
  exact ⟨hnumbered, by rw [hconsumes.count, Phrase.size_of_build hbuild]⟩

/-- No call takes a node back, also if it fails. -/
theorem count_le_parse (allowed : String → Bool) (p : Parser) :
    p.builder.count ≤ (p.parse allowed).2.builder.count :=
  (steps_parse allowed p).count_le

/-! ## Calls one after the other -/

/-- A call with the parser before and after it. -/
structure Call where
  before : Parser
  result : Except FilterError Expr
  after : Parser

/-- How many nodes the call made, those of a failed one included. -/
def Call.nodes (call : Call) : Nat := call.after.builder.count - call.before.builder.count

/-- The calls of a parser one after the other, each with units of its own that are allowed. -/
def calls (p : Parser) : List (String → Bool) → List Call
  | [] => []
  | allowed :: more =>
    ⟨p, (p.parse allowed).1, (p.parse allowed).2⟩ :: (p.parse allowed).2.calls more

theorem exists_parse_of_mem_calls {validators : List (String → Bool)} {call : Call}
    (h : call ∈ p.calls validators) :
    ∃ allowed, call.before.parse allowed = (call.result, call.after) := by
  induction validators generalizing p with
  | nil => cases h
  | cons allowed more ih =>
    rcases List.mem_cons.1 h with rfl | h
    · exact ⟨allowed, rfl⟩
    · exact ih h

/-- What no call lowers has grown before a call by what the calls before it added. -/
theorem measure_before (measure : Parser → Nat)
    (hle : ∀ allowed p, measure p ≤ measure (parse p allowed).2)
    {validators : List (String → Bool)} {i : Nat} {call : Call}
    (h : (p.calls validators)[i]? = some call) :
    measure call.before =
      measure p + (((p.calls validators).take i).map fun earlier =>
        measure earlier.after - measure earlier.before).sum := by
  induction validators generalizing p i with
  | nil => cases h
  | cons allowed more ih =>
    rw [calls] at h ⊢
    cases i with
    | zero =>
      obtain rfl := Option.some.inj h
      rfl
    | succ i =>
      -- The first call has added its share, whether or not it has returned a tree.
      have hrest := ih h
      have hfirst := hle allowed p
      rw [List.take_succ_cons, List.map_cons, List.sum_cons, hrest, ← Nat.add_assoc,
        Nat.add_sub_cancel' hfirst]

/-- Before a call as many nodes are counted as the calls before it made. -/
theorem count_before {validators : List (String → Bool)} {i : Nat} {call : Call}
    (h : (p.calls validators)[i]? = some call) :
    call.before.builder.count =
      p.builder.count + (((p.calls validators).take i).map Call.nodes).sum :=
  measure_before (fun p => p.builder.count) count_le_parse h

theorem count_le_of_mem_calls {validators : List (String → Bool)} {call : Call}
    (h : call ∈ p.calls validators) : p.builder.count ≤ call.before.builder.count := by
  obtain ⟨i, hi⟩ := List.mem_iff_getElem?.1 h
  rw [count_before hi]
  exact Nat.le_add_right _ _

theorem pairwise_calls (p : Parser) (validators : List (String → Bool)) :
    (p.calls validators).Pairwise fun earlier later =>
      earlier.after.builder.count ≤ later.before.builder.count := by
  induction validators generalizing p with
  | nil => exact .nil
  | cons allowed more ih => exact .cons (fun _ hlater => count_le_of_mem_calls hlater) (ih _)

/-- The ids of a tree lie between the counts before and after its call. -/
theorem mem_ids_of_parse (h : p.parse allowed = (.ok tree, q)) {id : Nat} (hid : id ∈ tree.ids) :
    p.builder.count ≤ id ∧ id < q.builder.count := by
  obtain ⟨hids, hcount⟩ := numbered_of_parse h
  rw [hids, List.mem_range'_1] at hid
  omega

theorem nodup_ids_of_parse (h : p.parse allowed = (.ok tree, q)) : tree.ids.Nodup := by
  rw [(numbered_of_parse h).1]
  exact List.nodup_range'

end Parser

/-! ## All calls of a parser -/

/-- **Ids of parsed trees.** However often a parser is called on a text, a tree that it returns
    has the consecutive ids, in post-order, from the number of nodes on that the calls before
    made; trees of different calls have no id in common. The resolution of such a tree never
    finds an id twice: it answers with that failure just if the first node without a unit is a
    call whose rule in the context answers with it, and never with standard methods only. If the
    tree has units, they are as many as its nodes. -/
theorem Parser.calls_numbered (text : String) (validators : List (String → Bool)) :
    let calls := (Parser.ofText text).calls validators
    (∀ i call tree, calls[i]? = some call → call.result = .ok tree →
      tree.ids = List.range' ((calls.take i).map Call.nodes).sum tree.size ∧
        call.nodes = tree.size) ∧
    (calls.Pairwise fun earlier later => ∀ first second, earlier.result = .ok first →
      later.result = .ok second → first.ids.Disjoint second.ids) ∧
    ∀ call ∈ calls, ∀ tree, call.result = .ok tree → ∀ context : Context,
      (∀ id, context.resolve tree = .error (.duplicateId id) ↔
        context.RuleFails tree (.duplicateId id)) ∧
      (context.StandardMethods → ∀ id, context.resolve tree ≠ .error (.duplicateId id)) ∧
      ∀ units, context.resolve tree = .ok units → units.size = tree.size := by
  intro calls
  have hparse : ∀ call ∈ calls, ∀ tree, call.result = .ok tree →
      ∃ allowed, call.before.parse allowed = (.ok tree, call.after) := by
    intro call hcall tree htree
    obtain ⟨allowed, hrun⟩ := exists_parse_of_mem_calls hcall
    exact ⟨allowed, htree ▸ hrun⟩
  refine ⟨?_, ?_, ?_⟩
  · intro i call tree hi htree
    obtain ⟨allowed, hrun⟩ := hparse call (List.mem_of_getElem? hi) tree htree
    obtain ⟨hids, hcount⟩ := numbered_of_parse hrun
    have hstart : (Parser.ofText text).builder.count = 0 := rfl
    have hbefore := count_before hi
    rw [hstart, Nat.zero_add] at hbefore
    exact ⟨hbefore ▸ hids, by rw [Call.nodes]; omega⟩
  · refine (pairwise_calls _ validators).imp_of_mem fun hearlier hlater hle first second hfirst
      hsecond id hid hid' => ?_
    -- Ids of the earlier tree are below the count after its call, those of the later tree are not.
    obtain ⟨_, hrun⟩ := hparse _ hearlier first hfirst
    obtain ⟨_, hrun'⟩ := hparse _ hlater second hsecond
    have hupper := (mem_ids_of_parse hrun hid).2
    have hlower := (mem_ids_of_parse hrun' hid').1
    omega
  · intro call hcall tree htree context
    obtain ⟨_, hrun⟩ := hparse call hcall tree htree
    have hids := nodup_ids_of_parse hrun
    refine ⟨fun id => Context.resolve_eq_duplicateId_iff hids,
      fun hmethods => hmethods.resolve_ne_duplicateId hids, ?_⟩
    intro units h
    have hlength : tree.postOrder.length = tree.size := by
      rw [← List.length_map Expr.id, ← Expr.ids, (numbered_of_parse hrun).1, List.length_range']
    rw [(Context.noted_of_resolve h).size, hlength]

/-- The first call stops at `Not` inside the parentheses, with a literal made that no tree has. The
    second call reads on from there and numbers its nodes after it. They have units if the context
    gives `f` a rule with one. Where only standard methods are known there is no such method, which
    is not a matter of ids. A rule that tells of a repeated id is believed, though the tree has that
    id once. -/
theorem Parser.calls_numbered_stopped :
    let calls := (Parser.ofText "(1 cm Not f()").calls [fun _ => true, fun _ => true]
    let tree : Expr := .unary 2 .not (.call 1 "f" [])
    let binding (rule : MethodRule) := ((Bindings.empty true).setMethod "f" rule).context
    (∃ call, calls[1]? = some call ∧ call.result = .ok tree ∧
      tree.ids = List.range' ((calls.take 1).map Call.nodes).sum 2 ∧ call.nodes = 2) ∧
    (∃ units, (binding fun _ => .ok (.ofSymbol "m")).resolve tree = .ok units ∧
      units.size = 2) ∧
    (Bindings.empty true).context.resolve tree ≠ .error (.duplicateId 1) ∧
    (binding fun _ => .error (.duplicateId 1)).resolve tree = .error (.duplicateId 1) := by
  intro calls tree binding
  have hsecond : calls[1]?.map Call.result = some (.ok tree) := by cbv
  obtain ⟨call, hcall, hresult⟩ := Option.map_eq_some_iff.1 hsecond
  obtain ⟨hnumbered, -, hresolve⟩ :=
    Parser.calls_numbered "(1 cm Not f()" [fun _ => true, fun _ => true]
  have hresolve := hresolve call (List.mem_of_getElem? hcall) tree hresult
  have hrule (rule : MethodRule) : (binding rule).methodRule "f" = some rule :=
    Context.methodRule_setMethod _ _ rule
  refine ⟨⟨call, hcall, hresult, hnumbered 1 call tree hcall hresult⟩, ?_, ?_, ?_⟩
  · have hroot : (binding fun _ => .ok (.ofSymbol "m")).HasUnit tree := by
      refine ⟨.ofSymbol "m", ?_⟩
      rw [Context.unitOf, Context.unitOf, hrule]
      rfl
    obtain ⟨units, hunits⟩ := (Context.exists_resolve_iff (by decide)).2 hroot
    exact ⟨units, hunits, (hresolve _).2.2 units hunits⟩
  · exact (hresolve _).2.1 (Context.standardMethods_of_bindings rfl) 1
  · exact ((hresolve _).1 1).2
      ⟨[], 1, "f", [], [tree], _, [], rfl, fun _ h => absurd h List.not_mem_nil, hrule _, rfl, rfl⟩

/-- No rule is kept from answering that an id is repeated, also where the only node is the call. -/
theorem Parser.duplicateId_of_rule :
    let context := ((Bindings.empty true).setMethod "f" fun _ => .error (.duplicateId 7)).context
    ∃ call ∈ (Parser.ofText "f()").calls [fun _ => true], ∃ tree, call.result = .ok tree ∧
      tree.ids = [0] ∧ context.resolve tree = .error (.duplicateId 7) := by
  intro context
  have hfirst : ((Parser.ofText "f()").calls [fun _ => true])[0]?.map Call.result =
      some (.ok (.call 0 "f" [])) := by cbv
  obtain ⟨call, hcall, hresult⟩ := Option.map_eq_some_iff.1 hfirst
  refine ⟨call, List.mem_of_getElem? hcall, _, hresult, rfl, ?_⟩
  have hrule : context.methodRule "f" = some fun _ => .error (.duplicateId 7) :=
    Context.methodRule_setMethod _ _ _
  exact (Context.resolve_eq_duplicateId_iff (by decide)).2
    ⟨[], 0, "f", [], [], _, [], rfl, fun _ h => absurd h List.not_mem_nil, hrule, rfl, rfl⟩

end UnitCheck
