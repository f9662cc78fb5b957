import UnitCheck.Proofs.Sentences

/-!
  The ways from the root of a tree to its nodes.

  Of the nodes on a way, the limit of open parts counts all but the operations that the way leaves
  to the left: a link is counted for its right operand, and no longer when its chain becomes the
  left operand of another one (`Expr.counts_of_ofText`).
-/

namespace UnitCheck

/-- The nodes on the way from the root of a tree to a node, both included. -/
structure Way where
  /-- The nodes but those that are left to the left. -/
  counted : Nat
  /-- The operations that the way leaves to their left operand. -/
  left : Nat

namespace Way

/-- The way that ends at the root. -/
def root : Way := ⟨1, 0⟩

/-- The way from a node above. -/
def below (way : Way) : Way := ⟨way.counted + 1, way.left⟩

/-- The way from an operation above, whose left operand it enters. -/
def leftward (way : Way) : Way := ⟨way.counted, way.left + 1⟩

end Way

namespace Expr

mutual
/-- The ways from the root of a tree to each of its nodes. -/
def ways : Expr → List Way
  | field _ _ | literal _ _ _ => [.root]
  | cast _ _ operand | unary _ _ operand => .root :: operand.ways.map .below
  | call _ _ arguments => .root :: (waysOfAll arguments).map .below
  | binary _ _ left right => .root :: (left.ways.map .leftward ++ right.ways.map .below)

/-- The ways from the roots of some trees. -/
def waysOfAll : List Expr → List Way
  | [] => []
  | e :: es => e.ways ++ waysOfAll es
end

/-- No way has more counted nodes. -/
def Counts (e : Expr) (bound : Nat) : Prop := ∀ way ∈ e.ways, way.counted ≤ bound

variable {left right operand : Expr} {m n : Nat}

theorem Counts.mono (h : operand.Counts m) (hle : m ≤ n) : operand.Counts n :=
  fun way hway => Nat.le_trans (h way hway) hle

theorem forall_mem_waysOfAll {es : List Expr} (h : ∀ e ∈ es, e.Counts n) :
    ∀ way ∈ waysOfAll es, way.counted ≤ n := by
  induction es with
  | nil =>
    intro way hway
    cases hway
  | cons e es ih =>
    obtain ⟨he, hes⟩ := List.forall_mem_cons.1 h
    intro way hway
    rcases List.mem_append.1 hway with hway | hway
    · exact he way hway
    · exact ih hes way hway

/-- The root is counted, and every way below it once more. -/
theorem forall_mem_below {ways : List Way} (h : ∀ way ∈ ways, way.counted ≤ n) :
    ∀ way ∈ Way.root :: ways.map .below, way.counted ≤ n + 1 := by
  refine List.forall_mem_cons.2 ⟨Nat.succ_le_succ (Nat.zero_le n), ?_⟩
  exact List.forall_mem_map.2 fun way hway => Nat.succ_le_succ (h way hway)

theorem counts_cast {id : Nat} {target : CastType} (h : operand.Counts n) :
    (cast id target operand).Counts (n + 1) := forall_mem_below h

theorem counts_unary {id : Nat} {op : UnaryOp} (h : operand.Counts n) :
    (unary id op operand).Counts (n + 1) := forall_mem_below h

theorem counts_call {id : Nat} {name : String} {arguments : List Expr}
    (h : ∀ e ∈ arguments, e.Counts n) : (call id name arguments).Counts (n + 1) :=
  forall_mem_below (forall_mem_waysOfAll h)

/-- An operation is counted for its right operand only. -/
theorem counts_binary {id : Nat} {op : BinaryOp} (hleft : left.Counts (n + 1))
    (hright : right.Counts n) : (binary id op left right).Counts (n + 1) := by
  have hbelow := forall_mem_below hright
  obtain ⟨hroot, hbelow⟩ := List.forall_mem_cons.1 hbelow
  refine List.forall_mem_cons.2 ⟨hroot, List.forall_mem_append.2 ⟨?_, hbelow⟩⟩
  exact List.forall_mem_map.2 hleft

end Expr

/-! ## Counting while reading -/

/-- No way in the denoted tree has more counted nodes. -/
def Phrase.Counts (phrase : Phrase) (bound : Nat) : Prop :=
  ∀ start tree, phrase.build start = .ok tree → tree.Counts bound

theorem Phrase.Counts.mono {phrase : Phrase} {m n : Nat} (h : phrase.Counts m) (hle : m ≤ n) :
    phrase.Counts n := fun start tree hbuild => (h start tree hbuild).mono hle

/-- What is read has at most as many counted nodes on a way as parts are open at once. A sign is
    not counted as a part, but an expression is, and it has one at most. Links need a part more
    than their start may have counted nodes. -/
def Reading.Counts : Reading → Nat → Prop
  | .operand phrase, n | .expression phrase, n => phrase.Counts n
  | .signed phrase, n | .chain _ phrase, n => phrase.Counts (n + 1)
  | .arguments phrases, n => ∀ start trees, Phrase.buildAll phrases start = .ok trees →
    ∀ tree ∈ trees, tree.Counts n
  | .links _ _ left phrase, n => ∀ bound, n < bound → left.Counts bound → phrase.Counts bound

theorem Derives.counts {reading : Reading} {words : List Word} {n : Nat}
    (h : Derives reading words n) : reading.Counts n := by
  induction h with
  | expression _ ih | tightest _ ih => exact ih
  | @chain _ _ left _ _ _ m n _ _ ih ihlinks =>
    -- Links need a bound above the number of their parts, and a chain may have one node more.
    have hleft : left.Counts (max m n + 1) := Phrase.Counts.mono ih (by omega)
    exact ihlinks (max m n + 1) (by omega) hleft
  | unlinked => exact fun _ _ hleft => hleft
  | @link _ _ left right _ _ op _ _ m n _ _ _ ih ihlinks =>
    intro bound hbound hleft
    refine ihlinks bound (by omega) fun start tree hbuild => ?_
    obtain ⟨l, r, hl, hr, rfl⟩ := Phrase.exists_of_build_binary hbuild
    -- The right operand is read with the link open.
    obtain ⟨k, rfl⟩ : ∃ k, bound = k + 1 := ⟨bound - 1, by omega⟩
    exact Expr.counts_binary (hleft _ _ hl) ((ih _ _ hr).mono (by omega))
  | unsigned _ ih => exact Phrase.Counts.mono ih (Nat.le_succ _)
  | signed _ _ ih =>
    intro start tree hbuild
    obtain ⟨inner, hinner, rfl⟩ := Phrase.exists_of_build_unary hbuild
    exact Expr.counts_unary (ih _ _ hinner)
  | literal _ | quantity _ _ _ =>
    intro start tree hbuild
    obtain ⟨v, -, rfl⟩ := Phrase.exists_of_build_literal hbuild
    exact List.forall_mem_singleton.2 (Nat.le_refl 1)
  | field _ =>
    intro start tree hbuild
    cases hbuild
    exact List.forall_mem_singleton.2 (Nat.le_refl 1)
  | emptyCall _ _ _ =>
    intro start tree hbuild
    cases hbuild
    exact List.forall_mem_singleton.2 (Nat.le_refl 1)
  | call _ _ _ _ ih =>
    intro start tree hbuild
    obtain ⟨built, hbuilt, rfl⟩ := Phrase.exists_of_build_call hbuild
    exact Expr.counts_call (ih _ _ hbuilt)
  | cast _ _ _ _ ih =>
    intro start tree hbuild
    obtain ⟨inner, hinner, rfl⟩ := Phrase.exists_of_build_cast hbuild
    exact Expr.counts_cast (ih _ _ hinner)
  | group _ _ _ ih => exact Phrase.Counts.mono ih (Nat.le_succ _)
  | lastArgument _ ih =>
    intro start trees hbuild tree htree
    obtain ⟨e, es, he, hes, rfl⟩ := Phrase.exists_of_buildAll_cons hbuild
    cases hes
    obtain rfl := List.mem_singleton.1 htree
    exact ih _ _ he
  | @moreArguments _ _ _ _ _ m n _ _ _ ih ihrest =>
    intro start trees hbuild tree htree
    obtain ⟨e, es, he, hes, rfl⟩ := Phrase.exists_of_buildAll_cons hbuild
    -- Arguments are open one after the other.
    rcases List.mem_cons.1 htree with rfl | htree
    · exact (ih _ _ he).mono (Nat.le_max_left m n)
    · exact (ihrest _ _ hes tree htree).mono (Nat.le_max_right m n)

/-- The limit of open parts bounds what it counts. -/
theorem Expr.counts_of_ofText {text : String} {tree : Expr} (h : Expr.ofText text = .ok tree) :
    tree.Counts maxDepth := by
  obtain ⟨phrase, n, hderives, hroom, hbuild, -⟩ := Expr.ofTextWith_sound h
  have hphrase : phrase.Counts n := hderives.counts
  exact (hphrase 0 tree hbuild).mono hroom

end UnitCheck
