import UnitCheck.Proofs.Links
import UnitCheck.Proofs.Ways

/-!
  The heights of trees that were read off a text.

  At most `maxDepth` parts of a text are open at once, and yet its tree may be higher: the links of
  a chain are counted after its first operand was read, and no longer when the chain ends, although
  that operand and that chain stay below what follows. So each of the six tiers adds its links to
  whatever comes before them, again in each pair of parentheses.

  `Derives.atMost` bounds the height by the number of open parts, one case for each form of a
  derivation, and `height_towerPhrase` attains the bound. A chain without any parentheses is enough
  for a tree that is higher than `maxDepth` (`Expr.exists_ofText_flatText`).
-/

namespace UnitCheck

/-! ## Heights -/

namespace Expr

mutual
/-- The number of nodes on a longest path from the root of a tree. -/
def height : Expr → Nat
  | field _ _ | literal _ _ _ => 1
  | cast _ _ operand | unary _ _ operand => 1 + operand.height
  | call _ _ arguments => 1 + heights arguments
  | binary _ _ left right => 1 + max left.height right.height

/-- The number of nodes on a longest path in some trees. -/
def heights : List Expr → Nat
  | [] => 0
  | e :: es => max e.height (heights es)
end

/-- The way that ends at the root is the shortest, and the others are longer by one node. -/
theorem forall_root_below_iff {ways : List Way} {above bound : Nat} :
    (∀ way ∈ Way.root :: ways.map .below, way.counted + way.left + above ≤ bound) ↔
      above + 1 ≤ bound ∧ ∀ way ∈ ways, way.counted + way.left + (above + 1) ≤ bound := by
  rw [List.forall_mem_cons, List.forall_mem_map]
  have hroot : Way.root.counted + Way.root.left + above = above + 1 := Nat.add_comm 1 above
  have hbelow : ∀ way : Way, way.below.counted + way.below.left + above =
      way.counted + way.left + (above + 1) := by
    intro way
    show way.counted + 1 + way.left + above = _
    omega
  simp only [hroot, hbelow]

theorem forall_leftward_iff {ways : List Way} {above bound : Nat} :
    (∀ way ∈ ways.map Way.leftward, way.counted + way.left + above ≤ bound) ↔
      ∀ way ∈ ways, way.counted + way.left + (above + 1) ≤ bound := by
  rw [List.forall_mem_map]
  have hleftward : ∀ way : Way, way.leftward.counted + way.leftward.left + above =
      way.counted + way.left + (above + 1) := by
    intro way
    show way.counted + (way.left + 1) + above = _
    omega
  simp only [hleftward]

mutual
/-- The height is the length of the longest way. -/
theorem height_add_le_iff : ∀ (e : Expr) (above bound : Nat),
    e.height + above ≤ bound ↔ ∀ way ∈ e.ways, way.counted + way.left + above ≤ bound
  | field _ _, above, bound | literal _ _ _, above, bound => by
    rw [ways, List.forall_mem_singleton, height]
    exact .rfl
  | cast _ _ operand, above, bound | unary _ _ operand, above, bound => by
    have ih := height_add_le_iff operand (above + 1) bound
    rw [ways, forall_root_below_iff, ← ih, height]
    omega
  | call _ _ arguments, above, bound => by
    have ih := heights_add_le_iff arguments (above + 1) bound
    rw [ways, forall_root_below_iff, ← ih, height]
    omega
  | binary _ _ left right, above, bound => by
    have ihleft := height_add_le_iff left (above + 1) bound
    have ihright := height_add_le_iff right (above + 1) bound
    -- The root goes with the right operand here; the ways to the left leave it uncounted.
    have hright := @forall_root_below_iff right.ways above bound
    rw [List.forall_mem_cons] at hright
    rw [ways, List.forall_mem_cons, List.forall_mem_append, and_left_comm, hright,
      forall_leftward_iff, ← ihleft, ← ihright, height]
    omega

theorem heights_add_le_iff : ∀ (es : List Expr) (above bound : Nat),
    heights es + above ≤ bound ↔
      above ≤ bound ∧ ∀ way ∈ waysOfAll es, way.counted + way.left + above ≤ bound
  | [], above, bound => by
    rw [heights, waysOfAll, Nat.zero_add]
    exact ⟨fun h => ⟨h, fun _ hway => nomatch hway⟩, fun h => h.1⟩
  | e :: es, above, bound => by
    have ih := height_add_le_iff e above bound
    have ihs := heights_add_le_iff es above bound
    rw [heights, waysOfAll, List.forall_mem_append, and_left_comm, ← ihs, ← ih]
    omega
end

end Expr

namespace Phrase

mutual
/-- The height of the tree that is denoted. -/
def height : Phrase → Nat
  | field _ | literal _ _ => 1
  | cast _ operand | unary _ operand => 1 + operand.height
  | call _ arguments => 1 + heights arguments
  | binary _ left right => 1 + max left.height right.height

/-- The height of the trees that are denoted. -/
def heights : List Phrase → Nat
  | [] => 0
  | p :: ps => max p.height (heights ps)
end

theorem height_pos (p : Phrase) : 0 < p.height := by
  cases p <;> rw [height] <;> omega

mutual
/-- A phrase has the height of the tree that it denotes. -/
theorem height_of_build : ∀ {phrase : Phrase} {start : Nat} {tree : Expr},
    phrase.build start = .ok tree → tree.height = phrase.height
  | field _, _, _, h => by
    cases h
    rfl
  | literal _ _, _, _, h => by
    obtain ⟨v, -, rfl⟩ := exists_of_build_literal h
    rfl
  | cast _ operand, _, _, h => by
    obtain ⟨inner, hinner, rfl⟩ := exists_of_build_cast h
    rw [Expr.height, height, height_of_build hinner]
  | call _ arguments, _, _, h => by
    obtain ⟨built, hbuilt, rfl⟩ := exists_of_build_call h
    rw [Expr.height, height, heights_of_buildAll hbuilt]
  | binary _ left right, _, _, h => by
    obtain ⟨l, r, hl, hr, rfl⟩ := exists_of_build_binary h
    rw [Expr.height, height, height_of_build hl, height_of_build hr]
  | unary _ operand, _, _, h => by
    obtain ⟨inner, hinner, rfl⟩ := exists_of_build_unary h
    rw [Expr.height, height, height_of_build hinner]

theorem heights_of_buildAll : ∀ {phrases : List Phrase} {start : Nat} {trees : List Expr},
    buildAll phrases start = .ok trees → Expr.heights trees = heights phrases
  | [], _, _, h => by
    cases h
    rfl
  | p :: ps, _, _, h => by
    obtain ⟨e, es, he, hes, rfl⟩ := exists_of_buildAll_cons h
    rw [Expr.heights, heights, height_of_build he, heights_of_buildAll hes]
end

/-- A phrase without literals denotes a tree. -/
theorem exists_build_of_literals {phrase : Phrase} (h : phrase.literals = []) (start : Nat) :
    ∃ tree, phrase.build start = .ok tree := by
  cases hbuild : phrase.build start with
  | ok tree => exact ⟨tree, rfl⟩
  | error cause =>
    have hmem := mem_literals_of_error hbuild
    rw [h] at hmem
    cases hmem

end Phrase

/-! ## The greatest heights -/

/-- The greatest height of an operand with that many parts open. From the third part on, the
    tallest operand has a whole expression inside. -/
def tallestOperand : Nat → Nat
  | 0 => 0
  | 1 => 1
  | 2 => 2
  | n + 3 => tallestOperand (n + 1) + 6 * n + 2

/-- The greatest height of a chain of that many tiers with `n` parts open: each tier has a link
    for every part but one, and the first operand has a sign. -/
def tallestChain (tiers n : Nat) : Nat := tallestOperand n + 1 + tiers * (n - 1)

theorem tallestOperand_lt_succ : ∀ n, tallestOperand n < tallestOperand (n + 1)
  | 0 => by decide
  | 1 => by decide
  | 2 => by decide
  | n + 3 => by
    -- A tallest operand is built on the one with two parts less.
    have ih : tallestOperand (n + 1) < tallestOperand (n + 2) := tallestOperand_lt_succ (n + 1)
    have hthis : tallestOperand (n + 3) = tallestOperand (n + 1) + 6 * n + 2 := rfl
    have hnext : tallestOperand (n + 4) = tallestOperand (n + 2) + 6 * (n + 1) + 2 := rfl
    show tallestOperand (n + 3) < tallestOperand (n + 4)
    omega

theorem tallestOperand_mono {m n : Nat} (h : m ≤ n) : tallestOperand m ≤ tallestOperand n := by
  induction h with
  | refl => exact Nat.le_refl _
  | @step k _ ih =>
    have hlt := tallestOperand_lt_succ k
    show tallestOperand m ≤ tallestOperand (k + 1)
    omega

theorem tallestChain_mono (tiers : Nat) {m n : Nat} (h : m ≤ n) :
    tallestChain tiers m ≤ tallestChain tiers n := by
  have hoperand := tallestOperand_mono h
  have hlinks : tiers * (m - 1) ≤ tiers * (n - 1) :=
    Nat.mul_le_mul_left tiers (Nat.sub_le_sub_right h 1)
  unfold tallestChain
  omega

/-- A tier more adds its links. -/
theorem tallestChain_succ (tiers n : Nat) :
    tallestChain (tiers + 1) n = tallestChain tiers n + (n - 1) := by
  have hlinks : (tiers + 1) * (n - 1) = tiers * (n - 1) + (n - 1) := Nat.succ_mul tiers (n - 1)
  unfold tallestChain
  omega

/-- Parentheses or a call around an expression take two parts. -/
theorem tallestOperand_add_two {n : Nat} (h : 0 < n) :
    tallestOperand (n + 2) = tallestChain 6 n + 1 := by
  obtain ⟨k, rfl⟩ := Nat.exists_eq_add_of_lt h
  have hstep : tallestOperand (0 + k + 1 + 2) = tallestOperand (0 + k + 1) + 6 * (0 + k) + 2 := rfl
  rw [hstep, tallestChain]
  omega

/-- The greatest height of an expression that leaves all parts but its own open. -/
theorem tallestChain_greatest : tallestChain 6 199 = 59600 := by decide +kernel

/-! ## No tree is higher -/

/-- What is read with that many parts open has at most the greatest height. Links start from a
    height that is given. -/
def Reading.AtMost : Reading → Nat → Prop
  | .operand phrase, n => 0 < n ∧ phrase.height ≤ tallestOperand n
  | .signed phrase, n => 0 < n ∧ phrase.height ≤ tallestOperand n + 1
  | .chain tiers phrase, n => 0 < n ∧ phrase.height ≤ tallestChain tiers.length n
  | .expression phrase, n => 1 < n ∧ phrase.height ≤ tallestChain 6 (n - 1)
  | .arguments phrases, n => 1 < n ∧ Phrase.heights phrases ≤ tallestChain 6 (n - 1)
  | .links _ tighter left phrase, n =>
    phrase.height ≤ max left.height (tallestChain tighter.length n) + (n - 1)

theorem tallestOperand_around {n : Nat} (h : 1 < n) :
    tallestOperand (n + 1) = tallestChain 6 (n - 1) + 1 := by
  have hparts : n - 1 + 2 = n + 1 := by omega
  rw [← hparts]
  exact tallestOperand_add_two (by omega)

/-- One link, and the links after it. -/
theorem atMost_link {tier : Tier} {tighter : List Tier} {left right phrase : Phrase} {op : BinaryOp}
    {m n : Nat} (hnext : (Reading.chain tighter right).AtMost m)
    (hrest : (Reading.links tier tighter (.binary op left right) phrase).AtMost n) :
    (Reading.links tier tighter left phrase).AtMost (max m n + 1) := by
  obtain ⟨hpos, hright⟩ := hnext
  have hoperation : (Phrase.binary op left right).height = 1 + max left.height right.height := by
    rw [Phrase.height]
  have hfirst : tallestChain tighter.length m ≤ tallestChain tighter.length (max m n + 1) :=
    tallestChain_mono _ (by omega)
  have hothers : tallestChain tighter.length n ≤ tallestChain tighter.length (max m n + 1) :=
    tallestChain_mono _ (by omega)
  show phrase.height ≤
    max left.height (tallestChain tighter.length (max m n + 1)) + (max m n + 1 - 1)
  have hphrase : phrase.height ≤
      max (Phrase.binary op left right).height (tallestChain tighter.length n) + (n - 1) := hrest
  rw [hoperation] at hphrase
  -- Without further links the operation is the phrase, and it took one part at least.
  by_cases hn : n = 0
  · subst hn
    have hnone : tallestChain tighter.length 0 = 1 := by
      rw [tallestChain, tallestOperand, Nat.zero_sub, Nat.mul_zero]
    omega
  · omega

/-- The links of a tier come on top of its first operand. -/
theorem atMost_chain {tier : Tier} {tighter : List Tier} {left phrase : Phrase} {m n : Nat}
    (hfirst : (Reading.chain tighter left).AtMost m)
    (hrest : (Reading.links tier tighter left phrase).AtMost n) :
    (Reading.chain (tier :: tighter) phrase).AtMost (max m n) := by
  obtain ⟨hpos, hleft⟩ := hfirst
  have hphrase : phrase.height ≤
      max left.height (tallestChain tighter.length n) + (n - 1) := hrest
  have hoperand : tallestChain tighter.length m ≤ tallestChain tighter.length (max m n) :=
    tallestChain_mono _ (by omega)
  have hlinks : tallestChain tighter.length n ≤ tallestChain tighter.length (max m n) :=
    tallestChain_mono _ (by omega)
  refine ⟨by omega, ?_⟩
  rw [List.length_cons, tallestChain_succ]
  omega

/-- The more parts are open at once, the higher a tree may be. -/
theorem Derives.atMost {reading : Reading} {words : List Word} {n : Nat}
    (h : Derives reading words n) : reading.AtMost n := by
  induction h with
  | @expression phrase _ n _ ih =>
    obtain ⟨hpos, hheight⟩ := ih
    exact ⟨by omega, hheight⟩
  | tightest _ ih =>
    obtain ⟨hpos, hheight⟩ := ih
    refine ⟨hpos, ?_⟩
    rw [tallestChain, List.length_nil, Nat.zero_mul, Nat.add_zero]
    exact hheight
  | chain _ _ ih ihlinks => exact atMost_chain ih ihlinks
  | @unlinked _ tighter left =>
    show left.height ≤ max left.height _ + (0 - 1)
    omega
  | link _ _ _ ih ihlinks => exact atMost_link ih ihlinks
  | unsigned _ ih => exact ⟨ih.1, Nat.le_succ_of_le ih.2⟩
  | signed _ _ ih =>
    refine ⟨ih.1, ?_⟩
    rw [Phrase.height, Nat.add_comm]
    exact Nat.succ_le_succ ih.2
  | literal _ | quantity _ _ _ | field _ => exact ⟨Nat.one_pos, Nat.le_refl 1⟩
  | emptyCall _ _ _ => exact ⟨Nat.one_pos, Nat.le_refl 1⟩
  | call _ _ _ _ ih =>
    refine ⟨by omega, ?_⟩
    rw [Phrase.height, tallestOperand_around ih.1, Nat.add_comm]
    exact Nat.succ_le_succ ih.2
  | @cast _ _ _ _ _ operand n _ _ _ _ ih =>
    -- A cast is one node and one part, and one part more always leaves room for one node.
    have hlt := tallestOperand_lt_succ n
    have hoperand := ih.2
    refine ⟨by omega, ?_⟩
    rw [Phrase.height]
    omega
  | group _ _ _ ih =>
    refine ⟨by omega, ?_⟩
    rw [tallestOperand_around ih.1]
    exact Nat.le_succ_of_le ih.2
  | lastArgument _ ih =>
    refine ⟨ih.1, ?_⟩
    rw [Phrase.heights, Phrase.heights, Nat.max_zero]
    exact ih.2
  | @moreArguments phrase phrases _ _ _ m n _ _ _ ih ihrest =>
    have hfirst : tallestChain 6 (m - 1) ≤ tallestChain 6 (max m n - 1) :=
      tallestChain_mono 6 (by omega)
    have hothers : tallestChain 6 (n - 1) ≤ tallestChain 6 (max m n - 1) :=
      tallestChain_mono 6 (by omega)
    have hheight := ih.2
    have hheights := ihrest.2
    refine ⟨lt_of_lt_of_le ih.1 (Nat.le_max_left m n), ?_⟩
    rw [Phrase.heights]
    omega

/-! ## Long chains at the tiers -/

/-- Every link makes the tree one node higher. -/
theorem Phrase.height_linked (left : Phrase) (ops : List BinaryOp) :
    (left.linked ops).height = left.height + ops.length := by
  induction ops generalizing left with
  | nil => rfl
  | cons op ops ih =>
    have hpos := left.height_pos
    rw [linked, ih, height, height, List.length_cons]
    omega

theorem Phrase.literals_linked {left : Phrase} (h : left.literals = []) (ops : List BinaryOp) :
    (left.linked ops).literals = [] := by
  induction ops generalizing left with
  | nil => exact h
  | cons op ops ih => exact ih (by rw [literals, h, literals, List.append_nil])

/-- An operator of every tier, the tightest first. -/
def tierOperators : List BinaryOp := [.lessThan, .equals, .multiply, .add, .and, .or]

/-- That many links with each of the operators. -/
def levels (n : Nat) (ops : List BinaryOp) : List BinaryOp := ops.flatMap (List.replicate n)

theorem length_levels (n : Nat) (ops : List BinaryOp) : (levels n ops).length = ops.length * n := by
  induction ops with
  | nil => rw [levels, List.flatMap_nil, List.length_nil, Nat.zero_mul]
  | cons op ops ih =>
    rw [levels] at ih
    rw [levels, List.flatMap_cons, List.length_append, List.length_replicate, ih, List.length_cons,
      Nat.succ_mul, Nat.add_comm]

/-- Each tier starts anew: the links of a chain cost nothing more when there were as many at a
    tighter tier. -/
theorem derives_levels {tiers : List Tier} {left : Phrase} {words : List Word} {m : Nat}
    (h : Derives (.chain tiers left) words m) (n : Nat) (op : BinaryOp) (ops : List BinaryOp) :
    Derives (.chain (((op :: ops).map BinaryOp.tier).reverse ++ tiers)
        (left.linked (levels n (op :: ops))))
      (words ++ linkWords (levels n (op :: ops))) (max m (n + min n 1)) := by
  have hchain := Derives.chain h (derives_replicate op tiers left n)
  induction ops generalizing op tiers left words m with
  | nil =>
    rw [levels, List.flatMap_singleton]
    exact hchain
  | cons next ops ih =>
    -- The whole chain so far is the first operand of the next tier, so its links are closed.
    have hmore := ih hchain next (.chain hchain (derives_replicate next _ _ n))
    rw [Nat.max_assoc, Nat.max_self] at hmore
    rw [List.map_cons, List.reverse_cons, List.append_assoc, List.singleton_append, levels,
      List.flatMap_cons, Phrase.linked_append, linkWords_append, ← List.append_assoc]
    exact hmore

/-- An operand with links of all the tiers is an expression. -/
theorem derives_tower {left : Phrase} {words : List Word} {m : Nat}
    (h : Derives (.signed left) words m) (n : Nat) :
    Derives (.expression (left.linked (levels n tierOperators)))
      (words ++ linkWords (levels n tierOperators)) (max m (n + min n 1) + 1) :=
  .expression (derives_levels (.tightest h) n .lessThan [.equals, .multiply, .add, .and, .or])

/-! ## The tallest trees -/

/-- A signed operand and links of all the tiers, in each other's argument that many times. -/
def towerChars : Nat → List Char
  | 0 => ['-', 'a']
  | k + 1 =>
    ('-' :: 'a' :: '(' :: (towerChars k ++ [')'])) ++ linkChars (levels (2 * k + 2) tierOperators)

/-- What the characters are read as. -/
def towerPhrase : Nat → Phrase
  | 0 => .unary .negate (.field "a")
  | k + 1 =>
    (Phrase.unary .negate (.call "a" [towerPhrase k])).linked (levels (2 * k + 2) tierOperators)

/-- The words of the characters. -/
def towerWords : Nat → List Word
  | 0 => [Symbol.minus.word, Expr.sumOperand]
  | k + 1 =>
    (Symbol.minus.word :: Expr.sumOperand :: Symbol.openParen.word ::
      (towerWords k ++ [Symbol.closeParen.word])) ++ linkWords (levels (2 * k + 2) tierOperators)

theorem reads_tower (k : Nat) : Reads (towerChars k) (towerWords k) := by
  have hname : Reads ['a'] [Expr.sumOperand] := Expr.isIdentifier_sumOperand.reads
  induction k with
  | zero => exact hname.symbol .minus fun _ => rfl
  | succ k ih =>
    have harguments : Reads (towerChars k ++ [')']) (towerWords k ++ [Symbol.closeParen.word]) :=
      ih.append (by decide) (by decide) Expr.reads_closing
    have hcall : Reads ('a' :: '(' :: (towerChars k ++ [')']))
        (Expr.sumOperand :: Symbol.openParen.word ::
          (towerWords k ++ [Symbol.closeParen.word])) :=
      hname.append (by decide) (by decide) (harguments.symbol .openParen fun _ => rfl)
    have hsigned := hcall.symbol .minus fun _ => rfl
    exact hsigned.linked _

theorem derives_towerPhrase (k : Nat) :
    Derives (.expression (towerPhrase k)) (towerWords k) (2 * k + 2) := by
  have hname : QualifiedName [Expr.sumOperand] ["a"] := .last rfl
  induction k with
  | zero =>
    have hsigned : Derives (.signed (.unary .negate (.field "a")))
        [Symbol.minus.word, Expr.sumOperand] 1 := .signed rfl (.field hname)
    exact .expression (.chain_of_signed hsigned _)
  | succ k ih =>
    -- Each storey is a call on the tower below, with a sign before it and chains around.
    have hcall : Derives (.operand (.call "a" [towerPhrase k]))
        ([Expr.sumOperand] ++ Symbol.openParen.word :: (towerWords k ++ [Symbol.closeParen.word]))
        (2 * k + 2 + 1) := .call hname rfl (.lastArgument ih) rfl
    have hsigned : Derives (.signed (.unary .negate (.call "a" [towerPhrase k])))
        (Symbol.minus.word :: Expr.sumOperand :: Symbol.openParen.word ::
          (towerWords k ++ [Symbol.closeParen.word])) (2 * k + 2 + 1) := .signed rfl hcall
    have htower := derives_tower hsigned (2 * k + 2)
    rw [Nat.max_eq_left (by omega)] at htower
    exact htower

/-- Towers attain the greatest height. -/
theorem height_towerPhrase (k : Nat) : (towerPhrase k).height = tallestChain 6 (2 * k + 1) := by
  induction k with
  | zero => rfl
  | succ k ih =>
    have hinner : tallestOperand (2 * (k + 1) + 1) = tallestChain 6 (2 * k + 1) + 1 :=
      tallestOperand_add_two (Nat.succ_pos (2 * k))
    -- The room is used up by the links of all tiers, and two parts of it by the call.
    have hlinks : (levels (2 * k + 2) tierOperators).length = 6 * (2 * k + 2) :=
      length_levels _ _
    have hoperand : (Phrase.unary .negate (.call "a" [towerPhrase k])).height =
        1 + (1 + tallestChain 6 (2 * k + 1)) := by
      rw [Phrase.height, Phrase.height, Phrase.heights, Phrase.heights, Nat.max_zero, ih]
    have hgoal : tallestChain 6 (2 * (k + 1) + 1) =
        tallestChain 6 (2 * k + 1) + 1 + 1 + 6 * (2 * (k + 1)) := by
      rw [tallestChain, hinner, Nat.add_sub_cancel]
    rw [towerPhrase, Phrase.height_linked, hlinks, hoperand, hgoal]
    omega

theorem literals_towerPhrase (k : Nat) : (towerPhrase k).literals = [] := by
  induction k with
  | zero => rfl
  | succ k ih =>
    refine Phrase.literals_linked ?_ _
    rw [Phrase.literals, Phrase.literals, Phrase.literalsOfAll, Phrase.literalsOfAll, ih,
      List.append_nil]

namespace Expr

/-! ## Heights of what is read -/

/-- Characters that are read as a phrase without literals are read as a tree of its height, if
    there is room for it. -/
theorem exists_ofText_of_reads {cs : List Char} {words : List Word} {phrase : Phrase} {n : Nat}
    (hreads : Reads cs words) (h : Derives (.expression phrase) words n) (hroom : n ≤ maxDepth)
    (hliterals : phrase.literals = []) :
    ∃ tree, ofText (String.ofList cs) = .ok tree ∧ tree.height = phrase.height := by
  obtain ⟨tree, hbuild⟩ := Phrase.exists_build_of_literals hliterals 0
  have hscan : Word.scan (String.ofList cs).toList = words := by
    rw [String.toList_ofList]
    exact hreads.scan_eq
  rw [← hscan] at h
  exact ⟨tree, (ofText_eq_ok_iff h tree).2 ⟨hroom, hbuild⟩, Phrase.height_of_build hbuild⟩

mutual
/-- A tree is less high than the room that its written form needs. -/
theorem height_le_cost : ∀ e : Expr, e.height ≤ e.cost
  | field _ _ | literal _ _ _ => Nat.le_refl 1
  | cast _ _ operand => by
    have hoperand := height_le_cost operand
    rw [height, cost]
    omega
  | call _ _ arguments => by
    have harguments := heights_le_argumentCost arguments
    rw [height, cost]
    omega
  | binary _ _ left right => by
    have hleft := height_le_cost left
    have hright := height_le_cost right
    rw [height, cost]
    omega
  | unary _ _ operand => by
    have hoperand := height_le_cost operand
    rw [height, cost]
    omega

theorem heights_le_argumentCost : ∀ es : List Expr, heights es ≤ argumentCost es
  | [] => Nat.le_refl 0
  | e :: es => by
    have he := height_le_cost e
    have hes := heights_le_argumentCost es
    rw [heights, argumentCost]
    omega
end

/-- A chain of fields with that many operators of every tier, the tightest first. -/
def flatText (n : Nat) : String := String.ofList (['a'] ++ linkChars (levels n tierOperators))

/-- A chain without any parentheses is read while no tier has two hundred operands, and its tree
    has a level for every operator. -/
theorem exists_ofText_flatText {n : Nat} (h : n ≤ 198) :
    ∃ tree, ofText (flatText n) = .ok tree ∧ tree.height = 6 * n + 1 := by
  have hname : QualifiedName [sumOperand] ["a"] := .last rfl
  have hreads : Reads ['a'] [sumOperand] := isIdentifier_sumOperand.reads
  have hderives := derives_tower (.unsigned (.field hname)) n
  obtain ⟨tree, htree, hheight⟩ := exists_ofText_of_reads (hreads.linked _) hderives
    (by unfold maxDepth; omega) (Phrase.literals_linked rfl _)
  refine ⟨tree, htree, ?_⟩
  have hlinks : (levels n tierOperators).length = 6 * n := length_levels n tierOperators
  rw [hheight, Phrase.height_linked, hlinks]
  exact Nat.add_comm _ _

/-- A tree of 205 levels is read off a text without any parentheses. -/
theorem flat_higher_than_maxDepth :
    ∃ tree, ofText (flatText 34) = .ok tree ∧ maxDepth < tree.height := by
  obtain ⟨tree, htree, hheight⟩ := exists_ofText_flatText (by omega : 34 ≤ 198)
  refine ⟨tree, htree, ?_⟩
  rw [hheight]
  decide

/-- A tree of 59600 levels is read. -/
theorem exists_ofText_greatest :
    ∃ text tree, ofText text = .ok tree ∧ tree.height = 59600 := by
  obtain ⟨tree, htree, hheight⟩ := exists_ofText_of_reads (reads_tower 99)
    (derives_towerPhrase 99) (by decide) (literals_towerPhrase 99)
  refine ⟨_, tree, htree, ?_⟩
  rw [hheight, height_towerPhrase, tallestChain_greatest]

/-- A tree that is read has at most as many levels as parts may be open at once just when the
    operations that a way leaves to the left find room beside the other nodes on the way, which
    the limit counts. It never has more than 59600 levels, and at most as many as the limit if its
    written form is read again. -/
theorem height_le_maxDepth_iff {text : String} {tree : Expr} (h : ofText text = .ok tree) :
    (∀ way ∈ tree.ways, way.counted ≤ maxDepth) ∧
    (tree.height ≤ maxDepth ↔ ∀ way ∈ tree.ways, way.left ≤ maxDepth - way.counted) ∧
    tree.height ≤ 59600 ∧
    ((∃ again, ofText tree.text = .ok again) → tree.height ≤ maxDepth) := by
  have hcounted := counts_of_ofText h
  refine ⟨hcounted, ?_, ?_, fun hagain => ?_⟩
  · have hways := tree.height_add_le_iff 0 maxDepth
    rw [Nat.add_zero] at hways
    rw [hways]
    constructor
    · intro hall way hway
      have hlength := hall way hway
      omega
    · intro hall way hway
      have hleft := hall way hway
      have hcount := hcounted way hway
      omega
  · obtain ⟨phrase, n, hderives, hroom, hbuild, -⟩ := ofTextWith_sound h
    have hheight : phrase.height ≤ tallestChain 6 (n - 1) := hderives.atMost.2
    -- The expression itself is one of the open parts, so its chain has one less.
    have hmono : tallestChain 6 (n - 1) ≤ tallestChain 6 199 :=
      tallestChain_mono 6 (by unfold maxDepth at hroom; omega)
    have hgreatest := tallestChain_greatest
    rw [Phrase.height_of_build hbuild]
    omega
  · have hcost := ((legible_of_ofText h).exists_ofText_iff_readable.1 hagain).1
    have hheight := height_le_cost tree
    omega

theorem height_le_maxDepth_iff_sum :
    Expr.ofText "a + b" = .ok (.binary 2 .add (.field 0 "a") (.field 1 "b")) ∧
      (∀ way ∈ (Expr.binary 2 .add (.field 0 "a") (.field 1 "b")).ways,
        way.left ≤ maxDepth - way.counted) ∧
      (Expr.binary 2 .add (.field 0 "a") (.field 1 "b")).height ≤ maxDepth := by
  have h : Expr.ofText "a + b" = .ok (.binary 2 .add (.field 0 "a") (.field 1 "b")) := by cbv
  have hways : ∀ way ∈ (Expr.binary 2 .add (.field 0 "a") (.field 1 "b")).ways,
      way.left ≤ maxDepth - way.counted := by decide
  exact ⟨h, hways, (height_le_maxDepth_iff h).2.1.2 hways⟩

end Expr

end UnitCheck
