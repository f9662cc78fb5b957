import Mathlib.Data.List.Chain
import UnitCheck.Proofs.Rendering

/-!
  Written trees that are read again.

  Every operator of a written tree stands in parentheses of its own, so its words derive the tree
  (`Expr.derives_words`) whatever the tiers of its operators are; the parentheses and the operators
  count as open parts (`Expr.cost`). Three things keep a written tree from being read: a character
  that is written by its code point, an infinite number with a unit, and too many open parts.
-/

namespace UnitCheck

/-! ## What no sentence holds -/

theorem QualifiedName.kind_ne_invalid {words : List Word} {parts : List String}
    (h : QualifiedName words parts) : ∀ word ∈ words, word.kind ≠ .invalid := by
  intro word hword
  rcases h.kind_eq word hword with hkind | hkind <;> simp [hkind]

theorem CastWords.kind_ne_invalid {words : List Word} {target : CastType}
    (h : CastWords words target) : ∀ word ∈ words, word.kind ≠ .invalid := by
  intro word hword
  rcases h.kind_eq word hword with hkind | hkind <;> simp [hkind]

theorem Word.kind_ne_invalid_of_literal? {word : Word} {value : Except SyntaxError Literal}
    (h : word.literal? = some value) : word.kind ≠ .invalid := by
  intro hkind
  rw [literal?, Parser.literalValue?, hkind] at h
  cases h

/-- No token of a sentence is invalid. -/
theorem Derives.kind_ne_invalid {reading : Reading} {words : List Word} {n : Nat}
    (h : Derives reading words n) : ∀ word ∈ words, word.kind ≠ .invalid := by
  -- Each rule asks for the kinds of the words that it adds.
  induction h with
  | expression _ ih | tightest _ ih | unsigned _ ih | lastArgument _ ih => exact ih
  | chain _ _ ih ihlinks => exact List.forall_mem_append.2 ⟨ih, ihlinks⟩
  | unlinked => simp
  | @link tier _ _ _ _ word _ _ _ _ _ hop _ _ ih ihlinks =>
    refine List.forall_mem_cons.2 ⟨fun hkind => ?_, List.forall_mem_append.2 ⟨ih, ihlinks⟩⟩
    rw [hkind] at hop
    cases tier <;> cases hop
  | signed hop _ ih =>
    refine List.forall_mem_cons.2 ⟨fun hkind => ?_, ih⟩
    rw [hkind] at hop
    cases hop
  | literal h => simpa using Word.kind_ne_invalid_of_literal? h
  | quantity h _ hunit => simpa [hunit] using Word.kind_ne_invalid_of_literal? h
  | field h => exact h.kind_ne_invalid
  | emptyCall h hopening hclosing =>
    exact List.forall_mem_append.2 ⟨h.kind_ne_invalid, by simp [hopening, hclosing]⟩
  | call h hopening _ hclosing ih =>
    exact List.forall_mem_append.2 ⟨h.kind_ne_invalid, List.forall_mem_cons.2
      ⟨by simp [hopening], List.forall_mem_append.2 ⟨ih, by simp [hclosing]⟩⟩⟩
  | cast hopening htarget hclosing _ ih =>
    exact List.forall_mem_cons.2 ⟨by simp [hopening], List.forall_mem_append.2
      ⟨htarget.kind_ne_invalid, List.forall_mem_cons.2 ⟨by simp [hclosing], ih⟩⟩⟩
  | group hopening _ hclosing ih =>
    exact List.forall_mem_cons.2 ⟨by simp [hopening],
      List.forall_mem_append.2 ⟨ih, by simp [hclosing]⟩⟩
  | moreArguments _ hcomma _ ih ihrest =>
    exact List.forall_mem_append.2 ⟨ih, List.forall_mem_cons.2 ⟨by simp [hcomma], ihrest⟩⟩

/-- Not both words are identifiers. -/
def Word.Apart (a b : Word) : Prop := ¬(a.kind = .identifier ∧ b.kind = .identifier)

theorem Word.apart_cons {word : Word} {words : List Word} (hword : word.kind ≠ .identifier)
    (h : words.IsChain Word.Apart) : (word :: words).IsChain Word.Apart :=
  h.cons fun _ _ happart => hword happart.1

theorem Word.apart_append {left right : List Word} (hleft : left.IsChain Word.Apart)
    (hright : right.IsChain Word.Apart) (h : ∀ word ∈ right.head?, word.kind ≠ .identifier) :
    (left ++ right).IsChain Word.Apart :=
  hleft.append hright fun _ _ word hword happart => h word hword happart.2

/-- A word that is no identifier keeps what is before it from what is after it. -/
theorem Word.apart_between {left right : List Word} {word : Word} (hword : word.kind ≠ .identifier)
    (hleft : left.IsChain Word.Apart) (hright : right.IsChain Word.Apart) :
    (left ++ word :: right).IsChain Word.Apart :=
  Word.apart_append hleft (Word.apart_cons hword hright) (by simpa using hword)

theorem QualifiedName.apart {words : List Word} {parts : List String}
    (h : QualifiedName words parts) : words.IsChain Word.Apart := by
  induction h with
  | last _ => exact .singleton _
  | @more word dot words _ _ hdot _ ih =>
    show ([word] ++ dot :: words).IsChain Word.Apart
    exact Word.apart_between (by simp [hdot]) (.singleton _) ih

theorem CastWords.apart {words : List Word} {target : CastType} (h : CastWords words target) :
    words.IsChain Word.Apart := by
  cases h with
  | plain => exact .singleton _
  | nullable h _ _ _ => exact Word.apart_cons (by simp [h]) (.singleton _)

theorem Tier.ne_identifier_of_operator? {tier : Tier} {kind : Token.Kind}
    (h : tier.operator? kind ≠ none) : kind ≠ .identifier := by
  rintro rfl
  cases tier <;> exact h rfl

theorem Word.ne_identifier_of_symbol {word : Word} {symbol : Symbol}
    (h : word.kind = .symbol symbol) : word.kind ≠ .identifier := by
  simp [h]

/-- No two identifiers of a sentence stand side by side. -/
theorem Derives.apart {reading : Reading} {words : List Word} {n : Nat}
    (h : Derives reading words n) : words.IsChain Word.Apart := by
  induction h with
  | expression _ ih | tightest _ ih | unsigned _ ih | lastArgument _ ih => exact ih
  -- Links start with an operator, if they are not empty.
  | chain _ hlinks ih ihlinks =>
    exact Word.apart_append ih ihlinks
      fun word hword => Tier.ne_identifier_of_operator? (hlinks.starts word hword)
  | unlinked => exact .nil
  | link hop _ hlinks ih ihlinks =>
    apply Word.apart_cons (Tier.ne_identifier_of_operator? (Option.ne_none_iff_exists'.2 ⟨_, hop⟩))
    exact Word.apart_append ih ihlinks
      fun word hword => Tier.ne_identifier_of_operator? (hlinks.starts word hword)
  | signed hop _ ih =>
    refine Word.apart_cons (fun hkind => ?_) ih
    rw [hkind] at hop
    cases hop
  | literal _ => exact .singleton _
  | quantity _ hnumber _ =>
    refine Word.apart_cons (fun hkind => ?_) (.singleton _)
    rw [hkind] at hnumber
    rcases hnumber with h | h <;> cases h
  | field h => exact h.apart
  | emptyCall h hopening hclosing =>
    exact Word.apart_between (Word.ne_identifier_of_symbol hopening) h.apart (.singleton _)
  | call h hopening _ hclosing ih =>
    exact Word.apart_between (Word.ne_identifier_of_symbol hopening) h.apart
      (Word.apart_between (Word.ne_identifier_of_symbol hclosing) ih .nil)
  | cast hopening htarget hclosing _ ih =>
    exact Word.apart_cons (Word.ne_identifier_of_symbol hopening)
      (Word.apart_between (Word.ne_identifier_of_symbol hclosing) htarget.apart ih)
  | group hopening _ hclosing ih =>
    exact Word.apart_cons (Word.ne_identifier_of_symbol hopening)
      (Word.apart_between (Word.ne_identifier_of_symbol hclosing) ih .nil)
  | moreArguments _ hcomma _ ih ihrest =>
    exact Word.apart_between (Word.ne_identifier_of_symbol hcomma) ih ihrest

/-! ## Derivations of written trees -/

/-- Two operands with an operator between them in parentheses. -/
theorem Derives.binary {left right : Phrase} {first next : List Word} {m n : Nat}
    (hleft : Derives (.operand left) first m) (hright : Derives (.operand right) next n)
    (op : BinaryOp) :
    Derives (.operand (.binary op left right))
      (Symbol.openParen.word :: (first ++ op.word :: (next ++ [Symbol.closeParen.word])))
      (max m (n + 1) + 2) := by
  have hsplit : ∃ looser tighter, Tier.all = looser ++ op.tier :: tighter :=
    List.append_of_mem (by cases op <;> decide)
  obtain ⟨looser, tighter, htiers⟩ := hsplit
  -- The chain of the operator's tier has one link, and the looser chains have none.
  have hlinks : Derives (.links op.tier tighter left (.binary op left right))
      (op.word :: (next ++ [])) (max n 0 + 1) :=
    .link op.operator?_kind (.chain_of_signed (.unsigned hright) tighter) .unlinked
  have hchain := (Derives.chain (.chain_of_signed (.unsigned hleft) tighter) hlinks).loosen looser
  rw [← htiers] at hchain
  have hgroup : Derives (.operand (.binary op left right))
      (Symbol.openParen.word ::
        ((first ++ (op.word :: (next ++ []))) ++ [Symbol.closeParen.word]))
      (max m (max n 0 + 1) + 1 + 1) := .group rfl (.expression hchain) rfl
  simpa using hgroup

/-- An operand with an operator before it in parentheses. -/
theorem Derives.unary {operand : Phrase} {words : List Word} {n : Nat}
    (h : Derives (.operand operand) words n) (op : UnaryOp) :
    Derives (.operand (.unary op operand))
      (Symbol.openParen.word :: op.word :: (words ++ [Symbol.closeParen.word])) (n + 2) :=
  .group rfl (.expression (.chain_of_signed (.signed op.sign?_word h) _)) rfl

namespace Expr

mutual
/-- How many parts of the written tree are open at once, at most. -/
def cost : Expr → Nat
  | field _ _ | literal _ _ _ => 1
  | cast _ _ operand => 1 + operand.cost
  | call _ _ arguments => 1 + argumentCost arguments
  | binary _ _ left right => 2 + max left.cost (1 + right.cost)
  | unary _ _ operand => 2 + operand.cost

/-- How many parts of the written arguments are open at once, at most. -/
def argumentCost : List Expr → Nat
  | [] => 0
  | e :: es => max (1 + e.cost) (argumentCost es)
end

mutual
/-- What the written tree is read as. The infinite number is written as a name. -/
def reading : Expr → Phrase
  | field _ name => .field name
  | literal _ value unit =>
    if value.isInfinite then .field value.text else .literal (.ok value.reread) unit
  | cast _ target operand => .cast target operand.reading
  | call _ name arguments => .call name (argumentReadings arguments)
  | binary _ op left right => .binary op left.reading right.reading
  | unary _ op operand => .unary op operand.reading

/-- What the written arguments are read as. -/
def argumentReadings : List Expr → List Phrase
  | [] => []
  | e :: es => e.reading :: argumentReadings es
end

/-- Whether the words of the written node can stand in a sentence. -/
def isReadable : Expr → Bool
  | literal _ value unit => !value.isCodePoint && (!value.isInfinite || unit.isNone)
  | _ => true

/-- Whether the words of all written nodes can stand in a sentence. -/
def Readable (e : Expr) : Prop := ∀ node ∈ e.postOrder, node.isReadable = true

theorem readable_iff {e : Expr} :
    e.Readable ↔ e.isReadable = true ∧ ∀ child ∈ e.children, child.Readable :=
  forall_postOrder_iff

theorem derives_arguments {es : List Expr} (hne : es ≠ [])
    (h : ∀ e ∈ es, Derives (.operand e.reading) e.words e.cost) :
    Derives (.arguments (argumentReadings es)) (argumentWords es) (argumentCost es) := by
  induction es with
  | nil => exact absurd rfl hne
  | cons e es ih =>
    have he := (h e List.mem_cons_self).expression_of_operand
    -- The last argument has no comma behind it.
    cases es with
    | nil =>
      have hcost : argumentCost [e] = e.cost + 1 := by
        simp [argumentCost, Nat.add_comm]
      rw [hcost]
      exact .lastArgument he
    | cons e' es =>
      have hrest := ih (by simp) fun a ha => h a (List.mem_cons_of_mem _ ha)
      rw [argumentCost, Nat.add_comm]
      exact .moreArguments he rfl hrest

theorem derives_literal {id : Nat} {value : Literal} {unit : Option String}
    (hwritten : (literal id value unit).IsWritten)
    (hreadable : (literal id value unit).isReadable = true) :
    Derives (.operand (literal id value unit).reading) (literal id value unit).words 1 := by
  obtain ⟨hvalue, hunit⟩ := hwritten
  rw [isReadable, Bool.and_eq_true, Bool.not_eq_true'] at hreadable
  obtain ⟨hplain, hunitless⟩ := hreadable
  rw [reading]
  cases hinfinite : value.isInfinite with
  | true =>
    -- The name of the infinite number stands alone.
    rw [hinfinite, Bool.not_true, Bool.false_or, Option.isNone_iff_eq_none] at hunitless
    subst hunitless
    rw [if_pos rfl, words, Literal.word_of_isInfinite hinfinite]
    have hname : QualifiedName [⟨.identifier, value.text⟩] [value.text] := .last rfl
    have hfield := Derives.field hname
    rwa [String.intercalate_singleton] at hfield
  | false =>
    rw [if_neg (by decide)]
    have hliteral := hvalue.literal?_word hinfinite hplain
    cases unit with
    | none => exact .literal hliteral
    | some symbol =>
      have hkind : value.word.kind = .intLiteral ∨ value.word.kind = .realLiteral :=
        value.kind_of_isNumeric (hunit symbol rfl).2 hinfinite
      have hsymbol : (⟨.identifier, symbol⟩ : Word).kind = .identifier := rfl
      exact .quantity hliteral hkind hsymbol

/-- The words of a legible tree derive what it is read as. -/
theorem derives_words {e : Expr} (hlegible : e.Legible) (hreadable : e.Readable) :
    Derives (.operand e.reading) e.words e.cost := by
  induction e using Expr.induct with
  | step e ih =>
    obtain ⟨hroot, hbelow⟩ := legible_iff.1 hlegible
    obtain ⟨hnode, hnodes⟩ := readable_iff.1 hreadable
    have hchildren : ∀ child ∈ e.children,
        Derives (.operand child.reading) child.words child.cost :=
      fun child hchild => ih child hchild (hbelow child hchild) (hnodes child hchild)
    cases e with
    | field id name =>
      obtain ⟨parts, hname, hwords, -⟩ := IsQualified.reads hroot
      have hfield := Derives.field hwords
      rw [← hname] at hfield
      exact hfield
    | literal id value unit => exact derives_literal hroot hnode
    | cast id target operand =>
      rw [cost, Nat.add_comm]
      exact .cast rfl (CastType.castWords hroot) rfl (hchildren operand List.mem_cons_self)
    | call id name arguments =>
      obtain ⟨parts, hname, hwords, -⟩ := IsQualified.reads hroot
      -- Parentheses with nothing in them are a form of their own.
      cases arguments with
      | nil =>
        have hcall := Derives.emptyCall hwords Symbol.kind_openParen Symbol.kind_closeParen
        rw [← hname] at hcall
        exact hcall
      | cons e es =>
        have hcall := Derives.call hwords Symbol.kind_openParen
          (derives_arguments (List.cons_ne_nil e es) hchildren) Symbol.kind_closeParen
        rw [← hname] at hcall
        rw [cost, Nat.add_comm]
        exact hcall
    | binary id op left right =>
      have hleft := hchildren left List.mem_cons_self
      have hright := hchildren right (List.mem_cons_of_mem _ List.mem_cons_self)
      rw [cost, Nat.add_comm, Nat.add_comm 1]
      exact hleft.binary hright op
    | unary id op operand =>
      rw [cost, Nat.add_comm]
      exact (hchildren operand List.mem_cons_self).unary op

/-! ## Words of a tree that keep it from being read -/

theorem isInfix_argumentWords {e : Expr} {es : List Expr} (h : e ∈ es) :
    e.words <:+: argumentWords es := by
  induction es with
  | nil => cases h
  | cons a es ih =>
    cases es with
    | nil =>
      obtain rfl := List.mem_singleton.1 h
      exact List.infix_rfl
    | cons a' es =>
      rw [argumentWords]
      · rcases List.mem_cons.1 h with rfl | h
        · exact (List.prefix_append _ _).isInfix
        · exact (ih h).trans ⟨a.words ++ [Symbol.comma.word], [], by simp⟩
      · simp

theorem isInfix_words_of_mem_children {child e : Expr} (h : child ∈ e.children) :
    child.words <:+: e.words := by
  -- Words of the node stand in front and behind, and what belongs to a sibling is among them.
  cases e with
  | field => cases h
  | literal => cases h
  | cast id target operand =>
    obtain rfl := List.mem_singleton.1 h
    exact ⟨Symbol.openParen.word :: (target.words ++ [Symbol.closeParen.word]), [], by simp [words]⟩
  | call id name arguments =>
    refine (isInfix_argumentWords h).trans ⟨Word.scan name.toList ++ [Symbol.openParen.word],
      [Symbol.closeParen.word], by simp [words, children]⟩
  | binary id op left right =>
    rcases List.mem_pair.1 h with rfl | rfl
    · exact ⟨[Symbol.openParen.word], op.word :: (right.words ++ [Symbol.closeParen.word]),
        by simp [words]⟩
    · exact ⟨Symbol.openParen.word :: (left.words ++ [op.word]), [Symbol.closeParen.word],
        by simp [words]⟩
  | unary id op operand =>
    obtain rfl := List.mem_singleton.1 h
    exact ⟨[Symbol.openParen.word, op.word], [Symbol.closeParen.word], by simp [words]⟩

/-- The words of a node are among those of the tree, side by side. -/
theorem isInfix_words {node e : Expr} (h : node ∈ e.postOrder) : node.words <:+: e.words := by
  induction e using Expr.induct with
  | step e ih =>
    rw [postOrder_eq] at h
    rcases List.mem_append.1 h with h | h
    · obtain ⟨child, hchild, hnode⟩ := List.mem_flatMap.1 h
      exact (ih child hchild hnode).trans (isInfix_words_of_mem_children hchild)
    · obtain rfl := List.mem_singleton.1 h
      exact List.infix_rfl

/-- Only readable trees have words that are read as something. -/
theorem readable_of_derives {e : Expr} {r : Reading} {n : Nat} (h : Derives r e.words n) :
    e.Readable := by
  intro node hnode
  have hinfix := isInfix_words hnode
  cases node with
  | literal id value unit =>
    have hplain : value.isCodePoint = false := by
      by_contra hcode
      rw [Bool.not_eq_false] at hcode
      have hmem : value.word ∈ e.words := hinfix.subset (by cases unit <;> simp [words])
      exact h.kind_ne_invalid _ hmem (Literal.kind_word_of_isCodePoint hcode)
    rw [isReadable, hplain, Bool.not_false, Bool.true_and]
    cases hinfinite : value.isInfinite with
    | false => rfl
    | true =>
      cases unit with
      | none => rfl
      | some symbol =>
        -- The name of the infinite number and the unit would stand side by side.
        have happart := List.IsChain.infix h.apart hinfix
        rw [words, Literal.word_of_isInfinite hinfinite, List.isChain_pair] at happart
        exact absurd ⟨rfl, rfl⟩ happart
  | _ => rfl

/-! ## Reading again -/

theorem exists_buildAll {es : List Expr}
    (h : ∀ e ∈ es, ∀ start, ∃ tree, e.reading.build start = .ok tree) (start : Nat) :
    ∃ trees, Phrase.buildAll (argumentReadings es) start = .ok trees := by
  induction es generalizing start with
  | nil => exact ⟨[], rfl⟩
  | cons e es ih =>
    obtain ⟨tree, htree⟩ := h e List.mem_cons_self start
    obtain ⟨trees, htrees⟩ := ih (fun a ha => h a (List.mem_cons_of_mem _ ha))
      (start + e.reading.size)
    exact ⟨tree :: trees, Phrase.buildAll_cons htree htrees⟩

/-- What a written tree is read as denotes a tree, for its literals convert. -/
theorem exists_build (e : Expr) : ∀ start, ∃ tree, e.reading.build start = .ok tree := by
  induction e using Expr.induct with
  | step e ih =>
    intro start
    cases e with
    | field id name => exact ⟨_, rfl⟩
    | literal id value unit =>
      rw [reading]
      split
      · exact ⟨_, rfl⟩
      · exact ⟨_, rfl⟩
    | cast id target operand =>
      obtain ⟨inner, hinner⟩ := ih operand List.mem_cons_self start
      exact ⟨_, Phrase.build_cast hinner⟩
    | call id name arguments =>
      obtain ⟨built, hbuilt⟩ := exists_buildAll ih start
      exact ⟨_, Phrase.build_call hbuilt⟩
    | binary id op left right =>
      obtain ⟨l, hl⟩ := ih left List.mem_cons_self start
      obtain ⟨r, hr⟩ := ih right (List.mem_cons_of_mem _ List.mem_cons_self)
        (start + left.reading.size)
      exact ⟨_, Phrase.build_binary hl hr⟩
    | unary id op operand =>
      obtain ⟨inner, hinner⟩ := ih operand List.mem_cons_self start
      exact ⟨_, Phrase.build_unary hinner⟩

theorem Legible.scan_text {e : Expr} (h : e.Legible) : Word.scan e.text.toList = e.words := by
  rw [text, String.toList_ofList, h.reads.scan_eq]

/-- What a readable tree is read as again. -/
theorem Legible.ofText_text {e : Expr} (h : e.Legible) (hreadable : e.Readable) (again : Expr) :
    Expr.ofText e.text = .ok again ↔ 1 + e.cost ≤ maxDepth ∧ e.reading.build 0 = .ok again := by
  have hderives := (derives_words h hreadable).expression_of_operand
  rw [← h.scan_text] at hderives
  rw [Nat.add_comm]
  exact Expr.ofText_eq_ok_iff hderives again

/-- A legible tree is read again just when it is readable and there is room for it. -/
theorem Legible.exists_ofText_iff_readable {e : Expr} (h : e.Legible) :
    (∃ again, Expr.ofText e.text = .ok again) ↔ 1 + e.cost ≤ maxDepth ∧ e.Readable := by
  constructor
  · rintro ⟨again, hagain⟩
    obtain ⟨phrase, n, hderives, -⟩ := Expr.ofTextWith_sound hagain
    rw [h.scan_text] at hderives
    have hreadable := readable_of_derives hderives
    exact ⟨((h.ofText_text hreadable again).1 hagain).1, hreadable⟩
  · rintro ⟨hroom, hreadable⟩
    obtain ⟨again, hagain⟩ := e.exists_build 0
    exact ⟨again, (h.ofText_text hreadable again).2 ⟨hroom, hagain⟩⟩

/-- The written form of a tree that was read off a text is read again just when at most 200 parts
    of it are open at once, no character is written by its code point, and no infinite number has
    a unit. -/
theorem exists_ofText_text_iff {text : String} {tree : Expr} (h : Expr.ofText text = .ok tree) :
    (∃ again, Expr.ofText tree.text = .ok again) ↔
      1 + tree.cost ≤ maxDepth ∧ ∀ node ∈ tree.postOrder, node.isReadable = true :=
  (legible_of_ofText h).exists_ofText_iff_readable

theorem exists_ofText_text_sum :
    Expr.ofText "a + b" = .ok (.binary 2 .add (.field 0 "a") (.field 1 "b")) ∧
      ∃ again, Expr.ofText (binary 2 .add (.field 0 "a") (.field 1 "b")).text = .ok again := by
  have h : Expr.ofText "a + b" = .ok (.binary 2 .add (.field 0 "a") (.field 1 "b")) := by cbv
  exact ⟨h, (exists_ofText_text_iff h).2 ⟨by decide, by simp [postOrder, isReadable]⟩⟩

/-! ## Literals -/

/-- Only a literal is built as one. -/
theorem eq_of_build_eq_literal {phrase : Phrase} {start id : Nat} {value : Literal}
    {unit : Option String} (h : phrase.build start = .ok (.literal id value unit)) :
    id = start ∧ phrase = .literal (.ok value) unit := by
  -- Every other phrase is built with a node of its own constructor.
  cases phrase with
  | field name => cases h
  | literal outcome symbol =>
    obtain ⟨v, rfl, heq⟩ := Phrase.exists_of_build_literal h
    cases heq
    exact ⟨rfl, rfl⟩
  | cast target operand =>
    obtain ⟨inner, -, heq⟩ := Phrase.exists_of_build_cast h
    cases heq
  | call name arguments =>
    obtain ⟨built, -, heq⟩ := Phrase.exists_of_build_call h
    cases heq
  | binary op left right =>
    obtain ⟨l, r, -, -, heq⟩ := Phrase.exists_of_build_binary h
    cases heq
  | unary op operand =>
    obtain ⟨inner, -, heq⟩ := Phrase.exists_of_build_unary h
    cases heq

/-- A literal that survives is read again as it was. -/
theorem ofText_literal_of_survives {value : Literal} {unit : Option String}
    (hlegible : (literal 0 value unit).Legible) (h : value.survives = true) :
    Expr.ofText (literal 0 value unit).text = .ok (.literal 0 value unit) := by
  have hfinite := Literal.isInfinite_of_survives h
  have hplain := Literal.isCodePoint_of_survives h
  have hreadable : (literal 0 value unit).Readable :=
    readable_iff.2 ⟨by simp [isReadable, hfinite, hplain], by simp [children]⟩
  refine (hlegible.ofText_text hreadable _).2 ⟨show 1 + 1 ≤ maxDepth by decide, ?_⟩
  rw [reading, if_neg (by simp [hfinite]), Literal.reread_of_survives h]
  rfl

/-- A literal that does not survive is not read again as a literal of the same value. -/
theorem not_same_of_ofText_literal {value other : Literal} {unit symbol : Option String} {id : Nat}
    (hlegible : (literal 0 value unit).Legible) (h : value.survives = false)
    (hagain : Expr.ofText (literal 0 value unit).text = .ok (.literal id other symbol)) :
    value.same other = false := by
  obtain ⟨phrase, n, hderives, -, hbuild, -⟩ := Expr.ofTextWith_sound hagain
  obtain ⟨-, rfl⟩ := eq_of_build_eq_literal hbuild
  rw [hlegible.scan_text] at hderives
  -- The one literal among the words can only be the written value.
  have hliterals : [Except.ok other] = (literal 0 value unit).words.filterMap Word.literal? :=
    hderives.sameLiterals
  have hmem : Except.ok other ∈ (literal 0 value unit).words.filterMap Word.literal? := by
    rw [← hliterals]
    exact List.mem_singleton_self _
  obtain ⟨word, hword, hvalue⟩ := List.mem_filterMap.1 hmem
  have hcases : word = value.word ∨ word.kind = .identifier := by
    cases unit with
    | none => exact .inl (List.mem_singleton.1 hword)
    | some symbol =>
      rcases List.mem_pair.1 hword with rfl | rfl
      · exact .inl rfl
      · exact .inr rfl
  rcases hcases with rfl | hkind
  · exact Literal.not_same_of_not_survives h hvalue
  · rw [Word.literal?_of_identifier hkind] at hvalue
    cases hvalue

/-- A literal that was read off a text comes back from its written form just when it survives:
    then it is the same tree, and else no literal of an equal value. -/
theorem ofText_literal_text {text : String} {id : Nat} {value : Literal} {unit : Option String}
    (h : Expr.ofText text = .ok (.literal id value unit)) :
    (value.survives = true →
      Expr.ofText (literal id value unit).text = .ok (.literal id value unit)) ∧
    (value.survives = false → ∀ again other symbol,
      Expr.ofText (literal id value unit).text = .ok (.literal again other symbol) →
        value.same other = false) := by
  have hlegible := legible_of_ofText h
  obtain ⟨phrase, n, -, -, hbuild, -⟩ := Expr.ofTextWith_sound h
  obtain ⟨rfl, -⟩ := eq_of_build_eq_literal hbuild
  exact ⟨ofText_literal_of_survives hlegible,
    fun hlost _ _ _ hagain => not_same_of_ofText_literal hlegible hlost hagain⟩

theorem ofText_literal_text_quantity :
    Expr.ofText "5 m" = .ok (.literal 0 (.int 5) (some "m")) ∧
      Expr.ofText (literal 0 (.int 5) (some "m")).text =
        .ok (.literal 0 (.int 5) (some "m")) := by
  have h : Expr.ofText "5 m" = .ok (.literal 0 (.int 5) (some "m")) := by cbv
  exact ⟨h, (ofText_literal_text h).1 rfl⟩

/-- A letter with an accent is read, and its written form is not. -/
theorem accent_not_read_again :
    Expr.ofText "'é'" = .ok (.literal 0 (.char 'é') none) ∧
      ¬∃ again, Expr.ofText (literal 0 (.char 'é') none).text = .ok again := by
  have h : Expr.ofText "'é'" = .ok (.literal 0 (.char 'é') none) := by cbv
  refine ⟨h, fun hagain => ?_⟩
  have hreadable := ((legible_of_ofText h).exists_ofText_iff_readable.1 hagain).2
  have hroot := (readable_iff.1 hreadable).1
  exact absurd hroot (by decide)

end Expr

end UnitCheck
