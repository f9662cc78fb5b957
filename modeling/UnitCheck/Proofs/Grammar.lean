import UnitCheck.Proofs.Outcome
import UnitCheck.Proofs.Words

/-!
  The grammar of expressions.

  ```text
  expression := or
  or         := and ('Or' and)*
  and        := sum (('And' | 'Xor') sum)*
  sum        := product (('+' | '-') product)*
  product    := equality (('*' | '/' | '%') equality)*
  equality   := order (('=' | '<>') order)*
  order      := signed (('<' | '>' | '<=' | '>=') signed)*
  signed     := ('-' | 'Not')? operand
  operand    := literal | number unit | name | name '(' (expression (',' expression)*)? ')'
              | '(' type '?'? ')' operand | '(' expression ')'
  name       := identifier ('.' identifier)*
  ```

  A derivation reads words as a `Phrase`, the tree it denotes, where every chain of operators is
  grouped to the left. A phrase has no ids, and its literals keep the outcome of their
  conversion; `Phrase.build` numbers the nodes in post-order and fails with the first literal that
  does not convert. A derivation also counts how many of its parts are open at once: expressions
  and operands while they last, and operators until their chain ends.
-/

namespace UnitCheck

/-! ## Phrases -/

/-- The tree that a derivation denotes. -/
inductive Phrase where
  | field (name : String)
  | literal (value : Except SyntaxError Literal) (unit : Option String)
  | cast (target : CastType) (operand : Phrase)
  | call (name : String) (arguments : List Phrase)
  | binary (op : BinaryOp) (left right : Phrase)
  | unary (op : UnaryOp) (operand : Phrase)

namespace Phrase

mutual
/-- The number of nodes. -/
def size : Phrase → Nat
  | field _ | literal _ _ => 1
  | cast _ operand | unary _ operand => operand.size + 1
  | call _ arguments => sizes arguments + 1
  | binary _ left right => left.size + right.size + 1

/-- The number of nodes of some phrases. -/
def sizes : List Phrase → Nat
  | [] => 0
  | p :: ps => p.size + sizes ps
end

mutual
/-- The expression, its nodes numbered in post-order from the given number on. -/
def build : Phrase → Nat → Except SyntaxError Expr
  | field name, start => .ok (.field start name)
  | literal value unit, start => value.map fun value => .literal start value unit
  | cast target operand, start => do
    let inner ← operand.build start
    return .cast (start + operand.size) target inner
  | call name arguments, start => do
    let built ← buildAll arguments start
    return .call (start + sizes arguments) name built
  | binary op left right, start => do
    let l ← left.build start
    let r ← right.build (start + left.size)
    return .binary (start + left.size + right.size) op l r
  | unary op operand, start => do
    let inner ← operand.build start
    return .unary (start + operand.size) op inner

/-- The expressions, numbered one after the other. -/
def buildAll : List Phrase → Nat → Except SyntaxError (List Expr)
  | [], _ => .ok []
  | p :: ps, start => do
    let e ← p.build start
    let es ← buildAll ps (start + p.size)
    return e :: es
end

theorem build_cast {target : CastType} {operand : Phrase} {start : Nat} {inner : Expr}
    (h : operand.build start = .ok inner) :
    (cast target operand).build start = .ok (.cast (start + operand.size) target inner) :=
  bind_eq_ok_iff.2 ⟨inner, h, rfl⟩

theorem build_call {name : String} {arguments : List Phrase} {start : Nat} {built : List Expr}
    (h : buildAll arguments start = .ok built) :
    (call name arguments).build start = .ok (.call (start + sizes arguments) name built) :=
  bind_eq_ok_iff.2 ⟨built, h, rfl⟩

theorem build_binary {op : BinaryOp} {left right : Phrase} {start : Nat} {l r : Expr}
    (hl : left.build start = .ok l) (hr : right.build (start + left.size) = .ok r) :
    (binary op left right).build start =
      .ok (.binary (start + left.size + right.size) op l r) :=
  bind_eq_ok_iff.2 ⟨l, hl, bind_eq_ok_iff.2 ⟨r, hr, rfl⟩⟩

theorem build_unary {op : UnaryOp} {operand : Phrase} {start : Nat} {inner : Expr}
    (h : operand.build start = .ok inner) :
    (unary op operand).build start = .ok (.unary (start + operand.size) op inner) :=
  bind_eq_ok_iff.2 ⟨inner, h, rfl⟩

theorem buildAll_cons {p : Phrase} {ps : List Phrase} {start : Nat} {e : Expr} {es : List Expr}
    (h : p.build start = .ok e) (hs : buildAll ps (start + p.size) = .ok es) :
    buildAll (p :: ps) start = .ok (e :: es) :=
  bind_eq_ok_iff.2 ⟨e, h, bind_eq_ok_iff.2 ⟨es, hs, rfl⟩⟩

/-! Without a part there is no tree, for the same cause. -/

section

variable {start : Nat} {cause : SyntaxError}

theorem build_cast_error {operand : Phrase} (h : operand.build start = .error cause)
    (target : CastType) : (cast target operand).build start = .error cause :=
  bind_eq_error_iff.2 (.inl h)

theorem build_call_error {arguments : List Phrase} (h : buildAll arguments start = .error cause)
    (name : String) : (call name arguments).build start = .error cause :=
  bind_eq_error_iff.2 (.inl h)

theorem build_binary_error_left {left : Phrase} (h : left.build start = .error cause)
    (op : BinaryOp) (right : Phrase) : (binary op left right).build start = .error cause :=
  bind_eq_error_iff.2 (.inl h)

theorem build_binary_error_right {left right : Phrase} {l : Expr} (hl : left.build start = .ok l)
    (h : right.build (start + left.size) = .error cause) (op : BinaryOp) :
    (binary op left right).build start = .error cause :=
  bind_eq_error_iff.2 (.inr ⟨l, hl, bind_eq_error_iff.2 (.inl h)⟩)

theorem build_unary_error {operand : Phrase} (h : operand.build start = .error cause)
    (op : UnaryOp) : (unary op operand).build start = .error cause :=
  bind_eq_error_iff.2 (.inl h)

theorem buildAll_error_head {p : Phrase} (h : p.build start = .error cause) (ps : List Phrase) :
    buildAll (p :: ps) start = .error cause :=
  bind_eq_error_iff.2 (.inl h)

theorem buildAll_error_tail {p : Phrase} {ps : List Phrase} {e : Expr}
    (he : p.build start = .ok e) (h : buildAll ps (start + p.size) = .error cause) :
    buildAll (p :: ps) start = .error cause :=
  bind_eq_error_iff.2 (.inr ⟨e, he, bind_eq_error_iff.2 (.inl h)⟩)

end

theorem exists_of_build_literal {value : Except SyntaxError Literal} {unit : Option String}
    {start : Nat} {tree : Expr} (h : (literal value unit).build start = .ok tree) :
    ∃ v, value = .ok v ∧ tree = .literal start v unit := by
  cases value with
  | error cause => cases h
  | ok v =>
    cases h
    exact ⟨v, rfl, rfl⟩

theorem exists_of_build_cast {target : CastType} {operand : Phrase} {start : Nat} {tree : Expr}
    (h : (cast target operand).build start = .ok tree) :
    ∃ inner, operand.build start = .ok inner ∧
      tree = .cast (start + operand.size) target inner := by
  obtain ⟨inner, hinner, h⟩ := bind_eq_ok_iff.1 h
  cases h
  exact ⟨inner, hinner, rfl⟩

theorem exists_of_build_call {name : String} {arguments : List Phrase} {start : Nat} {tree : Expr}
    (h : (call name arguments).build start = .ok tree) :
    ∃ built, buildAll arguments start = .ok built ∧
      tree = .call (start + sizes arguments) name built := by
  obtain ⟨built, hbuilt, h⟩ := bind_eq_ok_iff.1 h
  cases h
  exact ⟨built, hbuilt, rfl⟩

theorem exists_of_build_binary {op : BinaryOp} {left right : Phrase} {start : Nat} {tree : Expr}
    (h : (binary op left right).build start = .ok tree) :
    ∃ l r, left.build start = .ok l ∧ right.build (start + left.size) = .ok r ∧
      tree = .binary (start + left.size + right.size) op l r := by
  obtain ⟨l, hl, h⟩ := bind_eq_ok_iff.1 h
  obtain ⟨r, hr, h⟩ := bind_eq_ok_iff.1 h
  cases h
  exact ⟨l, r, hl, hr, rfl⟩

theorem exists_of_build_unary {op : UnaryOp} {operand : Phrase} {start : Nat} {tree : Expr}
    (h : (unary op operand).build start = .ok tree) :
    ∃ inner, operand.build start = .ok inner ∧
      tree = .unary (start + operand.size) op inner := by
  obtain ⟨inner, hinner, h⟩ := bind_eq_ok_iff.1 h
  cases h
  exact ⟨inner, hinner, rfl⟩

theorem exists_of_buildAll_cons {p : Phrase} {ps : List Phrase} {start : Nat} {trees : List Expr}
    (h : buildAll (p :: ps) start = .ok trees) :
    ∃ e es, p.build start = .ok e ∧ buildAll ps (start + p.size) = .ok es ∧ trees = e :: es := by
  obtain ⟨e, he, h⟩ := bind_eq_ok_iff.1 h
  obtain ⟨es, hes, h⟩ := bind_eq_ok_iff.1 h
  cases h
  exact ⟨e, es, he, hes, rfl⟩

mutual
/-- The units of the literals, from left to right. -/
def units : Phrase → List String
  | field _ => []
  | literal _ unit => unit.toList
  | cast _ operand | unary _ operand => operand.units
  | call _ arguments => unitsOfAll arguments
  | binary _ left right => left.units ++ right.units

/-- The units of the literals of some phrases. -/
def unitsOfAll : List Phrase → List String
  | [] => []
  | p :: ps => p.units ++ unitsOfAll ps
end

mutual
/-- The values of the literals, from left to right. -/
def literals : Phrase → List (Except SyntaxError Literal)
  | field _ => []
  | literal value _ => [value]
  | cast _ operand | unary _ operand => operand.literals
  | call _ arguments => literalsOfAll arguments
  | binary _ left right => left.literals ++ right.literals

/-- The values of the literals of some phrases. -/
def literalsOfAll : List Phrase → List (Except SyntaxError Literal)
  | [] => []
  | p :: ps => p.literals ++ literalsOfAll ps
end

mutual
/-- What fails is a literal. -/
theorem mem_literals_of_error {cause : SyntaxError} :
    ∀ {phrase : Phrase} {start : Nat}, phrase.build start = .error cause →
      .error cause ∈ phrase.literals
  | field _, _, h => by cases h
  | literal (.error _) _, _, h => by
    cases h
    exact List.mem_singleton_self _
  | literal (.ok _) _, _, h => by cases h
  | cast _ operand, _, h | unary _ operand, _, h => by
    rw [literals]
    rcases bind_eq_error_iff.1 h with h | ⟨_, _, h⟩
    · exact mem_literals_of_error h
    · cases h
  | call _ arguments, _, h => by
    rw [literals]
    rcases bind_eq_error_iff.1 h with h | ⟨_, _, h⟩
    · exact mem_literalsOfAll_of_error h
    · cases h
  | binary _ left right, _, h => by
    rw [literals, List.mem_append]
    rcases bind_eq_error_iff.1 h with h | ⟨_, _, h⟩
    · exact .inl (mem_literals_of_error h)
    · rcases bind_eq_error_iff.1 h with h | ⟨_, _, h⟩
      · exact .inr (mem_literals_of_error h)
      · cases h

theorem mem_literalsOfAll_of_error {cause : SyntaxError} :
    ∀ {phrases : List Phrase} {start : Nat}, buildAll phrases start = .error cause →
      .error cause ∈ literalsOfAll phrases
  | [], _, h => by cases h
  | p :: ps, _, h => by
    rw [literalsOfAll, List.mem_append]
    rcases bind_eq_error_iff.1 h with h | ⟨_, _, h⟩
    · exact .inl (mem_literals_of_error h)
    · rcases bind_eq_error_iff.1 h with h | ⟨_, _, h⟩
      · exact .inr (mem_literalsOfAll_of_error h)
      · cases h
end

end Phrase

/-! ## Tiers of operators -/

/-- The tiers of binary operators. -/
inductive Tier where
  | or | and | sum | product | equality | order
  deriving DecidableEq

namespace Tier

/-- The tiers, the loosest first. -/
def all : List Tier := [or, and, sum, product, equality, order]

/-- The operator of a tier that a word is, by its kind. -/
def operator? : Tier → Token.Kind → Option BinaryOp
  | or, .keyword .or => some .or
  | and, .keyword .and => some .and
  | and, .keyword .xor => some .xor
  | sum, .symbol .plus => some .add
  | sum, .symbol .minus => some .subtract
  | product, .symbol .multiply => some .multiply
  | product, .symbol .divide => some .divide
  | product, .symbol .percent => some .remainder
  | equality, .symbol .equal => some .equals
  | equality, .symbol .notEqual => some .notEquals
  | order, .symbol .lessThan => some .lessThan
  | order, .symbol .greaterThan => some .greaterThan
  | order, .symbol .lessThanOrEqual => some .lessOrEqual
  | order, .symbol .greaterThanOrEqual => some .greaterOrEqual
  | _, _ => none

/-- No word is an operator of two tiers. -/
theorem eq_of_operator? {s t : Tier} {kind : Token.Kind} {op : BinaryOp}
    (hs : s.operator? kind = some op) (ht : t.operator? kind ≠ none) : s = t := by
  cases s <;> unfold operator? at hs <;> split at hs <;> simp_all <;> cases t <;>
    simp [operator?] at ht ⊢

end Tier

/-- The operator before an operand that a word is, by its kind. -/
def sign? : Token.Kind → Option UnaryOp
  | .symbol .minus => some .negate
  | .keyword .not => some .not
  | _ => none

/-! ## Derivations -/

/-- The parts of a qualified name. -/
inductive QualifiedName : List Word → List String → Prop where
  | last {word : Word} (h : word.kind = .identifier) : QualifiedName [word] [word.value]
  | more {word dot : Word} {words : List Word} {parts : List String}
      (h : word.kind = .identifier) (hdot : dot.kind = .symbol .dot)
      (hwords : QualifiedName words parts) :
      QualifiedName (word :: dot :: words) (word.value :: parts)

/-- The type of a cast between its parentheses. -/
inductive CastWords : List Word → CastType → Prop where
  | plain {word : Word} {type : ValueType} (h : word.kind = .typeName)
      (htype : ValueType.ofName? word.value = some type) : CastWords [word] ⟨type, false⟩
  | nullable {word question : Word} {type : ValueType} (h : word.kind = .typeName)
      (htype : ValueType.ofName? word.value = some type) (hnullable : type.isNullable = true)
      (hquestion : question.kind = .symbol .question) :
      CastWords [word, question] ⟨type, true⟩

/-- What words are read as. -/
inductive Reading where
  | expression (phrase : Phrase)
  /-- Operands of the tiers, joined by operators of the first one. -/
  | chain (tiers : List Tier) (phrase : Phrase)
  /-- The rest of a chain after its first operands, which are grouped already. -/
  | links (tier : Tier) (tighter : List Tier) (left phrase : Phrase)
  | signed (phrase : Phrase)
  | operand (phrase : Phrase)
  /-- Expressions with commas between them. -/
  | arguments (phrases : List Phrase)

/-- The words can be read so, with that many parts open at once. -/
inductive Derives : Reading → List Word → Nat → Prop where
  | expression {phrase : Phrase} {words : List Word} {n : Nat}
      (h : Derives (.chain Tier.all phrase) words n) : Derives (.expression phrase) words (n + 1)
  | tightest {phrase : Phrase} {words : List Word} {n : Nat}
      (h : Derives (.signed phrase) words n) : Derives (.chain [] phrase) words n
  | chain {tier : Tier} {tighter : List Tier} {left phrase : Phrase} {first rest : List Word}
      {m n : Nat} (hfirst : Derives (.chain tighter left) first m)
      (hrest : Derives (.links tier tighter left phrase) rest n) :
      Derives (.chain (tier :: tighter) phrase) (first ++ rest) (max m n)
  | unlinked {tier : Tier} {tighter : List Tier} {left : Phrase} :
      Derives (.links tier tighter left left) [] 0
  | link {tier : Tier} {tighter : List Tier} {left right phrase : Phrase} {word : Word}
      {op : BinaryOp} {next rest : List Word} {m n : Nat} (hop : tier.operator? word.kind = some op)
      (hnext : Derives (.chain tighter right) next m)
      (hrest : Derives (.links tier tighter (.binary op left right) phrase) rest n) :
      Derives (.links tier tighter left phrase) (word :: (next ++ rest)) (max m n + 1)
  | unsigned {phrase : Phrase} {words : List Word} {n : Nat}
      (h : Derives (.operand phrase) words n) : Derives (.signed phrase) words n
  | signed {phrase : Phrase} {word : Word} {op : UnaryOp} {words : List Word} {n : Nat}
      (hop : sign? word.kind = some op) (h : Derives (.operand phrase) words n) :
      Derives (.signed (.unary op phrase)) (word :: words) n
  | literal {word : Word} {value : Except SyntaxError Literal} (h : word.literal? = some value) :
      Derives (.operand (.literal value none)) [word] 1
  | quantity {word unit : Word} {value : Except SyntaxError Literal}
      (h : word.literal? = some value)
      (hnumber : word.kind = .intLiteral ∨ word.kind = .realLiteral)
      (hunit : unit.kind = .identifier) :
      Derives (.operand (.literal value (some unit.value))) [word, unit] 1
  | field {words : List Word} {parts : List String} (h : QualifiedName words parts) :
      Derives (.operand (.field (".".intercalate parts))) words 1
  | emptyCall {words : List Word} {parts : List String} {opening closing : Word}
      (h : QualifiedName words parts) (hopening : opening.kind = .symbol .openParen)
      (hclosing : closing.kind = .symbol .closeParen) :
      Derives (.operand (.call (".".intercalate parts) [])) (words ++ [opening, closing]) 1
  | call {words inner : List Word} {parts : List String} {opening closing : Word}
      {arguments : List Phrase} {n : Nat} (h : QualifiedName words parts)
      (hopening : opening.kind = .symbol .openParen)
      (harguments : Derives (.arguments arguments) inner n)
      (hclosing : closing.kind = .symbol .closeParen) :
      Derives (.operand (.call (".".intercalate parts) arguments))
        (words ++ opening :: (inner ++ [closing])) (n + 1)
  | cast {words inner : List Word} {opening closing : Word} {target : CastType} {phrase : Phrase}
      {n : Nat} (hopening : opening.kind = .symbol .openParen) (htarget : CastWords words target)
      (hclosing : closing.kind = .symbol .closeParen) (h : Derives (.operand phrase) inner n) :
      Derives (.operand (.cast target phrase)) (opening :: (words ++ closing :: inner)) (n + 1)
  | group {inner : List Word} {opening closing : Word} {phrase : Phrase} {n : Nat}
      (hopening : opening.kind = .symbol .openParen) (h : Derives (.expression phrase) inner n)
      (hclosing : closing.kind = .symbol .closeParen) :
      Derives (.operand phrase) (opening :: (inner ++ [closing])) (n + 1)
  | lastArgument {phrase : Phrase} {words : List Word} {n : Nat}
      (h : Derives (.expression phrase) words n) : Derives (.arguments [phrase]) words n
  | moreArguments {phrase : Phrase} {phrases : List Phrase} {words rest : List Word} {comma : Word}
      {m n : Nat} (h : Derives (.expression phrase) words m)
      (hcomma : comma.kind = .symbol .comma) (hrest : Derives (.arguments phrases) rest n) :
      Derives (.arguments (phrase :: phrases)) (words ++ comma :: rest) (max m n)

/-! ## Chains without operators -/

/-- A chain of a tier is one of the looser tiers, too. -/
theorem Derives.loosen {tiers : List Tier} {phrase : Phrase} {words : List Word} {n : Nat}
    (h : Derives (.chain tiers phrase) words n) (looser : List Tier) :
    Derives (.chain (looser ++ tiers) phrase) words n := by
  induction looser with
  | nil => exact h
  | cons tier looser ih =>
    have hlinks : Derives (.links tier (looser ++ tiers) phrase phrase) [] 0 := .unlinked
    simpa using Derives.chain ih hlinks

theorem Derives.chain_of_signed {phrase : Phrase} {words : List Word} {n : Nat}
    (h : Derives (.signed phrase) words n) (tiers : List Tier) :
    Derives (.chain tiers phrase) words n := by
  have := (Derives.tightest h).loosen tiers
  rwa [List.append_nil] at this

/-- An operand alone is an expression. -/
theorem Derives.expression_of_operand {phrase : Phrase} {words : List Word} {n : Nat}
    (h : Derives (.operand phrase) words n) : Derives (.expression phrase) words (n + 1) :=
  .expression (.chain_of_signed (.unsigned h) _)

/-! ## Names and types -/

/-- A qualified name is made of identifiers and dots. -/
theorem QualifiedName.kind_eq {words : List Word} {parts : List String}
    (h : QualifiedName words parts) :
    ∀ word ∈ words, word.kind = .identifier ∨ word.kind = .symbol .dot := by
  induction h with
  | last h => exact List.forall_mem_singleton.2 (.inl h)
  | more h hdot _ ih =>
    exact List.forall_mem_cons.2 ⟨.inl h, List.forall_mem_cons.2 ⟨.inr hdot, ih⟩⟩

/-- The target of a cast is made of a type's name and maybe a question mark. -/
theorem CastWords.kind_eq {words : List Word} {target : CastType} (h : CastWords words target) :
    ∀ word ∈ words, word.kind = .typeName ∨ word.kind = .symbol .question := by
  cases h with
  | plain h _ => exact List.forall_mem_singleton.2 (.inl h)
  | nullable h _ _ hquestion =>
    exact List.forall_mem_cons.2 ⟨.inl h, List.forall_mem_singleton.2 (.inr hquestion)⟩

/-! ## First words -/

/-- The word starts an operand: it is a literal, a name or a parenthesis. -/
def Word.StartsOperand (word : Word) : Prop :=
  word.literal? ≠ none ∨ word.kind = .identifier ∨ word.kind = .symbol .openParen

theorem Word.StartsOperand.kind_ne {word : Word} (h : word.StartsOperand) :
    sign? word.kind = none ∧ word.kind ≠ .typeName ∧ word.kind ≠ .symbol .closeParen := by
  obtain ⟨kind, value⟩ := word
  rcases h with h | h | h
  · cases kind with
    | keyword word => cases word <;> simp_all [sign?, literal?, Parser.literalValue?]
    | symbol symbol => exact absurd rfl h
    | typeName => exact absurd rfl h
    | _ => simp [sign?]
  · simp_all [sign?]
  · simp_all [sign?]

/-- What starts an expression is no type's name and closes nothing. -/
theorem Word.kind_ne_of_starts {word : Word}
    (h : sign? word.kind ≠ none ∨ word.StartsOperand) :
    word.kind ≠ .typeName ∧ word.kind ≠ .symbol .closeParen := by
  rcases h with h | h
  · constructor
    · intro hkind
      rw [hkind] at h
      exact h rfl
    · intro hkind
      rw [hkind] at h
      exact h rfl
  · exact h.kind_ne.2

/-- What words start with, by what they are read as. -/
def Reading.Starts : Reading → List Word → Prop
  | .links tier _ _ _, words => ∀ word ∈ words.head?, tier.operator? word.kind ≠ none
  | .operand _, words => ∃ word rest, words = word :: rest ∧ word.StartsOperand
  | .expression _, words | .chain _ _, words | .signed _, words | .arguments _, words =>
    ∃ word rest, words = word :: rest ∧ (sign? word.kind ≠ none ∨ word.StartsOperand)

theorem QualifiedName.starts {words : List Word} {parts : List String}
    (h : QualifiedName words parts) :
    ∃ word rest, words = word :: rest ∧ word.kind = .identifier := by
  cases h with
  | last h => exact ⟨_, _, rfl, h⟩
  | more h _ _ => exact ⟨_, _, rfl, h⟩

theorem Derives.starts {reading : Reading} {words : List Word} {n : Nat}
    (h : Derives reading words n) : reading.Starts words := by
  -- The first word is that of the part in front, and what follows the part does not matter.
  induction h with
  | expression _ ih | tightest _ ih => exact ih
  | chain _ _ ih _ =>
    obtain ⟨word, rest, rfl, hword⟩ := ih
    exact ⟨word, rest ++ _, rfl, hword⟩
  | unlinked => simp [Reading.Starts]
  | link hop _ _ _ _ => simp [Reading.Starts, hop]
  | unsigned _ ih =>
    obtain ⟨word, rest, rfl, hword⟩ := ih
    exact ⟨word, rest, rfl, .inr hword⟩
  | signed hop _ _ => exact ⟨_, _, rfl, .inl (by simp [hop])⟩
  | literal h => exact ⟨_, _, rfl, .inl (by simp [h])⟩
  | quantity h _ _ => exact ⟨_, _, rfl, .inl (by simp [h])⟩
  | field h =>
    obtain ⟨word, rest, rfl, hword⟩ := h.starts
    exact ⟨word, rest, rfl, .inr (.inl hword)⟩
  | emptyCall h _ _ =>
    obtain ⟨word, rest, rfl, hword⟩ := h.starts
    exact ⟨word, _, rfl, .inr (.inl hword)⟩
  | call h _ _ _ _ =>
    obtain ⟨word, rest, rfl, hword⟩ := h.starts
    exact ⟨word, _, rfl, .inr (.inl hword)⟩
  | cast hopening _ _ _ _ => exact ⟨_, _, rfl, .inr (.inr hopening)⟩
  | group hopening _ _ _ => exact ⟨_, _, rfl, .inr (.inr hopening)⟩
  | lastArgument _ ih => exact ih
  | moreArguments _ _ _ ih _ =>
    obtain ⟨word, rest, rfl, hword⟩ := ih
    exact ⟨word, _, rfl, hword⟩

/-! ## Literals -/

theorem Word.literal?_of_symbol {word : Word} {symbol : Symbol} (h : word.kind = .symbol symbol) :
    word.literal? = none := by
  rw [literal?, Parser.literalValue?, h]

theorem Word.literal?_of_identifier {word : Word} (h : word.kind = .identifier) :
    word.literal? = none := by
  rw [literal?, Parser.literalValue?, h]

theorem Word.literal?_of_typeName {word : Word} (h : word.kind = .typeName) :
    word.literal? = none := by
  rw [literal?, Parser.literalValue?, h]

theorem Word.literal?_of_operator? {tier : Tier} {word : Word} {op : BinaryOp}
    (h : tier.operator? word.kind = some op) : word.literal? = none := by
  unfold Tier.operator? at h
  split at h <;> simp_all [literal?, Parser.literalValue?]

theorem Word.literal?_of_sign? {word : Word} {op : UnaryOp} (h : sign? word.kind = some op) :
    word.literal? = none := by
  unfold sign? at h
  split at h <;> simp_all [literal?, Parser.literalValue?]

theorem QualifiedName.literals {words : List Word} {parts : List String}
    (h : QualifiedName words parts) : words.filterMap Word.literal? = [] := by
  rw [List.filterMap_eq_nil_iff]
  intro word hword
  rcases h.kind_eq word hword with hkind | hkind
  · exact Word.literal?_of_identifier hkind
  · exact Word.literal?_of_symbol hkind

theorem CastWords.literals {words : List Word} {target : CastType} (h : CastWords words target) :
    words.filterMap Word.literal? = [] := by
  rw [List.filterMap_eq_nil_iff]
  intro word hword
  rcases h.kind_eq word hword with hkind | hkind
  · exact Word.literal?_of_typeName hkind
  · exact Word.literal?_of_symbol hkind

/-- The literals among the words are those of the phrase. -/
def Reading.SameLiterals : Reading → List Word → Prop
  | .links _ _ left phrase, words =>
    phrase.literals = left.literals ++ words.filterMap Word.literal?
  | .arguments phrases, words => Phrase.literalsOfAll phrases = words.filterMap Word.literal?
  | .expression phrase, words | .chain _ phrase, words | .signed phrase, words
  | .operand phrase, words => phrase.literals = words.filterMap Word.literal?

theorem Derives.sameLiterals {reading : Reading} {words : List Word} {n : Nat}
    (h : Derives reading words n) : reading.SameLiterals words := by
  -- The words that a rule adds to those of its parts are no literals, but for those of a literal.
  induction h with
  | expression _ ih | tightest _ ih | unsigned _ ih => exact ih
  | chain _ _ ih ihlinks =>
    simp only [Reading.SameLiterals] at ih ihlinks ⊢
    rw [ihlinks, ih, List.filterMap_append]
  | unlinked => simp [Reading.SameLiterals]
  | link hop _ _ ih ihlinks =>
    simp only [Reading.SameLiterals, Phrase.literals] at ih ihlinks ⊢
    rw [ihlinks, ih, List.filterMap_cons_none (Word.literal?_of_operator? hop),
      List.filterMap_append, List.append_assoc]
  | signed hop _ ih =>
    simp only [Reading.SameLiterals, Phrase.literals] at ih ⊢
    rw [ih, List.filterMap_cons_none (Word.literal?_of_sign? hop)]
  | literal h => simp [Reading.SameLiterals, Phrase.literals, h]
  | quantity h _ hunit =>
    simp [Reading.SameLiterals, Phrase.literals, h, Word.literal?_of_identifier hunit]
  | field h => simp [Reading.SameLiterals, Phrase.literals, h.literals]
  | emptyCall h hopening hclosing =>
    simp [Reading.SameLiterals, Phrase.literals, Phrase.literalsOfAll, h.literals,
      Word.literal?_of_symbol hopening, Word.literal?_of_symbol hclosing]
  | call h hopening _ hclosing ih =>
    simp only [Reading.SameLiterals, Phrase.literals] at ih ⊢
    simp [ih, h.literals, Word.literal?_of_symbol hopening, Word.literal?_of_symbol hclosing]
  | cast hopening htarget hclosing _ ih =>
    simp only [Reading.SameLiterals, Phrase.literals] at ih ⊢
    simp [ih, htarget.literals, Word.literal?_of_symbol hopening, Word.literal?_of_symbol hclosing]
  | group hopening _ hclosing ih =>
    simp only [Reading.SameLiterals] at ih ⊢
    simp [ih, Word.literal?_of_symbol hopening, Word.literal?_of_symbol hclosing]
  | lastArgument _ ih =>
    simp only [Reading.SameLiterals, Phrase.literalsOfAll] at ih ⊢
    rw [ih, List.append_nil]
  | moreArguments _ hcomma _ ih ihrest =>
    simp only [Reading.SameLiterals, Phrase.literalsOfAll] at ih ihrest ⊢
    simp [ih, ihrest, Word.literal?_of_symbol hcomma]

/-! ## Chains grow to the left -/

/-- A phrase extends what it starts with on the left. -/
structure Phrase.Extends (phrase left : Phrase) : Prop where
  size_le : left.size ≤ phrase.size
  units_subset : left.units ⊆ phrase.units
  build_error {start : Nat} {cause : SyntaxError} (h : left.build start = .error cause) :
    phrase.build start = .error cause

theorem Phrase.Extends.refl (phrase : Phrase) : phrase.Extends phrase :=
  ⟨Nat.le_refl _, List.Subset.refl _, id⟩

theorem Phrase.Extends.of_binary {phrase left right : Phrase} {op : BinaryOp}
    (h : phrase.Extends (.binary op left right)) : phrase.Extends left where
  size_le := by
    have := h.size_le
    rw [size] at this
    omega
  units_subset := by
    have := h.units_subset
    rw [units] at this
    exact fun unit hunit => this (List.mem_append_left _ hunit)
  build_error hleft := h.build_error (build_binary_error_left hleft _ _)

/-- Links extend the phrase that they start from. -/
def Reading.Extends : Reading → Prop
  | .links _ _ left phrase => phrase.Extends left
  | _ => True

theorem Derives.extends {reading : Reading} {words : List Word} {n : Nat}
    (h : Derives reading words n) : reading.Extends := by
  induction h with
  | unlinked => exact .refl _
  | link _ _ _ _ ih => exact Phrase.Extends.of_binary ih
  | _ => trivial

end UnitCheck
