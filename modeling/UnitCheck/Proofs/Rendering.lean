import UnitCheck.Proofs.Legible

/-!
  Written trees.

  The written form of a legible tree has the words that its shape says (`Expr.Legible.reads`).
-/

namespace UnitCheck

/-! ## Operators -/

/-- The tier that an operator belongs to. -/
def BinaryOp.tier : BinaryOp → Tier
  | or => .or
  | and | xor => .and
  | add | subtract => .sum
  | multiply | divide | remainder => .product
  | equals | notEquals => .equality
  | lessThan | greaterThan | lessOrEqual | greaterOrEqual => .order

/-- The kind of the word that an operator is. -/
def BinaryOp.kind : BinaryOp → Token.Kind
  | or => .keyword .or
  | and => .keyword .and
  | xor => .keyword .xor
  | add => .symbol .plus
  | subtract => .symbol .minus
  | multiply => .symbol .multiply
  | divide => .symbol .divide
  | remainder => .symbol .percent
  | equals => .symbol .equal
  | notEquals => .symbol .notEqual
  | lessThan => .symbol .lessThan
  | greaterThan => .symbol .greaterThan
  | lessOrEqual => .symbol .lessThanOrEqual
  | greaterOrEqual => .symbol .greaterThanOrEqual

/-- The word that an operator is. -/
def BinaryOp.word (op : BinaryOp) : Word := ⟨op.kind, op.text⟩

theorem BinaryOp.operator?_kind (op : BinaryOp) : op.tier.operator? op.kind = some op := by
  cases op <;> rfl

/-- The word that an operator with one operand is. -/
def UnaryOp.word : UnaryOp → Word
  | negate => ⟨.symbol .minus, "-"⟩
  | not => ⟨.keyword .not, "Not"⟩

theorem UnaryOp.sign?_word (op : UnaryOp) : sign? op.word.kind = some op := by
  cases op <;> rfl

theorem isIdentifierChar_space : isIdentifierChar ' ' = false := by decide

namespace Reads

variable {cs : List Char} {ws : List Word}

/-- A word of letters comes first, with a blank after it. -/
theorem letters {run : List Char} {word : Word} (h : Reads cs ws) (hrun : Reads run [word]) :
    Reads (run ++ ' ' :: cs) (word :: ws) :=
  hrun.append isIdentifierChar_space (by decide) h.space

/-- No symbol goes on with a blank. -/
theorem spaced (symbol : Symbol) (h : Reads cs ws) :
    Reads (symbol.chars ++ ' ' :: cs) (symbol.word :: ws) := by
  intro rest hrest
  have hsymbol : Symbol.atStart? (symbol.chars ++ ' ' :: (cs ++ rest)) = some symbol := by
    cases symbol <;> rfl
  rw [List.append_assoc, List.cons_append, Symbol.scan hsymbol,
    Word.scan_blank Text.isBlank_space, h rest hrest, List.cons_append]

/-- An operator comes first, with a blank after it. -/
theorem binary (op : BinaryOp) (h : Reads cs ws) :
    Reads (op.text.toList ++ ' ' :: cs) (op.word :: ws) := by
  cases op with
  | or => exact h.letters (isName_of_letters (by decide) (by decide)).reads
  | and => exact h.letters (isName_of_letters (by decide) (by decide)).reads
  | xor => exact h.letters (isName_of_letters (by decide) (by decide)).reads
  | add => exact h.spaced .plus
  | subtract => exact h.spaced .minus
  | multiply => exact h.spaced .multiply
  | divide => exact h.spaced .divide
  | remainder => exact h.spaced .percent
  | equals => exact h.spaced .equal
  | notEquals => exact h.spaced .notEqual
  | lessThan => exact h.spaced .lessThan
  | greaterThan => exact h.spaced .greaterThan
  | lessOrEqual => exact h.spaced .lessThanOrEqual
  | greaterOrEqual => exact h.spaced .greaterThanOrEqual

theorem unary (op : UnaryOp) (h : Reads cs ws) :
    Reads (op.leading.toList ++ cs) (op.word :: ws) := by
  cases op with
  | negate => exact h.symbol .minus fun _ => rfl
  | not =>
    show Reads (['N', 'o', 't'] ++ ' ' :: cs) _
    exact h.letters (isName_of_letters (by decide) (by decide)).reads

end Reads

/-! ## Names and types -/

theorem IsIdentifier.scan {name : String} (h : IsIdentifier name) {rest : List Char}
    (hrest : ∀ c ∈ rest.head?, isIdentifierChar c = false) :
    Word.scan (name.toList ++ rest) = ⟨.identifier, name⟩ :: Word.scan rest := by
  rw [h.isName.scan hrest, String.ofList_toList, h.kind]

/-- Identifiers with dots between them are read as a qualified name. -/
theorem exists_reads_intercalate {parts : List String} (hne : parts ≠ [])
    (h : ∀ part ∈ parts, IsIdentifier part) :
    ∃ words, QualifiedName words parts ∧ Reads (".".intercalate parts).toList words := by
  induction parts with
  | nil => exact absurd rfl hne
  | cons part parts ih =>
    have hpart := h part List.mem_cons_self
    cases parts with
    | nil =>
      refine ⟨[⟨.identifier, part⟩], .last rfl, fun rest hrest => ?_⟩
      rw [String.intercalate_singleton]
      exact hpart.scan fun c hc => (hrest c hc).1
    | cons next parts =>
      obtain ⟨words, hwords, hreads⟩ := ih (by simp) fun p hp => h p (List.mem_cons_of_mem _ hp)
      refine ⟨⟨.identifier, part⟩ :: Symbol.dot.word :: words, .more rfl rfl hwords,
        fun rest hrest => ?_⟩
      have hchars : (".".intercalate (part :: next :: parts)).toList ++ rest =
          part.toList ++ ('.' :: ((".".intercalate (next :: parts)).toList ++ rest)) := by
        rw [String.intercalate_cons_cons, String.toList_append, String.toList_append]
        simp
      -- A dot is no delimiter of numerals, but it ends a name.
      rw [hchars, hpart.scan fun c hc => by obtain rfl := Option.mem_some.1 hc; rfl]
      exact congrArg _ ((hreads.symbol .dot fun _ => rfl) rest hrest)

/-- A qualified name is read as the identifiers that it consists of. -/
theorem IsQualified.reads {name : String} (h : IsQualified name) :
    ∃ parts, name = ".".intercalate parts ∧ QualifiedName (Word.scan name.toList) parts ∧
      Reads name.toList (Word.scan name.toList) := by
  obtain ⟨parts, hne, hidentifiers, rfl⟩ := h
  obtain ⟨words, hname, hreads⟩ := exists_reads_intercalate hne hidentifiers
  rw [hreads.scan_eq]
  exact ⟨parts, rfl, hname, hreads⟩

theorem IsIdentifier.reads {name : String} (h : IsIdentifier name) :
    Reads name.toList [⟨.identifier, name⟩] :=
  fun _ hrest => h.scan fun c hc => (hrest c hc).1

/-- The words that the target of a cast is. -/
def CastType.words (target : CastType) : List Word :=
  ⟨.typeName, target.type.name⟩ :: if target.nullable then [Symbol.question.word] else []

theorem ValueType.reads (type : ValueType) :
    Reads type.name.toList [⟨.typeName, type.name⟩] := by
  have hname : IsName type.name.toList := by
    refine isName_of_letters ?_ ?_ <;> cases type <;> decide
  have hkind : Lexeme.wordKind type.name = .typeName := by
    cases type <;> decide
  have := hname.reads
  rwa [String.ofList_toList, hkind] at this

theorem CastType.reads (target : CastType) : Reads target.text.toList target.words := by
  obtain ⟨type, nullable⟩ := target
  cases nullable with
  | false => exact type.reads
  | true =>
    show Reads (type.name ++ "?").toList [⟨.typeName, type.name⟩, Symbol.question.word]
    rw [String.toList_append]
    exact type.reads.append (by decide) (by decide) (reads_nil.symbol .question fun _ => rfl)

theorem CastType.castWords {target : CastType}
    (h : target.nullable = true → target.type.isNullable = true) :
    CastWords target.words target := by
  obtain ⟨type, nullable⟩ := target
  have htype := ValueType.ofName?_name type
  cases nullable with
  | false => exact .plain rfl htype
  | true => exact .nullable rfl htype (h rfl) rfl

/-! ## Trees -/

namespace Expr

mutual
/-- The words of a written tree. -/
def words : Expr → List Word
  | field _ name => Word.scan name.toList
  | literal _ value none => [value.word]
  | literal _ value (some unit) => [value.word, ⟨.identifier, unit⟩]
  | cast _ target operand =>
    Symbol.openParen.word :: (target.words ++ Symbol.closeParen.word :: operand.words)
  | call _ name arguments =>
    Word.scan name.toList ++
      Symbol.openParen.word :: (argumentWords arguments ++ [Symbol.closeParen.word])
  | binary _ op left right =>
    Symbol.openParen.word ::
      (left.words ++ op.word :: (right.words ++ [Symbol.closeParen.word]))
  | unary _ op operand =>
    Symbol.openParen.word :: op.word :: (operand.words ++ [Symbol.closeParen.word])

/-- The words of written arguments. -/
def argumentWords : List Expr → List Word
  | [] => []
  | [e] => e.words
  | e :: es => e.words ++ Symbol.comma.word :: argumentWords es
end

theorem reads_closing : Reads [')'] [Symbol.closeParen.word] :=
  reads_nil.symbol .closeParen fun _ => rfl

theorem reads_arguments {es : List Expr} (h : ∀ e ∈ es, Reads e.chars e.words) :
    Reads (argumentChars es) (argumentWords es) := by
  induction es with
  | nil => exact reads_nil
  | cons e es ih =>
    have he := h e List.mem_cons_self
    cases es with
    | nil => exact he
    | cons e' es =>
      have hrest := ih fun a ha => h a (List.mem_cons_of_mem _ ha)
      exact he.append (by decide) (by decide) (hrest.space.symbol .comma fun _ => rfl)

/-- A legible tree is written with its words. -/
theorem Legible.reads {e : Expr} (h : e.Legible) : Reads e.chars e.words := by
  induction e using Expr.induct with
  | step e ih =>
    obtain ⟨hroot, hbelow⟩ := legible_iff.1 h
    have hchildren : ∀ child ∈ e.children, Reads child.chars child.words :=
      fun child hchild => ih child hchild (hbelow child hchild)
    cases e with
    | field id name =>
      obtain ⟨parts, -, -, hreads⟩ := IsQualified.reads hroot
      exact hreads
    | literal id value unit =>
      obtain ⟨hvalue, hunit⟩ := hroot
      cases unit with
      | none => exact hvalue.reads
      | some symbol =>
        have hsymbol := (hunit symbol rfl).1.reads
        exact hvalue.reads.append isIdentifierChar_space (by decide) hsymbol.space
    | cast id target operand =>
      have hoperand := hchildren operand List.mem_cons_self
      have hclosing := hoperand.symbol .closeParen fun _ => rfl
      -- The text starts with its parenthesis, and a parenthesis ends the name of the type.
      exact (target.reads.append (by decide) (by decide) hclosing).symbol .openParen fun _ => rfl
    | call id name arguments =>
      obtain ⟨parts, -, -, hname⟩ := IsQualified.reads hroot
      have harguments : Reads (argumentChars arguments ++ [')'])
          (argumentWords arguments ++ [Symbol.closeParen.word]) :=
        (reads_arguments hchildren).append (by decide) (by decide) reads_closing
      exact hname.append (by decide) (by decide) (harguments.symbol .openParen fun _ => rfl)
    | binary id op left right =>
      have hleft := hchildren left List.mem_cons_self
      have hright := hchildren right (List.mem_cons_of_mem _ List.mem_cons_self)
      have hrest : Reads (right.chars ++ [')']) (right.words ++ [Symbol.closeParen.word]) :=
        hright.append (by decide) (by decide) reads_closing
      exact (hleft.append isIdentifierChar_space (by decide) (hrest.binary op).space).symbol
        .openParen fun _ => rfl
    | unary id op operand =>
      have hoperand := hchildren operand List.mem_cons_self
      have hrest : Reads (operand.chars ++ [')']) (operand.words ++ [Symbol.closeParen.word]) :=
        hoperand.append (by decide) (by decide) reads_closing
      exact (hrest.unary op).symbol .openParen fun _ => rfl

end Expr

end UnitCheck
