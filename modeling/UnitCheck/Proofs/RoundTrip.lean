import UnitCheck.Proofs.Chains

/-!
  Trees that come back from their written forms.

  Reading numbers the nodes of a tree in post-order, so a tree can come back only as
  `Expr.numbered`, which is the tree with such numbers. It does so exactly when there is room for
  its written form; otherwise it nests too deeply.

  Nothing is asked of the literals of the tree but that each of them alone is read as a literal of
  the same value. This is enough: what is read as a literal starts like one
  (`Derives.opensLiteral`), so it has no sign and is a number (`Expr.unsigned_of_ofText`), and then
  its written form loses nothing.
-/

namespace UnitCheck

namespace Expr

/-! ## Numbers in post-order -/

mutual
/-- The tree with its nodes numbered in post-order from the given number on. -/
def numberedFrom : Expr → Nat → Expr
  | field _ name, start => field start name
  | literal _ value unit, start => literal start value unit
  | cast _ target operand, start =>
    cast (start + operand.size) target (operand.numberedFrom start)
  | call _ name arguments, start =>
    call (start + sizes arguments) name (allNumberedFrom arguments start)
  | binary _ op left right, start =>
    binary (start + left.size + right.size) op (left.numberedFrom start)
      (right.numberedFrom (start + left.size))
  | unary _ op operand, start => unary (start + operand.size) op (operand.numberedFrom start)

/-- The trees with their nodes numbered one tree after the other. -/
def allNumberedFrom : List Expr → Nat → List Expr
  | [], _ => []
  | e :: es, start => e.numberedFrom start :: allNumberedFrom es (start + e.size)
end

/-- The tree with its nodes numbered in post-order. -/
def numbered (e : Expr) : Expr := e.numberedFrom 0

theorem ids_allNumberedFrom {es : List Expr}
    (h : ∀ e ∈ es, ∀ start, (e.numberedFrom start).postOrder.map id = List.range' start e.size)
    (start : Nat) :
    (postOrders (allNumberedFrom es start)).map id = List.range' start (sizes es) := by
  induction es generalizing start with
  | nil => rfl
  | cons e es ih =>
    have hrest := ih (fun a ha => h a (List.mem_cons_of_mem _ ha)) (start + e.size)
    rw [allNumberedFrom, postOrders, List.map_append, h e List.mem_cons_self, hrest, sizes,
      List.range'_append_1]

/-- The numbers follow each other in post-order. -/
theorem ids_numberedFrom (e : Expr) :
    ∀ start, (e.numberedFrom start).postOrder.map id = List.range' start e.size := by
  -- Induction on the tree, for any start: the children take the first numbers and the node the
  -- next.
  induction e using Expr.induct with
  | step e ih =>
    intro start
    cases e with
    | field _ name => rfl
    | literal _ value unit => rfl
    | cast _ target operand =>
      have hoperand := ih operand List.mem_cons_self start
      rw [numberedFrom, postOrder, List.map_append, hoperand, size, Nat.add_comm 1,
        List.range'_1_concat]
      rfl
    | call _ name arguments =>
      have harguments : (postOrders (allNumberedFrom arguments start)).map id =
          List.range' start (sizes arguments) := ids_allNumberedFrom ih start
      rw [numberedFrom, postOrder, List.map_append, harguments, size, Nat.add_comm 1,
        List.range'_1_concat]
      rfl
    | binary _ op left right =>
      have hleft := ih left List.mem_cons_self start
      have hright := ih right (List.mem_cons_of_mem _ List.mem_cons_self) (start + left.size)
      rw [numberedFrom, postOrder, List.map_append, List.map_append, hleft, hright,
        List.range'_append_1, size, Nat.add_comm 1, List.range'_1_concat, ← Nat.add_assoc]
      rfl
    | unary _ op operand =>
      have hoperand := ih operand List.mem_cons_self start
      rw [numberedFrom, postOrder, List.map_append, hoperand, size, Nat.add_comm 1,
        List.range'_1_concat]
      rfl

theorem sizes_argumentReadings {es : List Expr} (h : ∀ e ∈ es, e.reading.size = e.size) :
    Phrase.sizes (argumentReadings es) = sizes es := by
  induction es with
  | nil => rfl
  | cons e es ih =>
    have hrest := ih fun a ha => h a (List.mem_cons_of_mem _ ha)
    rw [argumentReadings, Phrase.sizes, h e List.mem_cons_self, hrest, sizes]

/-- A tree is read as a phrase of its size. -/
theorem size_reading (e : Expr) : e.reading.size = e.size := by
  induction e using Expr.induct with
  | step e ih =>
    cases e with
    | field _ name => rfl
    | literal _ value unit =>
      rw [reading]
      split
      · rfl
      · rfl
    | cast _ target operand =>
      rw [reading, Phrase.size, ih operand List.mem_cons_self, size, Nat.add_comm]
    | call _ name arguments =>
      have harguments : Phrase.sizes (argumentReadings arguments) = sizes arguments :=
        sizes_argumentReadings ih
      rw [reading, Phrase.size, harguments, size, Nat.add_comm]
    | binary _ op left right =>
      have hleft := ih left List.mem_cons_self
      have hright := ih right (List.mem_cons_of_mem _ List.mem_cons_self)
      rw [reading, Phrase.size, hleft, hright, size, Nat.add_comm]
    | unary _ op operand =>
      rw [reading, Phrase.size, ih operand List.mem_cons_self, size, Nat.add_comm]

/-- If the node is a literal, its written value is read as the value. -/
def Survives : Expr → Prop
  | literal _ value _ => value.survives = true
  | _ => True

theorem buildAll_argumentReadings {es : List Expr}
    (h : ∀ e ∈ es, ∀ start, e.reading.build start = .ok (e.numberedFrom start)) (start : Nat) :
    Phrase.buildAll (argumentReadings es) start = .ok (allNumberedFrom es start) := by
  induction es generalizing start with
  | nil => rfl
  | cons e es ih =>
    have hrest := ih (fun a ha => h a (List.mem_cons_of_mem _ ha)) (start + e.size)
    rw [← e.size_reading] at hrest
    have hall := Phrase.buildAll_cons (h e List.mem_cons_self start) hrest
    rw [argumentReadings, hall, allNumberedFrom, size_reading]

/-- Where all literals survive, a written tree is read as the tree. -/
theorem build_reading {e : Expr} (h : ∀ node ∈ e.postOrder, node.Survives) :
    ∀ start, e.reading.build start = .ok (e.numberedFrom start) := by
  induction e using Expr.induct with
  | step e ih =>
    intro start
    obtain ⟨hroot, hbelow⟩ := forall_postOrder_iff.1 h
    have hchildren : ∀ child ∈ e.children, ∀ start,
        child.reading.build start = .ok (child.numberedFrom start) :=
      fun child hchild => ih child hchild (hbelow child hchild)
    cases e with
    | field _ name => rfl
    | literal _ value unit =>
      -- An infinite number would be written as a name.
      have hfinite := Literal.isInfinite_of_survives hroot
      rw [reading, if_neg (by simp [hfinite]), Literal.reread_of_survives hroot]
      rfl
    | cast _ target operand =>
      rw [reading, Phrase.build_cast (hchildren operand List.mem_cons_self start), size_reading,
        numberedFrom]
    | call _ name arguments =>
      have harguments : Phrase.buildAll (argumentReadings arguments) start =
          .ok (allNumberedFrom arguments start) := buildAll_argumentReadings hchildren start
      rw [reading, Phrase.build_call harguments, sizes_argumentReadings fun e _ => e.size_reading,
        numberedFrom]
    | binary _ op left right =>
      have hleft := hchildren left List.mem_cons_self start
      have hright := hchildren right (List.mem_cons_of_mem _ List.mem_cons_self)
        (start + left.size)
      rw [← left.size_reading] at hright
      rw [reading, Phrase.build_binary hleft hright, numberedFrom, size_reading, size_reading]
    | unary _ op operand =>
      rw [reading, Phrase.build_unary (hchildren operand List.mem_cons_self start), size_reading,
        numberedFrom]

end Expr

/-! ## How literals start -/

/-- The word starts a literal, maybe one in parentheses. -/
def Word.OpensLiteral (word : Word) : Prop :=
  word.literal? ≠ none ∨ word.kind = .symbol .openParen

/-- Words that are read as a literal start like one. Links make no literal. -/
def Reading.OpensLiteral : Reading → List Word → Prop
  | .links _ _ left phrase, words =>
    ∀ value unit, phrase = .literal value unit → left = phrase ∧ words = []
  | .arguments _, _ => True
  | .expression phrase, words | .chain _ phrase, words | .signed phrase, words
  | .operand phrase, words =>
    ∀ value unit, phrase = .literal value unit →
      ∃ word rest, words = word :: rest ∧ word.OpensLiteral

theorem Derives.opensLiteral {reading : Reading} {words : List Word} {n : Nat}
    (h : Derives reading words n) : reading.OpensLiteral words := by
  induction h with
  | expression _ ih | tightest _ ih | unsigned _ ih => exact ih
  | chain _ _ ih ihlinks =>
    intro value unit hphrase
    obtain ⟨hleft, rfl⟩ := ihlinks value unit hphrase
    rw [List.append_nil]
    exact ih value unit (hleft.trans hphrase)
  | unlinked => exact fun _ _ _ => ⟨rfl, rfl⟩
  -- The rest of the chain starts from an operation, which is no literal.
  | link _ _ _ _ ihlinks =>
    intro value unit hphrase
    obtain ⟨hleft, -⟩ := ihlinks value unit hphrase
    rw [hphrase] at hleft
    cases hleft
  | literal hword => exact fun _ _ _ => ⟨_, _, rfl, .inl (by simp [hword])⟩
  | quantity hword _ _ => exact fun _ _ _ => ⟨_, _, rfl, .inl (by simp [hword])⟩
  | group hopening _ _ _ => exact fun _ _ _ => ⟨_, _, rfl, .inr hopening⟩
  | lastArgument _ _ | moreArguments _ _ _ _ _ => trivial
  | signed _ _ _ | field _ | emptyCall _ _ _ | call _ _ _ _ _ | cast _ _ _ _ _ =>
    intro value unit hphrase
    cases hphrase

namespace Number

/-- A number in a style has no sign, or it is written with its sign, or it is none. -/
theorem Style.number_cases (style : Style) (f : Format) (bits : Nat) :
    ((f.unpack bits).1 = false ∧ (f.unpack bits).2 ≤ f.infinity) ∨
      (∃ cs, style.number f (f.unpack bits).1 (f.unpack bits).2 = '-' :: cs) ∨
        style.number f (f.unpack bits).1 (f.unpack bits).2 = ['N', 'a', 'N'] := by
  rw [Style.number]
  by_cases hnumber : f.infinity < (f.unpack bits).2
  · rw [if_pos hnumber]
    exact .inr (.inr rfl)
  · rw [if_neg hnumber]
    cases (f.unpack bits).1 with
    | true => exact .inr (.inl ⟨_, rfl⟩)
    | false => exact .inl ⟨rfl, by omega⟩

/-- Bits without that of the sign are those of a magnitude. -/
theorem Format.unpack_eq_of_positive (f : Format) {bits : Nat} (h : (f.unpack bits).1 = false) :
    (f.unpack bits).2 = bits := by
  have hlt : bits < f.signWeight := by
    have := of_decide_eq_false h
    omega
  exact Nat.mod_eq_of_lt hlt

end Number

namespace Literal

open Number (Format Style)

theorem intText_cases (n : Int) : 0 ≤ n ∨ ∃ cs, intText n = '-' :: cs := by
  by_cases hn : n < 0
  · refine .inr ⟨Nat.toDigits 10 n.natAbs, ?_⟩
    rw [intText, if_pos hn]
    rfl
  · exact .inl (by omega)

theorem double_cases (x : Float) :
    (double x).Unsigned ∨ (∃ cs, (double x).chars = '-' :: cs) ∨
      (double x).chars = ['N', 'a', 'N'] := by
  rcases Style.literal.number_cases .binary64 x.toBits.toNat with ⟨hsign, hle⟩ | hchars
  · rw [Format.unpack_eq_of_positive _ hsign] at hle
    exact .inl ⟨x.toBits.toNat, hle, Number.eq_ofBits_of_le hle⟩
  · exact .inr hchars

theorem float_cases (x : Float32) :
    (float x).Unsigned ∨ (∃ cs, (float x).chars = '-' :: cs) ∨
      (float x).chars = ['N', 'a', 'N', 'f'] := by
  have hchars : (float x).chars = Style.literal.number .binary32
      (Format.binary32.unpack x.toBits.toNat).1 (Format.binary32.unpack x.toBits.toNat).2 ++
        ['f'] := rfl
  rw [hchars]
  rcases Style.literal.number_cases .binary32 x.toBits.toNat with
    ⟨hsign, hle⟩ | ⟨cs, hminus⟩ | hnone
  · rw [Format.unpack_eq_of_positive _ hsign] at hle
    exact .inl ⟨x.toBits.toNat, hle, Number.eq_ofBits_of_le32 hle⟩
  · rw [hminus]
    exact .inr (.inl ⟨_, rfl⟩)
  · rw [hnone]
    exact .inr (.inr rfl)

/-- A value is below zero only if it is written with a sign, unless it is no number at all. -/
theorem unsigned_or_chars (value : Literal) :
    value.Unsigned ∨ (∃ cs, value.chars = '-' :: cs) ∨
      value.chars = ['N', 'a', 'N'] ∨ value.chars = ['N', 'a', 'N', 'f'] := by
  cases value with
  | int n => exact (intText_cases n.toInt).imp_right .inl
  | long n =>
    refine (intText_cases n.toInt).imp_right fun ⟨cs, hcs⟩ => .inl ⟨cs ++ ['L'], ?_⟩
    rw [chars, hcs, List.cons_append]
  | double x => exact (double_cases x).imp_right (Or.imp_right .inl)
  | float x => exact (float_cases x).imp_right (Or.imp_right .inr)
  | decimal a =>
    cases hnegative : a.negative with
    | false => exact .inl hnegative
    | true =>
      refine .inr (.inl ⟨a.magnitudeText ++ ['m'], ?_⟩)
      rw [chars, Number.Decimal.text, if_pos hnegative]
      rfl
  | uint _ | ulong _ | char _ | string _ | bool _ | null => exact .inl trivial

end Literal

namespace Expr

/-- A written literal is its value, and no identifier goes on with it. -/
theorem exists_chars_literal (id : Nat) (value : Literal) (unit : Option String) :
    ∃ rest, (literal id value unit).chars = value.chars ++ rest ∧
      ∀ c ∈ rest.head?, isIdentifierChar c = false := by
  cases unit with
  | none => exact ⟨[], (List.append_nil _).symm, by simp⟩
  | some symbol =>
    refine ⟨' ' :: symbol.toList, rfl, fun c hc => ?_⟩
    obtain rfl := Option.mem_some.1 hc
    exact isIdentifierChar_space

/-- What is read as a literal was written without a sign. -/
theorem unsigned_of_ofText {id again : Nat} {value other : Literal} {unit symbol : Option String}
    (h : Expr.ofText (literal id value unit).text = .ok (.literal again other symbol)) :
    value.Unsigned := by
  obtain ⟨phrase, n, hderives, -, hbuild, -⟩ := Expr.ofTextWith_sound h
  obtain ⟨-, rfl⟩ := eq_of_build_eq_literal hbuild
  obtain ⟨word, words, hscan, hopens⟩ := hderives.opensLiteral _ _ rfl
  obtain ⟨rest, hchars, hrest⟩ := exists_chars_literal id value unit
  rw [text, String.toList_ofList, hchars] at hscan
  -- Neither a minus nor a name starts a literal.
  have hname : ∀ run : List Char, run ≠ [] → run.all Char.isAlpha = true →
      Lexeme.wordKind (String.ofList run) = .identifier → value.chars ≠ run := by
    intro run hne hletters hkind heq
    rw [heq, (isName_of_letters hne hletters).scan hrest, hkind] at hscan
    injection hscan with hword
    rw [← hword] at hopens
    rcases hopens with hliteral | hopening
    · exact hliteral rfl
    · cases hopening
  rcases value.unsigned_or_chars with hunsigned | ⟨cs, hcs⟩ | hcs | hcs
  · exact hunsigned
  · have hminus : Word.scan ('-' :: (cs ++ rest)) = Symbol.minus.word :: Word.scan (cs ++ rest) :=
      @Symbol.scan .minus (cs ++ rest) rfl
    rw [hcs, List.cons_append, hminus] at hscan
    injection hscan with hword
    rw [← hword] at hopens
    rcases hopens with hliteral | hopening
    · exact absurd rfl hliteral
    · cases hopening
  · exact absurd hcs (hname _ (by decide) (by decide) (by decide))
  · exact absurd hcs (hname _ (by decide) (by decide) (by decide))

/-! ## Reading again -/

/-- Names are identifiers with points between them, units are identifiers next to numbers, and a
    cast is nullable only where its type may be. -/
def IsNamed : Expr → Prop
  | field _ name | call _ name _ => IsQualified name
  | literal _ value unit => ∀ symbol ∈ unit, IsIdentifier symbol ∧ value.isNumeric = true
  | cast _ target _ => target.nullable = true → target.type.isNullable = true
  | binary _ _ _ _ | unary _ _ _ => True

/-- If the node is a literal, it alone is read again as a literal of the same value. -/
def ReturnsAlone : Expr → Prop
  | literal id value unit =>
    ∃ again other symbol,
      Expr.ofText (literal id value unit).text = .ok (.literal again other symbol) ∧
        value.same other = true
  | _ => True

theorem IsNamed.isWritten {node : Expr} (h : node.IsNamed) (hreturns : node.ReturnsAlone) :
    node.IsWritten := by
  cases node with
  | literal id value unit =>
    obtain ⟨again, other, symbol, hread, -⟩ := hreturns
    exact ⟨unsigned_of_ofText hread, h⟩
  | _ => exact h

/-- A literal that alone is read again loses nothing. -/
theorem IsNamed.survives {node : Expr} (h : node.IsNamed) (hreturns : node.ReturnsAlone) :
    node.Survives := by
  cases node with
  | literal id value unit =>
    have hwritten := h.isWritten hreturns
    obtain ⟨again, other, symbol, hread, hsame⟩ := hreturns
    have hlegible : (literal 0 value unit).Legible :=
      legible_iff.2 ⟨hwritten, by simp [children]⟩
    -- The id is not written, so the literal may be taken as a tree that was read.
    have htext : (literal id value unit).text = (literal 0 value unit).text := by
      cases unit with
      | none => rfl
      | some _ => rfl
    rw [htext] at hread
    cases hsurvives : value.survives with
    | true => exact hsurvives
    | false =>
      rw [not_same_of_ofText_literal hlegible hsurvives hread] at hsame
      cases hsame
  | _ => trivial

theorem isReadable_of_survives {node : Expr} (h : node.Survives) : node.isReadable = true := by
  cases node with
  | literal id value unit =>
    have hfinite := Literal.isInfinite_of_survives h
    have hplain := Literal.isCodePoint_of_survives h
    simp [isReadable, hfinite, hplain]
  | _ => rfl

/-- A tree with proper names whose literals are read again one by one is read again as a whole,
    with its nodes numbered in post-order, if at most 200 parts of its written form are open at
    once. Otherwise it nests too deeply. -/
theorem ofText_text_numbered {e : Expr} (hnamed : ∀ node ∈ e.postOrder, node.IsNamed)
    (hreturns : ∀ node ∈ e.postOrder, node.ReturnsAlone) :
    (1 + e.cost ≤ maxDepth →
      Expr.ofText e.text = .ok e.numbered ∧
        e.numbered.postOrder.map id = List.range e.size) ∧
    (maxDepth < 1 + e.cost → Expr.ofText e.text = .error (.parse .tooDeep)) := by
  have hlegible : e.Legible := fun node hnode => (hnamed node hnode).isWritten (hreturns node hnode)
  have hsurvives : ∀ node ∈ e.postOrder, node.Survives :=
    fun node hnode => (hnamed node hnode).survives (hreturns node hnode)
  have hreadable : e.Readable := fun node hnode => isReadable_of_survives (hsurvives node hnode)
  have hbuild := build_reading hsurvives 0
  constructor
  · intro hroom
    refine ⟨(hlegible.ofText_text hreadable _).2 ⟨hroom, hbuild⟩, ?_⟩
    rw [numbered, ids_numberedFrom, List.range_eq_range']
  · intro hroom
    -- The text is a sentence and its literals convert, so only the depth is left to refuse it.
    have hderives := (derives_words hlegible hreadable).expression_of_operand
    rw [← hlegible.scan_text] at hderives
    exact Expr.ofText_eq_tooDeep hderives hbuild (by omega)

theorem IsWritten.isNamed {node : Expr} (h : node.IsWritten) : node.IsNamed := by
  cases node with
  | literal id value unit => exact h.2
  | _ => exact h

theorem returnsAlone_sum (n : Nat) : ∀ node ∈ (sum n).postOrder, node.ReturnsAlone := by
  have hfield : ∀ id, ∀ node ∈ (field id "a").postOrder, node.ReturnsAlone := by
    intro id node hnode
    obtain rfl := List.mem_singleton.1 hnode
    trivial
  induction n with
  | zero => exact hfield 0
  | succ n ih =>
    refine forall_postOrder_iff.2 ⟨trivial, fun child hchild => ?_⟩
    rcases List.mem_pair.1 hchild with rfl | rfl
    · exact ih
    · exact hfield _

/-- A call with a quantity and a cast under an operator. -/
def mixed : Expr :=
  binary 9 .add (call 4 "f.g" [literal 7 (.int 2) (some "cm")])
    (unary 1 .not (cast 0 ⟨.int, true⟩ (field 3 "b")))

/-- A tree that comes back from its text with other numbers, and a sum of a hundred operands, which
    nests too deeply. -/
theorem ofText_text_numbered_mixed :
    Expr.ofText "(f.g(2 cm) + (Not (int?)b))" =
        .ok (.binary 5 .add (.call 1 "f.g" [.literal 0 (.int 2) (some "cm")])
          (.unary 4 .not (.cast 3 ⟨.int, true⟩ (.field 2 "b")))) ∧
      Expr.ofText (sum 99).text = .error (.parse .tooDeep) := by
  have hletters : IsIdentifier "f" ∧ IsIdentifier "g" ∧ IsIdentifier "b" ∧ IsIdentifier "cm" :=
    ⟨⟨isName_of_letters (by decide) (by decide), by decide⟩,
      ⟨isName_of_letters (by decide) (by decide), by decide⟩,
      ⟨isName_of_letters (by decide) (by decide), by decide⟩,
      ⟨isName_of_letters (by decide) (by decide), by decide⟩⟩
  obtain ⟨hf, hg, hb, hcm⟩ := hletters
  have hnamed : ∀ node ∈ mixed.postOrder, node.IsNamed := by
    intro node hnode
    -- The nodes one by one, in post-order.
    have hcases : node ∈ [literal 7 (.int 2) (some "cm"),
        call 4 "f.g" [literal 7 (.int 2) (some "cm")], field 3 "b",
        cast 0 ⟨.int, true⟩ (field 3 "b"), unary 1 .not (cast 0 ⟨.int, true⟩ (field 3 "b")),
        mixed] := hnode
    simp only [List.mem_cons, List.not_mem_nil, or_false] at hcases
    rcases hcases with rfl | rfl | rfl | rfl | rfl | rfl
    · intro symbol hsymbol
      obtain rfl := Option.mem_some.1 hsymbol
      exact ⟨hcm, rfl⟩
    · exact ⟨["f", "g"], by simp, by simpa using ⟨hf, hg⟩, rfl⟩
    · exact ⟨["b"], by simp, by simpa using hb, rfl⟩
    · exact fun _ => rfl
    · trivial
    · trivial
  have hreturns : ∀ node ∈ mixed.postOrder, node.ReturnsAlone := by
    intro node hnode
    cases node with
    | literal id value unit =>
      have hliteral : literal id value unit = literal 7 (.int 2) (some "cm") := by
        simpa [mixed, postOrder, postOrders] using hnode
      rw [hliteral]
      exact ⟨0, .int 2, some "cm", by cbv, rfl⟩
    | _ => trivial
  have hsum : ∀ node ∈ (sum 99).postOrder, node.IsNamed :=
    fun node hnode => ((legible_sum 99).1 node hnode).isNamed
  have hdeep : maxDepth < 1 + (sum 99).cost := by
    rw [cost_sum]
    decide
  exact ⟨((ofText_text_numbered hnamed hreturns).1 (by decide)).1,
    (ofText_text_numbered hsum (returnsAlone_sum 99)).2 hdeep⟩

end Expr

end UnitCheck
