import UnitCheck.FilterError
import UnitCheck.Token.Lexer

/-!
  A parser and the actions it takes.

  A parser holds the tokens it has not read, the builder of its nodes and the number of nested
  parts it is inside of. All of this outlasts a failure, so the parser can be asked again.

  An action reads some tokens and gives a value or fails; by construction it never puts a token
  back (`Action.suffix`), which is why loops over tokens end.
-/

namespace UnitCheck

/-- The state of parsing. -/
structure Parser where
  /-- The tokens that are not read. -/
  tokens : List Token
  /-- Where the text ends. -/
  finish : Place
  /-- How many parts are open. -/
  depth : Nat
  builder : ExprBuilder

namespace Parser

/-- A parser at the start of a text. -/
def ofText (text : String) : Parser :=
  let (tokens, finish) := (Cursor.start text.toList).scan
  ⟨tokens, finish, 0, .new⟩

/-- The token to be read next. -/
def current (parser : Parser) : Token :=
  match parser.tokens with
  | [] => .endOfText parser.finish
  | token :: _ => token

/-- How many more parts may be opened. -/
def room (parser : Parser) : Nat := maxDepth - parser.depth

end Parser

/-- The outcome of an action, with the parser after it. -/
abbrev Outcome (α : Type) := Except FilterError α × Parser

/-- A step of parsing. -/
structure Action (α : Type) where
  run : Parser → Outcome α
  suffix : ∀ parser, (run parser).2.tokens <:+ parser.tokens

namespace Action

variable {α β : Type}

/-- An action that leaves the tokens alone. -/
def still (run : Parser → Outcome α) (h : ∀ parser, (run parser).2.tokens = parser.tokens) :
    Action α :=
  ⟨run, fun parser => (h parser) ▸ List.suffix_refl _⟩

/-- One action, then another that depends on its value. A failure ends both. -/
def bind (x : Action α) (f : α → Action β) : Action β where
  run parser :=
    match x.run parser with
    | (.error e, parser) => (.error e, parser)
    | (.ok a, parser) => (f a).run parser
  suffix parser := by
    have hx := x.suffix parser
    split
    · next h => rwa [h] at hx
    · next a q h =>
      rw [h] at hx
      exact ((f a).suffix q).trans hx

instance : Monad Action where
  pure a := still (fun parser => (.ok a, parser)) fun _ => rfl
  bind := bind

@[simp] theorem run_pure (a : α) (parser : Parser) :
    (pure a : Action α).run parser = (.ok a, parser) := rfl

theorem run_bind (x : Action α) (f : α → Action β) (parser : Parser) :
    (x >>= f).run parser =
      match x.run parser with
      | (.error e, parser) => (.error e, parser)
      | (.ok a, parser) => (f a).run parser := rfl

/-- Fails. -/
def fail (error : FilterError) : Action α :=
  still (fun parser => (.error error, parser)) fun _ => rfl

/-- The token to be read next. -/
def current : Action Token := still (fun parser => (.ok parser.current, parser)) fun _ => rfl

/-- Whether the token to be read next is of a kind. -/
def isNext (kind : Token.Kind) : Action Bool :=
  still (fun parser => (.ok (parser.current.kind = kind), parser)) fun _ => rfl

/-- Reads a token. The end of the text is not passed. -/
def advance : Action Unit where
  run parser := (.ok (), { parser with tokens := parser.tokens.tail })
  suffix parser := List.tail_suffix parser.tokens

/-- Fails because the token to be read next is not what is expected. -/
def unexpected (expected : Expected) : Action α :=
  still (fun parser => (.error (.parse (.unexpected expected parser.current)), parser)) fun _ => rfl

/-- Reads a token of a kind. -/
def expect (kind : Token.Kind) : Action Token := do
  let token ← current
  if token.kind = kind then
    advance
    return token
  else unexpected (.kind kind)

/-- A node with the next id. -/
def node (make : Nat → Expr) : Action Expr :=
  still
    (fun parser =>
      let (expr, builder) := parser.builder.node make
      (.ok expr, { parser with builder }))
    fun _ => rfl

/-! ## Nesting -/

/-- Counts a part as open. -/
def openPart : Action Unit :=
  still (fun parser => (.ok (), { parser with depth := parser.depth + 1 })) fun _ => rfl

/-- Counts a part as closed. -/
def closePart : Action Unit :=
  still (fun parser => (.ok (), { parser with depth := parser.depth - 1 })) fun _ => rfl

/-- A part that there is no room for. It stays open. -/
def refusePart : Action α := do
  openPart
  fail (.parse .tooDeep)

/-- An action inside a part of its own. A failure leaves the part open. -/
def inPart (action : Action α) : Action α := do
  openPart
  let a ← action
  closePart
  return a

/-! ## Loops over tokens -/

/-- An item, and more of them as long as a separator follows. -/
def separatedRun (item : Action α) (separator : Token.Kind) (parser : Parser) :
    { outcome : Outcome (List α) // outcome.2.tokens <:+ parser.tokens } :=
  match hitem : item.run parser with
  | (.error e, after) => ⟨(.error e, after), by have := item.suffix parser; rwa [hitem] at this⟩
  | (.ok a, after) =>
    have hafter : after.tokens <:+ parser.tokens := by
      have := item.suffix parser
      rwa [hitem] at this
    match htokens : after.tokens with
    | [] => ⟨(.ok [a], after), by rw [htokens]; exact List.nil_suffix⟩
    | token :: rest =>
      if token.kind = separator then
        have hrest : rest <:+ parser.tokens :=
          (List.suffix_cons token rest).trans (htokens ▸ hafter)
        match separatedRun item separator { after with tokens := rest } with
        | ⟨(.error e, parser), h⟩ => ⟨(.error e, parser), h.trans hrest⟩
        | ⟨(.ok as, parser), h⟩ => ⟨(.ok (a :: as), parser), h.trans hrest⟩
      else ⟨(.ok [a], after), hafter⟩
termination_by parser.tokens.length
decreasing_by
  have := hafter.length_le
  rw [htokens, List.length_cons] at this
  omega

/-- An item, and more of them as long as a separator follows. -/
def separated (item : Action α) (separator : Token.Kind) : Action (List α) :=
  ⟨fun parser => (separatedRun item separator parser).1,
    fun parser => (separatedRun item separator parser).2⟩

end Action

end UnitCheck
