/-
  Options and words among command line arguments.

  An option has a long name after two dashes and maybe a letter after one dash. Letters may
  share a dash; an option with a value takes what is left of the argument, or the next
  argument. After two dashes alone every argument is a word.

  An argument that looks like an option is one. Where the first word of a command may be a
  negative number, this holds only of known names and letters: up to that word, all other
  arguments are plain text, which is a word or the value that an option waits for.

  An option may end the arguments. What stands before it still has to be sound: a grammar tests
  every value and every word that was read, and asks for no more.
-/

namespace UnitCheck.CommandLine

/-- An argument with its meaning. -/
inductive Item where
  /-- An option, with its value if it takes one. -/
  | option (name : String) (value : Option String)
  | word (text : String)
  deriving DecidableEq

namespace Item

/-- The words among items. -/
def words (items : List Item) : List String :=
  items.filterMap fun
    | word text => some text
    | option _ _ => none

/-- How often an option is given. -/
def count (items : List Item) (name : String) : Nat :=
  items.countP fun
    | option n _ => n = name
    | word _ => false

/-- The values of an option. -/
def values (items : List Item) (name : String) : List String :=
  items.filterMap fun
    | option n value => if n = name then value else none
    | word _ => none

end Item

/-- What an option does with what follows it. -/
inductive OptionUse where
  /-- Nothing. -/
  | flag
  /-- It takes a value that passes a test. -/
  | value (test : String → Bool)
  /-- It ends the arguments. -/
  | last

/-- An option that a command knows. -/
structure OptionSpec where
  name : String
  letter : Option Char
  use : OptionUse
  /-- Whether it may be given more than once. -/
  repeatable : Bool

/-- Whether an option is not given too often, and only with values that pass its test. -/
def OptionSpec.admits (spec : OptionSpec) (items : List Item) : Bool :=
  (spec.repeatable || Item.count items spec.name ≤ 1) &&
    match spec.use with
    | .value test => (Item.values items spec.name).all test
    | .flag | .last => true

/-- The arguments a command takes. -/
structure Grammar where
  options : List OptionSpec
  /-- A test for each word. -/
  words : List (String → Bool)
  /-- Whether the arguments end at the first word. -/
  endsAtWord : Bool
  /-- Whether the first word may start with a dash. -/
  hyphenWord : Bool

/-- Whether words pass their tests, and none is left over. There may be fewer words than tests. -/
def admitsWords : List (String → Bool) → List String → Bool
  | _, [] => true
  | [], _ :: _ => false
  | test :: tests, word :: words => test word && admitsWords tests words

/-- How reading goes on after an argument with options. -/
inductive Continuation where
  /-- With the next argument. -/
  | next
  /-- With the next argument as the value of an option. -/
  | valueOf (name : String)
  /-- Not at all. -/
  | stop
  deriving DecidableEq

/-- Whether an argument looks like an option. A dash alone does not. -/
def looksLikeOption (argument : String) : Bool :=
  match argument.toList with
  | '-' :: _ :: _ => true
  | _ => false

/-- The text before the first equals sign, and the text after it if there is such a sign. -/
def splitAssignment (cs : List Char) : List Char × Option (List Char) :=
  match cs.dropWhile (· != '=') with
  | [] => (cs, none)
  | _ :: value => (cs.takeWhile (· != '='), some value)

namespace Grammar

/-- The option with a long name. -/
def named? (grammar : Grammar) (name : List Char) : Option OptionSpec :=
  grammar.options.find? fun spec => spec.name.toList = name

/-- The option with a letter. -/
def lettered? (grammar : Grammar) (c : Char) : Option OptionSpec :=
  grammar.options.find? fun spec => spec.letter = some c

/-- Whether an argument that looks like an option has a long name that is known, or only letters
    that are known, or is two dashes alone. -/
def knows (grammar : Grammar) (argument : String) : Bool :=
  match argument.toList with
  | ['-', '-'] => true
  | '-' :: '-' :: body => (grammar.named? (splitAssignment body).1).isSome
  | '-' :: letters => letters.all fun c => (grammar.lettered? c).isSome
  | _ => false

/-- Whether an argument is plain text and no option. The flag tells whether a word was seen. -/
def isText (grammar : Grammar) (seenWord : Bool) (argument : String) : Bool :=
  !looksLikeOption argument || grammar.hyphenWord && !seenWord && !grammar.knows argument

/-- The options of an argument of letters. -/
def readLetters (grammar : Grammar) : List Char → Option (List Item × Continuation)
  | [] => some ([], .next)
  | c :: cs => do
    let spec ← grammar.lettered? c
    match spec.use, cs with
    | .last, _ => return ([.option spec.name none], .stop)
    | .value _, [] => return ([], .valueOf spec.name)
    | .value _, '=' :: value => return ([.option spec.name (some (String.ofList value))], .next)
    | .value _, value => return ([.option spec.name (some (String.ofList value))], .next)
    | .flag, _ =>
      let (items, continuation) ← grammar.readLetters cs
      return (.option spec.name none :: items, continuation)

/-- The option of a long name, which may have its value after an equals sign. -/
def readLong (grammar : Grammar) (body : List Char) : Option (List Item × Continuation) := do
  let (name, attached) := splitAssignment body
  let spec ← grammar.named? name
  match spec.use, attached with
  | .value _, some value => return ([.option spec.name (some (String.ofList value))], .next)
  | .value _, none => return ([], .valueOf spec.name)
  | .flag, none => return ([.option spec.name none], .next)
  | .last, none => return ([.option spec.name none], .stop)
  | _, some _ => none

/-- The options of an argument. -/
def readOptions (grammar : Grammar) (argument : String) : Option (List Item × Continuation) :=
  match argument.toList with
  | '-' :: '-' :: body => grammar.readLong body
  | '-' :: letters => grammar.readLetters letters
  | _ => none

/-- The items of the arguments, and the arguments after the first word where they end there. The
    flag tells whether a word was seen. -/
def read (grammar : Grammar) (seenWord : Bool) : List String → Option (List Item × List String)
  | [] => some ([], [])
  | argument :: rest =>
    if grammar.isText seenWord argument then
      if grammar.endsAtWord then some ([.word argument], rest)
      else (grammar.read true rest).map fun (items, left) => (.word argument :: items, left)
    else if argument = "--" then
      -- There is no command among what follows two dashes.
      if grammar.endsAtWord then none else some (rest.map .word, [])
    else
      match grammar.readOptions argument, rest with
      | none, _ => none
      | some (first, .stop), _ => some (first, [])
      | some (first, .next), rest =>
        (grammar.read seenWord rest).map fun (items, left) => (first ++ items, left)
      | some (first, .valueOf name), value :: rest =>
        if grammar.isText seenWord value then
          (grammar.read seenWord rest).map fun (items, left) =>
            (first ++ .option name (some value) :: items, left)
        else none
      | some (_, .valueOf _), [] => none

/-- Whether items are sound, as far as they go. -/
def admits (grammar : Grammar) (items : List Item) : Bool :=
  admitsWords grammar.words (Item.words items) && grammar.options.all (·.admits items)

/-- The items of the arguments, if they are sound, with what is left. -/
def items (grammar : Grammar) (arguments : List String) : Option (List Item × List String) := do
  let (items, rest) ← grammar.read false arguments
  if grammar.admits items then return (items, rest) else none

end Grammar

end UnitCheck.CommandLine
