import UnitCheck.CommandLine.Arguments
import UnitCheck.Factor.Reader
import UnitCheck.Number.Float

/-!
  The commands and their arguments.
-/

namespace UnitCheck.CommandLine

/-- What to do. -/
inductive Command where
  /-- Show the units of an expression's nodes. -/
  | resolve (expression : String) (fields : List (String × Factor)) (strictUnits json : Bool)
  /-- Convert a value from one factor of units to another. -/
  | convert (value : Float) (source target : String)
  /-- Tell whether two factors of units measure the same. -/
  | equivalent (first second : String)
  /-- Show a quantity in default units of fundamental dimensions. -/
  | normalize (quantity : String)
  /-- Show what a factor of units measures. -/
  | dimension (unit : String)
  /-- Show the registry. -/
  | registry
  /-- Show which commands there are. -/
  | help

/-- What to do, and with which registry. -/
structure Request where
  /-- The file that describes the registry, if it is not the built-in one. -/
  registryFile : Option String
  command : Command

/-! ## Names -/

/-- The names of the commands that do something with a registry. -/
inductive CommandName where
  | resolve | convert | equivalent | normalize | dimension | registry
  deriving DecidableEq

namespace CommandName

/-- All names. -/
def all : List CommandName := [resolve, convert, equivalent, normalize, dimension, registry]

/-- The word that names a command. -/
def word : CommandName → String
  | resolve => "resolve"
  | convert => "convert"
  | equivalent => "equivalent"
  | normalize => "normalize"
  | dimension => "dimension"
  | registry => "registry"

/-- The command that a word names. -/
def ofWord? (word : String) : Option CommandName := all.find? fun name => name.word = word

theorem ofWord?_word (name : CommandName) : ofWord? name.word = some name := by
  cases name <;> decide

end CommandName

/-- The word that asks for help, in place of a command. -/
def helpWord : String := "help"

/-- Whether a word may stand for a command. -/
def isCommandWord (word : String) : Bool :=
  word = helpWord || (CommandName.ofWord? word).isSome

/-! ## Grammar -/

/-- The unit of a field, given as `name=unit`. Blanks around both are dropped. -/
def readBinding (text : String) : Option (String × Factor) := do
  let (name, unit) := splitAssignment text.toList
  let unit ← (Factor.ofChars (Text.trimBlanks (← unit))).toOption
  return (String.ofList (Text.trimBlanks name), unit)

/-- Options that every command knows. -/
def globalOptions : List OptionSpec :=
  [⟨"registry", some 'r', .value fun path => path != "", false⟩,
    ⟨"verbose", some 'v', .flag, true⟩, ⟨"help", some 'h', .last, false⟩]

/-- Options that only `resolve` knows. -/
def resolveOptions : List OptionSpec :=
  [⟨"field", some 'f', .value fun text => (readBinding text).isSome, true⟩,
    ⟨"strict-units", none, .flag, false⟩, ⟨"json", none, .flag, false⟩]

/-- The arguments before the command. -/
def programGrammar : Grammar := ⟨globalOptions, [isCommandWord], true, false⟩

/-- The arguments of a command. -/
def CommandName.grammar (name : CommandName) : Grammar :=
  let any : String → Bool := fun _ => true
  match name with
  | resolve => ⟨globalOptions ++ resolveOptions, [any], false, false⟩
  | convert =>
    ⟨globalOptions, [fun value => (Number.readFloat value.toList).isSome, any, any], false, true⟩
  | equivalent => ⟨globalOptions, [any, any], false, false⟩
  | normalize | dimension => ⟨globalOptions, [any], false, false⟩
  | registry => ⟨globalOptions, [], false, false⟩

/-! ## Reading -/

/-- The command of a name with its items. -/
def readCommand (name : CommandName) (items : List Item) : Option Command :=
  match name, Item.words items with
  | .resolve, [expression] => do
    let fields ← (Item.values items "field").mapM readBinding
    return .resolve expression fields (Item.count items "strict-units" != 0)
      (Item.count items "json" != 0)
  | .convert, [value, source, target] => do
    let value ← Number.readFloat value.toList
    return .convert value source target
  | .equivalent, [first, second] => some (.equivalent first second)
  | .normalize, [quantity] => some (.normalize quantity)
  | .dimension, [unit] => some (.dimension unit)
  | .registry, [] => some .registry
  | _, _ => none

/-- Whether help is asked for. -/
def asksHelp (items : List Item) : Bool := Item.count items "help" != 0

/-- The request that the arguments make, if they make one. An option after the command goes
    before the same option in front of it. Help is given where it is asked for, if what stands
    before is sound; the word for it may be followed by a command to be told about. -/
def Request.ofArguments (arguments : List String) : Option Request := do
  let help : Request := ⟨none, .help⟩
  let (before, rest) ← programGrammar.items arguments
  if asksHelp before then return help
  if Item.words before = [helpWord] then
    if admitsWords [isCommandWord] rest then return help else none
  else
    let name ← (Item.words before).head?.bind CommandName.ofWord?
    let (after, _) ← name.grammar.items rest
    if asksHelp after then return help
    let command ← readCommand name after
    let files := Item.values before "registry" ++ Item.values after "registry"
    return ⟨files.getLast?, command⟩

end UnitCheck.CommandLine
