import UnitCheck.CommandLine.Command
import UnitCheck.Quantity
import UnitCheck.Registry.International
import UnitCheck.Resolution

/-!
  Carrying out a command.

  A run is a function of the arguments and of the files it may read, and gives the exit status
  with what is written to the two output streams.
-/

namespace UnitCheck.CommandLine

/-- The outcome of a run. -/
structure Result where
  status : UInt8
  output : String
  errors : String
  deriving DecidableEq

/-- Why a file cannot be read. -/
inductive FileError where
  | missing
  | denied
  | notADirectory
  | isDirectory
  | nameTooLong
  | other (reason : String)
  deriving DecidableEq

/-- The reason in words. -/
def FileError.message : FileError → String
  | missing => "No such file or directory (os error 2)"
  | denied => "Permission denied (os error 13)"
  | notADirectory => "Not a directory (os error 20)"
  | isDirectory => "Is a directory (os error 21)"
  | nameTooLong => "File name too long (os error 36)"
  | other reason => reason

/-- The files a run may read, by their paths. -/
abbrev Files := String → Except FileError String

/-- A failure with what was tried, if that is told. -/
structure Failure where
  context : Option String
  message : String
  deriving DecidableEq

namespace Failure

/-- A failure of units. -/
def ofUnits (e : UnitError) : Failure := ⟨none, e.message⟩

/-- A failure of an expression. -/
def ofFilter (e : FilterError) : Failure := ⟨none, e.message⟩

/-- A failure of units, with what was tried. -/
def trying (context : String) (e : UnitError) : Failure := ⟨some context, e.message⟩

/-- The failure as it is shown. The lines of a cause are indented. -/
def text (failure : Failure) : String :=
  match failure.context with
  | none => "Error: " ++ failure.message ++ "\n"
  | some context =>
    let indented := failure.message.toList.flatMap fun c =>
      if c = '\n' then '\n' :: List.replicate 4 ' ' else [c]
    "Error: " ++ context ++ "\n\nCaused by:\n    " ++ String.ofList indented ++ "\n"

end Failure

/-! ## Parts of the output -/

/-- A text with blanks up to a width. -/
def padded (width : Nat) (text : String) : String :=
  text ++ String.ofList (List.replicate (width - text.length) ' ')

/-- Lines, each with its end. -/
def lines (texts : List String) : String := String.join (texts.map fun text => text ++ "\n")

/-- A factor that was given as an argument. -/
def factorArgument (text : String) : Except Failure Factor :=
  (Factor.ofText text).mapError (.trying ("Invalid units factor '" ++ text ++ "'"))

/-- The nodes of an expression with their units. -/
def rows (expression : Expr) (units : UnitMap) : List (Nat × String × String) :=
  expression.postOrder.map fun node =>
    (node.id, node.label, ((units[node.id]?).map Factor.text).getD "")

/-- A row as a line. -/
def rowText : Nat × String × String → String
  | (id, node, unit) => "#" ++ padded 4 (toString id) ++ " " ++ padded 24 node ++ " " ++ unit

/-- A row as JSON. -/
def rowJson : Nat × String × String → Json.Value
  | (id, node, unit) => .record [("id", .ofNat id), ("node", .text node), ("unit", .text unit)]

/-! ## Commands -/

/-- The units of an expression's nodes. -/
def resolve (registry : Registry Float) (expression : String) (fields : List (String × Factor))
    (strictUnits json : Bool) : Except Failure String := do
  let allowed := if strictUnits then registry.hasUnit else fun _ => true
  let expr ← (Expr.ofTextWith allowed expression).mapError .ofFilter
  let bindings := fields.foldl (fun (bound : Bindings) (name, unit) => bound.setField name unit)
    (Bindings.empty true)
  let units ← (bindings.context.resolve expr).mapError .ofFilter
  let rows := rows expr units
  if json then return lines [(Json.Value.array (rows.map rowJson)).pretty]
  else return lines (rows.map rowText)

/-- A value in other units, and the conversion. -/
def convert (registry : Registry Float) (value : Float) (source target : String) :
    Except Failure String := do
  let source ← factorArgument source
  let target ← factorArgument target
  let converted ← (registry.convert value source target).mapError .ofUnits
  let conversion ← (registry.conversion source target).mapError .ofUnits
  return lines
    [(Quantity.valueText value) ++ " " ++ source.text ++ " = " ++ (Quantity.valueText converted) ++
      " " ++ target.text, "parameters: " ++ conversion.text]

/-- What two factors of units measure, and whether that is the same. -/
def equivalent (registry : Registry Float) (first second : String) :
    Except Failure (String × Bool) := do
  let first ← factorArgument first
  let second ← factorArgument second
  let same ← (registry.sameDimensions first second).mapError .ofUnits
  let firstDimensions ← (registry.dimensionsOfUnits first).mapError .ofUnits
  let secondDimensions ← (registry.dimensionsOfUnits second).mapError .ofUnits
  return (lines
    [padded 16 first.text ++ " " ++ firstDimensions.text,
      padded 16 second.text ++ " " ++ secondDimensions.text, toString same], same)

/-- A quantity in default units of fundamental dimensions. -/
def normalize (registry : Registry Float) (quantity : String) : Except Failure String := do
  let quantity ←
    (Quantity.ofText quantity).mapError (.trying ("Invalid quantity '" ++ quantity ++ "'"))
  let normal ← (quantity.normalize registry).mapError .ofUnits
  return lines [normal.text]

/-- What a factor of units measures, and its default units. -/
def dimension (registry : Registry Float) (unit : String) : Except Failure String := do
  let unit ← factorArgument unit
  let dimensions ← (registry.dimensionsOfUnits unit).mapError .ofUnits
  let base ← (registry.baseUnits unit).mapError .ofUnits
  return lines [dimensions.text, "fundamental units: " ++ base.text]

/-- The line shown for help, and for arguments that make no request. -/
def usage : String :=
  "Usage: unitcheck [-h] [-r FILE] [-v] " ++
    "resolve|convert|equivalent|normalize|dimension|registry ...\n"

/-- The output of a command, and whether its answer is a plain no. -/
def answer (configuration : Configuration Float) (registry : Registry Float) :
    Command → Except Failure (String × Bool)
  | .resolve expression fields strictUnits json => do
    return (← resolve registry expression fields strictUnits json, false)
  | .convert value source target => do return (← convert registry value source target, false)
  | .equivalent first second => do
    let (output, same) ← equivalent registry first second
    return (output, !same)
  | .normalize quantity => do return (← normalize registry quantity, false)
  | .dimension unit => do return (← dimension registry unit, false)
  | .registry => return (lines [configuration.text], false)
  | .help => return (usage, false)

/-! ## Runs -/

/-- The description of the registry of a request. -/
def configurationOf (files : Files) :
    Option String → Except Failure (Configuration Float)
  | none => .ok .international
  | some path => do
    let text ← (files path).mapError fun e =>
      ⟨some ("Failed to read registry " ++ path), e.message⟩
    (Configuration.ofText text).mapError (.trying ("Failed to parse registry " ++ path))

/-- The output of a request, and whether its answer is a plain no. -/
def respond (files : Files) (request : Request) :
    Except Failure (String × Bool) := do
  let configuration ← configurationOf files request.registryFile
  let registry ←
    (Registry.ofConfiguration configuration).mapError (.trying "Failed to build registry")
  answer configuration registry request.command

/-- Runs the program. `files` tells what the files hold. -/
def run (files : Files) (arguments : List String) : Result :=
  match Request.ofArguments arguments with
  | none => ⟨2, "", usage⟩
  | some request =>
    match respond files request with
    | .ok (output, refused) => ⟨if refused then 1 else 0, output, ""⟩
    | .error failure => ⟨1, "", failure.text⟩

end UnitCheck.CommandLine
