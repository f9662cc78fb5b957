import UnitCheck.CommandLine.Run

/-!
  The command line program. All it decides is in `CommandLine.run`; here files are read and
  texts are written.
-/

namespace UnitCheck.CommandLine

/-- The number of a system error, which may be given with its sign changed. -/
def errorNumber (code : UInt32) : UInt32 := min code (-code)

/-- Why reading a file failed. -/
def FileError.ofError (e : IO.Error) : FileError :=
  match e with
  | .noFileOrDirectory .. => .missing
  | .permissionDenied .. => .denied
  | .inappropriateType _ code _ => if errorNumber code = 21 then .isDirectory else .notADirectory
  | .invalidArgument _ code _ =>
    if errorNumber code = 36 then .nameTooLong else .other (toString e)
  | e => .other (toString e)

/-- The file that a request names. -/
def readRequested (arguments : List String) : IO Files := do
  match (Request.ofArguments arguments).bind Request.registryFile with
  | none => return fun _ => .error .missing
  | some path =>
    try
      let content ← IO.FS.readFile path
      return fun _ => .ok content
    catch e => return fun _ => .error (.ofError e)

end UnitCheck.CommandLine

/-- Runs the program on its arguments. -/
def main (arguments : List String) : IO UInt32 := do
  let files ← UnitCheck.CommandLine.readRequested arguments
  let result := UnitCheck.CommandLine.run files arguments
  IO.print result.output
  IO.eprint result.errors
  return result.status.toUInt32
