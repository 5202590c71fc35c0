/-
The program: the command line on the arguments, the environment and the files it
is started with.  Files are decoded by TOML 1.0, and what is said goes to the
error output in the form that the console gives it.
-/
import Combinatory.Command
import Combinatory.Console
import Combinatory.Toml.Document

namespace Combinatory.Command

/-- The system's code for an operation that is not done on directories. -/
def directoryCode : UInt32 := 21

/-- Look at a path of the file system.  A path that leads through a file leads
nowhere. -/
def lookAt (path : String) : IO Found := do
  try
    return .file (← IO.FS.readBinFile path)
  catch
    | .inappropriateType _ code _ =>
      return if code = directoryCode then .directory else .nothing
    | .noFileOrDirectory .. => return .nothing
    | .permissionDenied .. => return .closed
    | e => throw e

/-- What is said of a failure that the command line passes on. -/
def Escape.message : Escape → String
  | .load e => e.message
  | .recursionLimit limit => s!"recursion limit {limit} is too large"

end Combinatory.Command

/-- Run the command line on the arguments, the environment and the file
system. -/
def main (arguments : List String) : IO UInt32 := do
  let chosen ← IO.getEnv "STAX_CONFIG"
  let path := Combinatory.Settings.path arguments[1]? chosen
  let found ← Combinatory.Command.lookAt path
  let host : Combinatory.Host :=
    { chosen, look := fun _ => found, decode := Combinatory.Toml.decode }
  match Combinatory.Command.run host arguments with
  | .ok report =>
    IO.print report.out
    IO.eprint (String.join (report.said.map Combinatory.Console.line))
    return report.status.toUInt32
  | .error e =>
    IO.eprintln e.message
    return 1
