/-
Finding and reading the settings.  A file that is named has to exist; the one
chosen by the environment or found in the working directory may be absent, and
the standard settings hold then.  What lies around the program, the decoder of
files included, is an argument.
-/
import Combinatory.Settings.Basic

namespace Combinatory

open Toml (Datum DecodeError Decoder Hindrance)

/-- What stands at a path.  What is closed is there but cannot be opened. -/
inductive Found where
  | nothing
  | directory
  | closed
  | file (content : ByteArray)

/-- What lies around the program: the path that the environment chooses, what
stands at each path, the decoder of files, and how many values can be shown one
within another. -/
structure Host where
  chosen : Option String := none
  look : String → Found
  decode : Decoder
  room : Nat := 1000

/-- Why no settings could be loaded. -/
inductive LoadError where
  | noFile (path : String)
  | directory (path : String)
  | closed (path : String)
  | undecoded (error : DecodeError)
  | notTable (value : Datum)
  | table (path : String) (error : TableError)
  | unshowable (hindrance : Hindrance)

namespace LoadError

/-- Whether the failure is a verdict on the settings.  Any other failure comes
in the way of a verdict. -/
def isVerdict : LoadError → Bool
  | .noFile _ | .undecoded (.badEncoding _) | .undecoded (.badSyntax _)
  | .table _ _ | .unshowable .longNumber => true
  | .directory _ | .closed _ | .undecoded (.failed _) | .notTable _
  | .unshowable .deepNesting => false

/-- The failure that an entry which cannot be used leads to: the complaint about
it, or what comes in the way of its wording. -/
def ofTable (room : Nat) (path : String) (error : TableError) : LoadError :=
  match error.hindrance? room with
  | none => .table path error
  | some hindrance => .unshowable hindrance

def message : LoadError → String
  | .noFile path => s!"no config file at {path}"
  | .directory path => s!"[Errno 21] Is a directory: {Text.quoted path}"
  | .closed path => s!"[Errno 13] Permission denied: {Text.quoted path}"
  | .undecoded error => error.message
  | .notTable value => s!"'{value.kind}' object has no attribute 'items'"
  | .table path error => error.message path
  | .unshowable hindrance => hindrance.message

end LoadError

namespace Settings

def standardPath : String := "stax.toml"

def tableName : String := "stax"

/-- The path that is looked at: the one named, else the one the environment
chooses, else the standard one.  An empty choice is none. -/
def path (named chosen : Option String) : String :=
  match named with
  | some path => path
  | none => (chosen.filter fun path => !path.isEmpty).getD standardPath

def ofContent (host : Host) (path : String) (content : ByteArray) :
    Except LoadError Settings :=
  match host.decode content with
  | .error e => .error (.undecoded e)
  | .ok entries =>
    match entries.lookup tableName with
    | none => .ok {}
    | some (.table table) => (ofTable table).mapError (.ofTable host.room path)
    | some value => .error (.notTable value)

/-- Load the settings from the file that is named, or from the one that is
chosen or standard. -/
def load (host : Host) (named : Option String) : Except LoadError Settings :=
  let path := Settings.path named host.chosen
  match host.look path with
  | .nothing => if named.isSome then .error (.noFile path) else .ok {}
  | .directory => .error (.directory path)
  | .closed => .error (.closed path)
  | .file content => ofContent host path content

end Settings

end Combinatory
