/-
Settings of the evaluator and the table they are taken from.  Entries are
checked in the order of the table, and the first one that does not fit is
reported.
-/
import Combinatory.Machine.Basic
import Combinatory.Toml.Datum

namespace Combinatory

open Toml (Datum)

structure Settings where
  mode : Mode := .direct
  limit : Option Nat := none
  trace : Bool := false
  progress : Bool := false
  recursionLimit : Nat := 20000
  deriving DecidableEq

/-- The names under which things are set. -/
inductive Setting where
  | mode
  | limit
  | trace
  | progress
  | recursionLimit
  deriving DecidableEq

namespace Setting

def all : List Setting := [.mode, .limit, .trace, .progress, .recursionLimit]

def name : Setting → String
  | .mode => "mode"
  | .limit => "limit"
  | .trace => "trace"
  | .progress => "progress"
  | .recursionLimit => "recursionlimit"

def ofName? (name : String) : Option Setting := all.find? fun s => s.name = name

def expected : Setting → String
  | .mode => Mode.expected
  | .limit => "a whole number, 0 for no limit"
  | .trace | .progress => "true or false"
  | .recursionLimit => "a whole number"

/-- Whether a value is a whole number; truth values are none. -/
def isCount : Datum → Bool
  | .int n => 0 ≤ n
  | _ => false

def isSwitch : Datum → Bool
  | .bool _ => true
  | _ => false

def isMode : Datum → Bool
  | .text name => (Mode.ofName? name).isSome
  | _ => false

def accepts : Setting → Datum → Bool
  | .mode => isMode
  | .limit | .recursionLimit => isCount
  | .trace | .progress => isSwitch

end Setting

/-- The first entry of a table that cannot be used: its key is no setting, or
its value does not fit the setting. -/
inductive TableError where
  | unknown (key : String)
  | unfit (setting : Setting) (value : Datum)

def TableError.message (path : String) : TableError → String
  | .unknown key => s!"unknown setting {Text.quoted key} in {path}"
  | .unfit setting value =>
    s!"setting {Text.quoted setting.name} in {path} should be " ++
      s!"{setting.expected}, not {value.display}"

/-- What comes in the way of wording a complaint, which shows the value. -/
def TableError.hindrance? (room : Nat) : TableError → Option Toml.Hindrance
  | .unknown _ => none
  | .unfit _ value => value.hindrance? room

namespace Settings

/-- Take over a value that fits a setting.  A limit of zero means no limit. -/
def assign (s : Settings) : Setting → Datum → Settings
  | .mode, .text name => { s with mode := (Mode.ofName? name).getD s.mode }
  | .limit, .int n => { s with limit := if n = 0 then none else some n.toNat }
  | .trace, .bool b => { s with trace := b }
  | .progress, .bool b => { s with progress := b }
  | .recursionLimit, .int n => { s with recursionLimit := n.toNat }
  | _, _ => s

def put (s : Settings) (entry : String × Datum) : Except TableError Settings :=
  match Setting.ofName? entry.1 with
  | none => .error (.unknown entry.1)
  | some setting =>
    if setting.accepts entry.2 then .ok (s.assign setting entry.2)
    else .error (.unfit setting entry.2)

/-- The settings of a table; what the table leaves out has its standard
value. -/
def ofTable (entries : List (String × Datum)) : Except TableError Settings :=
  entries.foldlM put {}

/-- How the machine runs under these settings, with room for `depth` active
applications. -/
def options (s : Settings) (depth : Nat) : Options where
  mode := s.mode
  limit := s.limit.map Int.ofNat
  trace := s.trace
  depth := depth

end Settings

end Combinatory
