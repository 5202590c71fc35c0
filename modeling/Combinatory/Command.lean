/-
The command line: one formula and perhaps the path of a configuration file.  The
result goes to the standard output and everything else is said on the console.
The status is 0 for a result, 1 for a text that is no formula, 2 for wrong
arguments or settings, and 3 for an abandoned reduction.
-/
import Combinatory.Evaluate
import Combinatory.Settings.Load

namespace Combinatory.Command

/-- What a run leaves behind: its status, its output, what it said on the
console, one message after the other, and what a step counter shows in the
end. -/
structure Report where
  status : Nat
  out : String := ""
  said : List String := []
  meter : Meter := .idle

/-- Failures that a run does not report but passes on. -/
inductive Escape where
  | load (error : LoadError)
  | recursionLimit (limit : Nat)

def usage : String := "usage: stax FORMULA [CONFIG]"

/-- The least number of applications that may be active at a time. -/
def leastDepth : Nat := 1000

/-- The greatest recursion limit that can be taken over. -/
def greatestDepth : Nat := 0x7FFFFFFF

def asLine (text : String) : String := text ++ "\n"

def badSettings (message : String) : String := s!"bad config: {message}"

def invalid (message : String) : String := s!"invalid formula: {message}"

def gaveUp (depth : Nat) : Fault → String
  | .stepLimit limit => stepLimitMessage limit
  | .tooDeep => s!"gave up: reduction nests deeper than {depth} calls"

/-- The status and the output of an evaluation, and what is said at its end. -/
def closing (depth : Nat) :
    Except EvalError Word → Nat × String × List String
  | .ok w => (0, asLine w.text, [])
  | .error (.input e) => (1, "", [invalid e.message])
  | .error (.run (.formula e)) => (1, "", [invalid e.message])
  | .error (.run (.fault e)) => (3, "", [gaveUp depth e])

/-- Evaluate a formula under settings. -/
def evaluateWith (s : Settings) (formula : String) : Except Escape Report :=
  let depth := max leastDepth s.recursionLimit
  if greatestDepth < depth then .error (.recursionLimit s.recursionLimit)
  else
    let e := evaluate (s.options depth) formula
    let (status, out, last) := closing depth e.outcome
    .ok { status, out, said := e.lines ++ last, meter := e.meter }

/-- Load the settings and evaluate a formula under them. -/
def runOn (host : Host) (formula : String) (named : Option String) :
    Except Escape Report :=
  match Settings.load host named with
  | .ok s => evaluateWith s formula
  | .error e =>
    if e.isVerdict then .ok { status := 2, said := [badSettings e.message] }
    else .error (.load e)

def run (host : Host) (arguments : List String) : Except Escape Report :=
  match arguments with
  | [formula] => runOn host formula none
  | [formula, path] => runOn host formula (some path)
  | _ => .ok { status := 2, said := [usage] }

end Combinatory.Command
