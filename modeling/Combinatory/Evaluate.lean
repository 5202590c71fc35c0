/-
Evaluation of a text: read it as a formula, run a fresh machine on it, and keep
the machine for what it counted and logged.
-/
import Combinatory.Machine.Run
import Combinatory.Word.Balance

namespace Combinatory

/-- A mode asked for by a name that no mode has, or by no name. -/
structure UnknownMode where
  name : Option String
  deriving DecidableEq

def UnknownMode.message (e : UnknownMode) : String :=
  let shown := match e.name with
    | some name => Text.quoted name
    | none => "None"
  s!"mode should be {Mode.expected}, not {shown}"

/-- The mode of a given name, or a complaint about the name. -/
def Mode.ofName (name : Option String) : Except UnknownMode Mode :=
  match name.bind Mode.ofName? with
  | some m => .ok m
  | none => .error ⟨name⟩

/-- Why an evaluation gives no result. -/
inductive EvalError where
  | input (error : InputError)
  | run (error : RunError)
  deriving DecidableEq

/-- What a step counter shows in the end: that no machine was started, the steps
taken, or nothing that can be relied on. -/
inductive Meter where
  | idle
  | counted (steps : Nat)
  | lost
  deriving DecidableEq

/-- The outcome of an evaluation and the machine as it was left, if one was
started. -/
structure Evaluation where
  outcome : Except EvalError Word
  machine : Option Machine

namespace Evaluation

def ofWord (o : Options) (w : Word) : Evaluation :=
  match (Machine.ofWord w).eval o with
  | .ok result m => ⟨.ok result, some m⟩
  | .error e m => ⟨.error (.run e), some m⟩

def lines (e : Evaluation) : List String :=
  match e.machine with
  | some m => m.lines
  | none => []

/-- What a step counter shows after an evaluation. -/
def meter (e : Evaluation) : Meter :=
  match e.machine, e.outcome with
  | none, _ => .idle
  | some _, .error (.run (.fault .tooDeep)) => .lost
  | some m, _ => .counted m.steps

end Evaluation

/-- Evaluate a text. -/
def evaluate (o : Options) (text : String) : Evaluation :=
  match Word.ofFormula text with
  | .error e => ⟨.error (.input e), none⟩
  | .ok w => Evaluation.ofWord o w

/-- Evaluate a text in a mode given by name.  The text is looked at before the
mode, so an unknown mode is only reported for a text that is a formula. -/
def evaluateNamed (mode : Option String) (o : Options) (text : String) :
    Except UnknownMode Evaluation :=
  match Mode.ofName mode with
  | .ok m => .ok (evaluate { o with mode := m } text)
  | .error e =>
    match Word.ofFormula text with
    | .error input => .ok ⟨.error (.input input), none⟩
    | .ok _ => .error e

end Combinatory
