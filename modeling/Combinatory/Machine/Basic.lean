/-
The stack machine.  It reads a word from its last token backwards: an atom is
pushed as a value, an application mark applies the top of the stack to the value
under it.  In direct mode the result is pushed; in requeue mode the result of a
rule that fired is written back at the end of the program and read again like
any other part of the input.
-/
import Combinatory.Value.Apply
import Combinatory.Value.Lower

namespace Combinatory

/-- Where the result of a rule that fired goes. -/
inductive Mode where
  | direct
  | requeue
  deriving DecidableEq

namespace Mode

def all : List Mode := [.direct, .requeue]

def name : Mode → String
  | .direct => "direct"
  | .requeue => "requeue"

def ofName? (name : String) : Option Mode := all.find? fun m => m.name = name

/-- What messages say a mode has to be. -/
def expected : String := "one of ('direct', 'requeue')"

@[simp] theorem ofName?_name (m : Mode) : ofName? m.name = some m := by
  cases m <;> rfl

end Mode

/-- How a machine runs: its mode, its step allowance, whether it keeps a log,
and how many applications may be active at a time. -/
structure Options where
  mode : Mode := .direct
  limit : Option Int := none
  trace : Bool := false
  depth : Nat := 1000

/-- One logged application, with the step count once it was reduced. -/
structure LogEntry where
  steps : Nat
  function : Value
  argument : Value
  result : Value

/-- The line of a logged application; the step count is set in six columns. -/
def LogEntry.line (e : LogEntry) : String :=
  let count := toString e.steps
  String.ofList (List.replicate (6 - count.length) ' ') ++ count ++ " `" ++
    e.function.render ++ e.argument.render ++ " -> " ++ e.result.render

/-- The state of a machine.  `pending` holds the program with the token to be
read next in front, `stack` has its top in front, and `log` its newest entry. -/
structure Machine where
  pending : List Token
  stack : List Value := []
  steps : Nat := 0
  log : List LogEntry := []

/-- Why a machine stopped. -/
inductive RunError where
  | formula (error : FormulaError)
  | fault (fault : Fault)
  deriving DecidableEq

/-- The outcome of an operation on a machine, with the state it leaves
behind. -/
abbrev Machine.Result (α : Type) := EStateM.Result RunError Machine α

namespace Machine

/-- A fresh machine on a program. -/
def ofWord (w : Word) : Machine := { pending := w.reverse }

def program (m : Machine) : Word := m.pending.reverse

def join (m : Machine) (w : Word) : Machine :=
  { m with pending := w.reverse ++ m.pending }

def push (m : Machine) (v : Value) : Machine := { m with stack := v :: m.stack }

def pop (m : Machine) : Result Value :=
  match m.stack with
  | [] => .error (.formula .notEnoughAtoms) m
  | v :: below => .ok v { m with stack := below }

/-- Count one step by hand. -/
def tick (o : Options) (m : Machine) : Result Unit :=
  match Combinatory.tick o.limit m.steps with
  | .ok () n => .ok () { m with steps := n }
  | .error e n => .error (.fault e) { m with steps := n }

def record (o : Options) (e : LogEntry) (m : Machine) : Machine :=
  if o.trace then { m with log := e :: m.log } else m

/-- Put the result of applying `function` where the mode wants it. -/
def deliver (o : Options) (function result : Value) (m : Machine) : Machine :=
  if o.mode = .requeue ∧ function.fires then m.join result.word
  else m.push result

/-- Process one token.  A failed application has already taken its operands off
the stack. -/
def step (o : Options) (t : Token) (m : Machine) : Result Unit :=
  match t with
  | .atom a => .ok () (m.push (.ofAtom a))
  | .apply =>
    match m.pop with
    | .error e m => .error e m
    | .ok f m =>
      match m.pop with
      | .error e m => .error e m
      | .ok x m =>
        match Value.apply o.limit o.depth f x m.steps with
        | .error e n => .error (.fault e) { m with steps := n }
        | .ok r n =>
          let m := { m with steps := n }
          .ok () ((m.record o ⟨n, f, x, r⟩).deliver o f r)

/-- Read one token off the program and process it; nothing happens when the
program is empty. -/
def next (o : Options) (m : Machine) : Result (Option Token) :=
  match m.pending with
  | [] => .ok none m
  | t :: rest =>
    match step o t { m with pending := rest } with
    | .ok () m => .ok (some t) m
    | .error e m => .error e m

/-- The lines logged so far, oldest first. -/
def lines (m : Machine) : List String := m.log.reverse.map LogEntry.line

section

variable {o : Options} {m m' : Machine} {f x v : Value} {below : List Value}
  {n : Nat}

theorem step_apply_of_ok (hstack : m.stack = f :: x :: below)
    (happly : Value.apply o.limit o.depth f x m.steps = .ok v n) :
    step o .apply m = .ok ()
      ((record o ⟨n, f, x, v⟩
        { m with stack := below, steps := n }).deliver o f v) := by
  simp only [step, pop, hstack, happly]

theorem step_apply_of_error {fault : Fault} (hstack : m.stack = f :: x :: below)
    (happly : Value.apply o.limit o.depth f x m.steps = .error fault n) :
    step o .apply m =
      .error (.fault fault) { m with stack := below, steps := n } := by
  simp only [step, pop, hstack, happly]

theorem step_apply_of_short (hstack : m.stack.length < 2) :
    step o .apply m = .error (.formula .notEnoughAtoms)
      { m with stack := [] } := by
  obtain ⟨pending, stack, steps, log⟩ := m
  match stack, hstack with
  | [], _ => rfl
  | [_], _ => rfl

/-- An application mark finds its two operands, or not enough of them. -/
theorem stack_cases (m : Machine) :
    m.stack.length < 2 ∨ ∃ f x below, m.stack = f :: x :: below := by
  match hstack : m.stack with
  | [] => simp
  | [_] => simp
  | f :: x :: below => exact Or.inr ⟨f, x, below, rfl⟩

/-- What a token does when it does not fail: an atom is pushed, and an
application mark delivers the value of the top of the stack applied to the value
under it. -/
theorem step_eq_ok {t : Token} (h : step o t m = .ok () m') :
    (∃ a, t = .atom a ∧ m' = m.push (.ofAtom a)) ∨
      ∃ f x below v n, t = .apply ∧ m.stack = f :: x :: below ∧
        Value.apply o.limit o.depth f x m.steps = .ok v n ∧
        m' = (record o ⟨n, f, x, v⟩
          { m with stack := below, steps := n }).deliver o f v := by
  cases t with
  | atom a =>
    cases h
    exact Or.inl ⟨a, rfl, rfl⟩
  | apply =>
    rcases m.stack_cases with hshort | ⟨f, x, below, hstack⟩
    · rw [step_apply_of_short hshort] at h
      cases h
    · cases happly : Value.apply o.limit o.depth f x m.steps with
      | ok v n =>
        rw [step_apply_of_ok hstack happly] at h
        cases h
        exact Or.inr ⟨f, x, below, v, n, rfl, hstack, happly, rfl⟩
      | error fault n =>
        rw [step_apply_of_error hstack happly] at h
        cases h

/-- How a token fails: only an application mark can, for want of operands or
because the application of the two operands fails. -/
theorem step_eq_error {t : Token} {e : RunError}
    (h : step o t m = .error e m') :
    t = .apply ∧
      ((m.stack.length < 2 ∧ e = .formula .notEnoughAtoms ∧
          m' = { m with stack := [] }) ∨
        ∃ f x below fault n, m.stack = f :: x :: below ∧
          Value.apply o.limit o.depth f x m.steps = .error fault n ∧
          e = .fault fault ∧ m' = { m with stack := below, steps := n }) := by
  cases t with
  | atom a => cases h
  | apply =>
    refine ⟨rfl, ?_⟩
    rcases m.stack_cases with hshort | ⟨f, x, below, hstack⟩
    · rw [step_apply_of_short hshort] at h
      cases h
      exact Or.inl ⟨hshort, rfl, rfl⟩
    · cases happly : Value.apply o.limit o.depth f x m.steps with
      | ok v n =>
        rw [step_apply_of_ok hstack happly] at h
        cases h
      | error fault n =>
        rw [step_apply_of_error hstack happly] at h
        cases h
        exact Or.inr ⟨f, x, below, fault, n, hstack, happly, rfl, rfl⟩

/-- A token is read off the end of the program. -/
theorem next_eq_of_pop (o : Options) (m : Machine) :
    next o m =
      match m.program.pop with
      | (none, _) => .ok none m
      | (some t, w) =>
        match step o t { m with pending := w.reverse } with
        | .ok () m => .ok (some t) m
        | .error e m => .error e m := by
  obtain ⟨pending, stack, steps, log⟩ := m
  cases pending <;> simp [next, program, Word.pop]

end

end Machine

end Combinatory
