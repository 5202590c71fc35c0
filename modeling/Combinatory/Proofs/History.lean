/-
Histories: the uses of the rules that a reduction makes, each by its function
and its argument and in the order in which they begin.  A history is written
without a step count and without a step allowance.  Without an allowance the
count goes up by one for every entry, in an application and in a whole run,
whether or not it comes to an end within its nesting bound.
-/
import Combinatory.Machine.Run

namespace Combinatory

variable {ε σ α : Type}

/-- The state that a computation leaves behind, whether or not it failed. -/
def finalState : EStateM.Result ε σ α → σ
  | .ok _ s => s
  | .error _ s => s

/-- The uses of the rules so far, and the value they come to unless the nesting
bound is met. -/
structure History where
  uses : List (Value × Value)
  value? : Option Value

namespace History

def cons (use : Value × Value) (h : History) : History :=
  { h with uses := use :: h.uses }

def andThen (h : History) (next : Value → History) : History :=
  match h.value? with
  | none => h
  | some v => { next v with uses := h.uses ++ (next v).uses }

/-- The outcome of a history whose entries are counted from `start` on. -/
def counted (start : Nat) (h : History) : EStateM.Result Fault Nat Value :=
  match h.value? with
  | none => .error .tooDeep (start + h.uses.length)
  | some v => .ok v (start + h.uses.length)

@[simp] theorem finalState_counted (start : Nat) (h : History) :
    finalState (h.counted start) = start + h.uses.length := by
  unfold counted
  split <;> rfl

theorem counted_cons (start : Nat) (use : Value × Value) (h : History) :
    (h.cons use).counted start = h.counted (start + 1) := by
  simp only [counted, cons, List.length_cons, Nat.add_assoc, Nat.add_comm 1]

theorem counted_andThen (start : Nat) (h : History) (next : Value → History) :
    (h.andThen next).counted start =
      match h.counted start with
      | .error e n => .error e n
      | .ok v n => (next v).counted n := by
  obtain ⟨uses, _ | v⟩ := h
  · rfl
  · simp only [andThen, counted]
    cases (next v).value? <;> simp [Nat.add_assoc]

end History

namespace Value

/-- The history of applying `f` to `x` with at most `depth` applications active
at a time. -/
def history : (depth : Nat) → (f x : Value) → History
  | 0, _, _ => ⟨[], none⟩
  | depth + 1, f, x =>
    History.cons (f, x) <|
      match f with
      | .s => ⟨[], some (.s₁ x)⟩
      | .k => ⟨[], some (.k₁ x)⟩
      | .i => ⟨[], some x⟩
      | .s₁ g => ⟨[], some (.s₂ g x)⟩
      | .k₁ g => ⟨[], some g⟩
      | .s₂ g h =>
        (history depth g x).andThen fun function =>
          (history depth h x).andThen fun argument =>
            history depth function argument

/-- Without a step allowance an application counts the entries of its
history. -/
theorem apply_none_eq_counted (depth : Nat) (f x : Value) (n : Nat) :
    apply none depth f x n = (history depth f x).counted n := by
  induction depth generalizing f x n with
  | zero => rfl
  | succ depth ih =>
      rw [apply_succ]
      simp only [tick]
      cases f with
      | s₂ g h =>
          rw [history, History.counted_cons, History.counted_andThen]
          simp only [ih g x]
          cases (history depth g x).counted (n + 1) with
          | error e n => rfl
          | ok function n =>
              simp only [ih h x, History.counted_andThen]
              cases (history depth h x).counted n with
              | error e n => rfl
              | ok argument n => exact ih function argument n
      | _ => rfl

end Value

namespace Machine

/-- The uses of the rules when a token meets a stack. -/
def tokenUses (depth : Nat) : Token → List Value → List (Value × Value)
  | .apply, f :: x :: _ => (Value.history depth f x).uses
  | _, _ => []

theorem tokenUses_of_short {depth : Nat} {stack : List Value}
    (h : stack.length < 2) : tokenUses depth .apply stack = [] := by
  match stack, h with
  | [], _ => rfl
  | [_], _ => rfl

/-- The uses of the rules in a run without a step allowance, from a state of the
machine on. -/
def uses (o : Options) (m : Machine) : List (Value × Value) :=
  match _hpending : m.pending with
  | [] => []
  | t :: rest =>
    tokenUses o.depth t m.stack ++
      match _hstep :
        step { o with limit := none } t { m with pending := rest } with
      | .ok () m' => uses o m'
      | .error _ _ => []
termination_by readings o.depth m.pending m.stack
decreasing_by simpa [*] using readings_lt_of_step ‹step _ t _ = .ok () m'›

theorem uses_of_pending_nil (o : Options) {m : Machine} (h : m.pending = []) :
    m.uses o = [] := by
  unfold uses
  split
  · rfl
  · simp_all

theorem uses_of_pending_cons (o : Options) {m : Machine} {t : Token}
    {rest : List Token} (h : m.pending = t :: rest) :
    m.uses o = tokenUses o.depth t m.stack ++
      match step { o with limit := none } t { m with pending := rest } with
      | .ok () m' => m'.uses o
      | .error _ _ => [] := by
  rw [uses]
  split
  · simp_all
  · next hpending =>
    rw [h] at hpending
    injection hpending with ht hrest
    subst ht hrest
    cases step { o with limit := none } t { m with pending := rest } <;> simp

@[simp] theorem steps_record (o : Options) (e : LogEntry) (m : Machine) :
    (m.record o e).steps = m.steps := by
  unfold record
  split <;> rfl

@[simp] theorem steps_deliver (o : Options) (f v : Value) (m : Machine) :
    (m.deliver o f v).steps = m.steps := by
  unfold deliver
  split <;> rfl

/-- What the machine makes of the outcome of an application, once the operands
are off its stack. -/
def settle (o : Options) (f x : Value) (m : Machine) :
    EStateM.Result Fault Nat Value → Result Unit
  | .error fault n => .error (.fault fault) { m with steps := n }
  | .ok v n =>
      .ok () ((record o ⟨n, f, x, v⟩ { m with steps := n }).deliver o f v)

theorem step_apply_eq_settle {o : Options} {m : Machine} {f x : Value}
    {below : List Value} (hstack : m.stack = f :: x :: below) :
    step o .apply m =
      settle o f x { m with stack := below }
        (Value.apply o.limit o.depth f x m.steps) := by
  cases happly : Value.apply o.limit o.depth f x m.steps with
  | ok v n => exact step_apply_of_ok hstack happly
  | error fault n => exact step_apply_of_error hstack happly

@[simp] theorem steps_settle (o : Options) (f x : Value) (m : Machine)
    (r : EStateM.Result Fault Nat Value) :
    (finalState (settle o f x m r)).steps = finalState r := by
  cases r with
  | error fault n => rfl
  | ok v n => simp [settle, finalState]

theorem steps_step (o : Options) (t : Token) (m : Machine) :
    (finalState (step { o with limit := none } t m)).steps =
      m.steps + (tokenUses o.depth t m.stack).length := by
  cases t with
  | atom a => rfl
  | apply =>
      rcases m.stack_cases with hshort | ⟨f, x, below, hstack⟩
      · rw [step_apply_of_short hshort, tokenUses_of_short hshort]
        rfl
      · rw [step_apply_eq_settle hstack, steps_settle,
          Value.apply_none_eq_counted, History.finalState_counted, hstack,
          tokenUses]

/-- Without a step allowance a run counts the uses of the rules that it
makes. -/
theorem steps_run (o : Options) (m : Machine) :
    (finalState (run { o with limit := none } m)).steps =
      m.steps + (m.uses o).length := by
  induction m using run.induct { o with limit := none } with
  | case1 m hpending =>
      rw [run_of_pending_nil _ hpending, uses_of_pending_nil o hpending]
      rfl
  | case2 m t rest hpending m₁ hstep ih =>
      have htoken := steps_step o t { m with pending := rest }
      rw [hstep] at htoken
      rw [run_of_pending_cons _ hpending,
        uses_of_pending_cons o hpending, hstep]
      simp only [finalState] at htoken
      rw [ih, htoken, List.length_append, Nat.add_assoc]
  | case3 m t rest hpending e m₁ hstep =>
      have htoken := steps_step o t { m with pending := rest }
      rw [hstep] at htoken
      rw [run_of_pending_cons _ hpending,
        uses_of_pending_cons o hpending, hstep]
      rw [List.append_nil]
      exact htoken

end Machine

end Combinatory
