/-
Running a machine until its program is empty.  In requeue mode the program grows
while it is read, but what was written back is a value and is only rebuilt, so a
run in direct mode foretells how many tokens will be read.  That number goes
down by at least one with every token, which is why every run ends.
-/
import Combinatory.Machine.Basic

namespace Combinatory

namespace Machine

/-- The number of tokens read from a program and a stack until the program is
empty or a token fails, with every fired result written back and read once
more. -/
def readings (depth : Nat) : List Token → List Value → Nat
  | [], _ => 0
  | .atom a :: pending, stack => readings depth pending (.ofAtom a :: stack) + 1
  | .apply :: pending, f :: x :: below =>
    match Value.apply none depth f x 0 with
    | .ok r _ =>
      readings depth pending (r :: below) +
        (if f.fires then r.word.length else 0) + 1
    | .error _ _ => 1
  | .apply :: _, _ => 1

/-- Reading the tokens of a value backwards rebuilds the value on top of the
stack. -/
theorem readings_word {depth : Nat} (hdepth : 0 < depth) (v : Value)
    (pending : List Token) (stack : List Value) :
    readings depth (v.word.reverse ++ pending) stack =
      readings depth pending (v :: stack) + v.word.length := by
  obtain ⟨depth, rfl⟩ :=
    Nat.exists_eq_succ_of_ne_zero (Nat.pos_iff_ne_zero.1 hdepth)
  induction v generalizing pending stack with
  | s | k | i => simp [Value.toTree, Tree.tokens, readings, Value.ofAtom]
  | s₁ x ih | k₁ x ih =>
    simp only [Value.word_eq, Value.toTree, Tree.tokens, List.reverse_cons,
      List.append_assoc, List.cons_append, List.nil_append] at ih ⊢
    simp [ih, readings, Value.ofAtom, Value.fires]
    omega
  | s₂ x y ihx ihy =>
    simp only [Value.word_eq, Value.toTree, Tree.tokens, List.reverse_cons,
      List.reverse_append, List.append_assoc, List.cons_append,
      List.nil_append] at ihx ihy ⊢
    simp [ihx, ihy, readings, Value.ofAtom, Value.fires]
    omega

@[simp] theorem pending_record (o : Options) (e : LogEntry) (m : Machine) :
    (m.record o e).pending = m.pending := by
  unfold record
  split <;> rfl

@[simp] theorem stack_record (o : Options) (e : LogEntry) (m : Machine) :
    (m.record o e).stack = m.stack := by
  unfold record
  split <;> rfl

/-- Every token that is read leaves fewer to read. -/
theorem readings_lt_of_step {o : Options} {t : Token} {m m' : Machine}
    (h : step o t m = .ok () m') :
    readings o.depth m'.pending m'.stack <
      readings o.depth (t :: m.pending) m.stack := by
  rcases step_eq_ok h with
    ⟨a, rfl, rfl⟩ | ⟨f, x, below, v, n, rfl, hstack, happly, rfl⟩
  · simp [push, readings]
  · obtain ⟨stop, hfree⟩ := Value.apply_without_limit happly 0
    have hdepth := Value.depth_pos_of_apply happly
    rw [hstack]
    unfold deliver
    split
    · next hmode =>
      simp only [join, pending_record, stack_record, readings_word hdepth]
      simp [readings, hfree, hmode.2]
    · simp only [push, pending_record, stack_record, readings, hfree]
      omega

/-- Read tokens until the program is empty or a token fails. -/
def run (o : Options) (m : Machine) : Result Unit :=
  match _hpending : m.pending with
  | [] => .ok () m
  | t :: rest =>
    match _hstep : step o t { m with pending := rest } with
    | .ok () m' => run o m'
    | .error e m' => .error e m'
termination_by readings o.depth m.pending m.stack
decreasing_by simpa [*] using readings_lt_of_step ‹step o t _ = .ok () m'›

theorem run_of_pending_nil (o : Options) {m : Machine} (h : m.pending = []) :
    run o m = .ok () m := by
  unfold run
  split
  · rfl
  · simp_all

theorem run_of_pending_cons (o : Options) {m : Machine} {t : Token}
    {rest : List Token} (h : m.pending = t :: rest) :
    run o m =
      match step o t { m with pending := rest } with
      | .ok () m' => run o m'
      | .error e m' => .error e m' := by
  rw [run]
  split
  · simp_all
  · next hpending =>
    rw [h] at hpending
    injection hpending with ht hrest
    subst ht hrest
    cases hstep : step o t { m with pending := rest } <;> simp

/-- Take the one value that a run leaves as a word. -/
def conclude : Result Unit → Result Word
  | .error e m => .error e m
  | .ok () m =>
    match m.stack with
    | [] => .error (.formula .notEnoughAtoms) m
    | [v] => .ok v.word { m with stack := [] }
    | _ :: _ :: _ => .error (.formula .surplusTokens) m

/-- Run the machine and conclude. -/
def eval (o : Options) (m : Machine) : Result Word := conclude (run o m)

end Machine

end Combinatory
