/-
Programs one after the other.  Of two words that make up a program the second is
read first, since words are read from their end.  What a rule brings forth is
written back at that same end, so that it is read before anything that was there
already.  The machine therefore does on both words what it does on the second
alone, and touches the first only when the second and all that came of it are
used up; a token that fails before that leaves the first word as it was.
-/
import Combinatory.Proofs.Termination

namespace Combinatory.Machine

variable {o : Options} {m m' : Machine}

def withProgram (m : Machine) (w : Word) : Machine :=
  { m with pending := w.reverse }

/-- The machine with a word in front of its program, to be read when the program
is used up. -/
def precededBy (m : Machine) (p : Word) : Machine :=
  { m with pending := m.pending ++ p.reverse }

/-- An outcome with a word in front of the program of the machine that is
left. -/
def Result.precededBy {α : Type} (r : Result α) (p : Word) : Result α :=
  match r with
  | .ok a m => .ok a (m.precededBy p)
  | .error e m => .error e (m.precededBy p)

theorem precededBy_eq (m : Machine) (p : Word) :
    m.precededBy p = m.withProgram (p ++ m.program) := by
  simp [precededBy, withProgram, program]

theorem precededBy_withProgram (m : Machine) (p q : Word) :
    (m.withProgram q).precededBy p = m.withProgram (p ++ q) := by
  simp [precededBy, withProgram]

theorem precededBy_of_pending_nil (hempty : m.pending = []) (p : Word) :
    m.precededBy p = m.withProgram p := by
  rw [precededBy, hempty, List.nil_append, withProgram]

theorem record_precededBy (o : Options) (e : LogEntry)
    (m : Machine) (p : Word) :
    (m.precededBy p).record o e = (m.record o e).precededBy p := by
  unfold record
  split <;> rfl

/-- What is written back goes to the other end of the program than the word in
front. -/
theorem deliver_precededBy (o : Options) (f v : Value)
    (m : Machine) (p : Word) :
    (m.precededBy p).deliver o f v = (m.deliver o f v).precededBy p := by
  unfold deliver
  split
  · simp [join, precededBy]
  · rfl

/-- A token is processed without a look at the program. -/
theorem step_precededBy {t : Token} {r : Result Unit}
    (hstep : step o t m = r) (p : Word) :
    step o t (m.precededBy p) = r.precededBy p := by
  cases r with
  | ok _ m₁ =>
      rcases step_eq_ok hstep with
        ⟨a, rfl, rfl⟩ | ⟨f, x, below, v, n, rfl, hstack, happly, rfl⟩
      · rfl
      · rw [step_apply_of_ok (m := m.precededBy p) hstack happly,
          Result.precededBy, ← deliver_precededBy, ← record_precededBy]
        rfl
  | error e m₁ =>
      obtain ⟨rfl,
        ⟨hshort, rfl, rfl⟩
          | ⟨f, x, below, fault, n, hstack, happly, rfl, rfl⟩⟩ :=
        step_eq_error hstep
      · exact step_apply_of_short (m := m.precededBy p) hshort
      · exact step_apply_of_error (m := m.precededBy p) hstack happly

theorem pending_precededBy {t : Token} {rest : List Token}
    (hpending : m.pending = t :: rest)
    (p : Word) : (m.precededBy p).pending = t :: (rest ++ p.reverse) := by
  rw [precededBy, hpending, List.cons_append]

/-- As long as there is a token of its own to read, the machine reads that
one. -/
theorem Advances.precededBy (h : Advances o m m') (p : Word) :
    Advances o (m.precededBy p) (m'.precededBy p) := by
  obtain ⟨t, rest, hpending, hstep⟩ := exists_step_of_advances h
  exact advances_of_step (pending_precededBy hpending p)
    (step_precededBy hstep p)

theorem next_error_precededBy {e : RunError}
    (h : next o m = .error e m') (p : Word) :
    next o (m.precededBy p) = .error e (m'.precededBy p) := by
  obtain ⟨t, rest, hpending, hstep⟩ := exists_step_of_next_error h
  exact next_of_step_error (pending_precededBy hpending p)
    (step_precededBy hstep p)

theorem ReachesIn.precededBy {n : Nat} (h : ReachesIn o n m m') (p : Word) :
    ReachesIn o n (m.precededBy p) (m'.precededBy p) := by
  induction h with
  | refl m => exact .refl _
  | head hadvance _ ih => exact .head (hadvance.precededBy p) ih

/-- Programs compose, from every stack, step count and log, in both modes, under
every step allowance and every nesting bound.  If the run on the second word
ends, the run on both words comes, after as many tokens, to the first word with
the stack, the count and the log that the run on the second word ends with, and
goes on as the run on the first word from there.  If the run on the second word
fails, the run on both words fails with the same error, and leaves the same
machine but for the first word in front of the program. -/
theorem run_append (o : Options) (p q : Word) (m : Machine) :
    match run o (m.withProgram q) with
    | .ok () last =>
        (∃ rounds, ReachesIn o rounds (m.withProgram q) last ∧
          ReachesIn o rounds (m.withProgram (p ++ q)) (last.withProgram p)) ∧
        run o (m.withProgram (p ++ q)) = run o (last.withProgram p)
    | .error e left =>
        run o (m.withProgram (p ++ q)) =
          .error e (left.withProgram (p ++ left.program)) := by
  rcases run_ends o (m.withProgram q) with
    ⟨last, hreach, hempty, hrun⟩ | ⟨last, e, left, hreach, hfail, hrun⟩
  · rw [hrun]
    obtain ⟨rounds, hrounds⟩ := exists_reachesIn_of_reaches hreach
    have hboth := hrounds.precededBy p
    rw [precededBy_withProgram, precededBy_of_pending_nil hempty] at hboth
    exact ⟨⟨rounds, hrounds, hboth⟩, run_eq_of_reaches hboth.reaches⟩
  · rw [hrun]
    obtain ⟨rounds, hrounds⟩ := exists_reachesIn_of_reaches hreach
    have hboth := hrounds.precededBy p
    rw [precededBy_withProgram] at hboth
    calc run o (m.withProgram (p ++ q))
        = run o (last.precededBy p) := run_eq_of_reaches hboth.reaches
      _ = .error e (left.precededBy p) :=
        run_of_next_error (next_error_precededBy hfail p)
      _ = .error e (left.withProgram (p ++ left.program)) := by
        rw [precededBy_eq]

end Combinatory.Machine
