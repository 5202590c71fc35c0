/-
The two modes are one machine.  A result that is written back consists of the
tokens of a value; read again, they rebuild the value on top of the stack and
touch nothing else, because a value holds nothing that fires.  So every token of
a direct run is answered in requeue mode by the same token and, if a rule fired,
by the rereading of its result.
-/
import Combinatory.Proofs.Application
import Combinatory.Proofs.Run

namespace Combinatory.Machine

variable {o : Options} {m m' r : Machine}

/-- A function that only takes hold of its argument does so in one step. -/
theorem Loads.hold {wf wx : Word} {f x v : Value} {n₀ n₁ n₂ : Nat}
    (hlimit : o.limit = none) (hdepth : 0 < o.depth)
    (hx : Loads o wx n₀ x n₁) (hf : Loads o wf n₁ f n₂)
    (hfires : f.fires = false)
    (hholds : ∀ depth n, Value.apply none (depth + 1) f x n = .ok v (n + 1)) :
    Loads o (.apply :: (wf ++ wx)) n₀ v (n₂ + 1) := by
  apply hx.app hf (fun _ => hfires)
  obtain ⟨depth, hsucc⟩ :=
    Nat.exists_eq_add_one_of_ne_zero (Nat.pos_iff_ne_zero.1 hdepth)
  rw [hlimit, hsucc]
  exact hholds depth n₂

/-- Rereading a value costs one step for each of its tokens that is no atom. -/
theorem loads_word (hlimit : o.limit = none) (hdepth : 0 < o.depth)
    (v : Value) (n : Nat) :
    Loads o v.word n v (n + (v.length - 1)) := by
  rw [Value.word_eq]
  induction v generalizing n with
  | s => exact loads_atom o .s n
  | k => exact loads_atom o .k n
  | i => exact loads_atom o .i n
  | s₁ x ih =>
      have hcount : n + (x.length - 1) + 1 = n + ((Value.s₁ x).length - 1) := by
        have := x.length_pos
        simp only [Value.length]
        omega
      rw [← hcount]
      exact (ih n).hold hlimit hdepth (loads_atom o .s _) rfl fun _ _ => rfl
  | k₁ x ih =>
      have hcount : n + (x.length - 1) + 1 = n + ((Value.k₁ x).length - 1) := by
        have := x.length_pos
        simp only [Value.length]
        omega
      rw [← hcount]
      exact (ih n).hold hlimit hdepth (loads_atom o .k _) rfl fun _ _ => rfl
  | s₂ x y ihx ihy =>
      have hcount : n + (y.length - 1) + (x.length - 1) + 1 + 1 =
          n + ((Value.s₂ x y).length - 1) := by
        have := x.length_pos
        have := y.length_pos
        simp only [Value.length]
        omega
      rw [← hcount]
      have hinner :=
        (ihx (n + (y.length - 1))).hold hlimit hdepth (loads_atom o .s _) rfl
        (v := .s₁ x) fun _ _ => rfl
      exact (ihy n).hold hlimit hdepth hinner rfl fun _ _ => rfl

/-- What the direct machine does with a token, the requeueing one does with the
same token and the tokens that it writes back. -/
theorem requeue_simulates_direct {o' : Options} (hmode : o.mode = .direct)
    (hmode' : o'.mode = .requeue) (hlimit' : o'.limit = none)
    (hdepth : o'.depth = o.depth) :
    Simulates o' o := by
  intro m m' r hadvance hagree
  obtain ⟨t, rest, hpending, hstep⟩ := exists_step_of_advances hadvance
  have hpending' : r.pending = t :: rest := hagree.1.symm.trans hpending
  rcases step_eq_ok hstep with
    ⟨a, rfl, rfl⟩ | ⟨f, x, below, v, n, rfl, hstack, happly, rfl⟩
  · exact ⟨_, .single (advances_of_step hpending' rfl), rfl,
      by simp [push, hagree.2]⟩
  · have hstack' : r.stack = f :: x :: below := hagree.2.symm.trans hstack
    obtain ⟨stop, hfree⟩ := Value.apply_without_limit happly r.steps
    rw [← hdepth, ← hlimit'] at hfree
    have hfirst := advances_of_step hpending' (step_apply_of_ok hstack' hfree)
    rw [deliver_eq_push (held_of_direct hmode f)]
    by_cases hfires : f.fires = true
    · rw [deliver_eq_join hmode' hfires] at hfirst
      obtain ⟨log, hlog⟩ := exists_log_record o' ⟨stop, f, x, v⟩
        { r with pending := rest, stack := below, steps := stop }
      have hpos : 0 < o'.depth := Value.depth_pos_of_apply hfree
      obtain ⟨log', hreach⟩ := loads_word hlimit' hpos v stop
        { r with pending := rest, stack := below, steps := stop, log } rfl
      rw [← hlog] at hreach
      exact ⟨_, .head hfirst hreach, by simp [push], by simp [push]⟩
    · have hheld : f.fires = false := by simpa using hfires
      rw [deliver_eq_push (fun _ => hheld)] at hfirst
      exact ⟨_, .single hfirst, by simp [push], by simp [push]⟩

/-- A token that fails in one machine without a step allowance fails in every
other, whatever the modes, and for the same reason. -/
theorem next_fails_alike {o' : Options} {e : RunError}
    (h : next o m = .error e m')
    (hagree : Agree m r) (hlimit : o.limit = none) (hlimit' : o'.limit = none)
    (hdepth : o'.depth = o.depth) :
    ∃ r', next o' r = .error e r' ∧ Agree m' r' := by
  obtain ⟨t, rest, hpending, hstep⟩ := exists_step_of_next_error h
  have hpending' : r.pending = t :: rest := hagree.1.symm.trans hpending
  obtain ⟨rfl,
    ⟨hshort, rfl, rfl⟩ | ⟨f, x, below, fault, n, hstack, happly, rfl, rfl⟩⟩ :=
    step_eq_error hstep
  · have hshort' : r.stack.length < 2 := by
      rw [← hagree.2]
      exact hshort
    exact ⟨_, next_of_step_error hpending' (step_apply_of_short hshort'), rfl,
      rfl⟩
  · have hstack' : r.stack = f :: x :: below := hagree.2.symm.trans hstack
    rw [hlimit, ← hdepth] at happly
    obtain ⟨stop, herror⟩ := Value.apply_none_error happly r.steps
    rw [← hlimit'] at herror
    exact ⟨_, next_of_step_error hpending' (step_apply_of_error hstack' herror),
      rfl, rfl⟩

/-- The outcome of an evaluation shows what the run before it shows. -/
theorem shown_conclude {r r' : Result Unit} (h : r.shown = r'.shown) :
    (conclude r).shown = (conclude r').shown := by
  cases r with
  | error e m =>
      cases r' with
      | error e' m' =>
          simp only [Result.shown, Prod.mk.injEq, Except.error.injEq] at h
          simp only [conclude, Result.shown, h]
      | ok _ m' => simp [Result.shown] at h
  | ok _ m =>
      cases r' with
      | error e' m' => simp [Result.shown] at h
      | ok _ m' =>
          simp only [Result.shown, Prod.mk.injEq, true_and] at h
          obtain ⟨hprogram, hstack⟩ := h
          simp only [conclude, hstack]
          rcases hleft : m'.stack with _ | ⟨v, _ | ⟨w, below⟩⟩
          · simp [Result.shown, hprogram, hstack, hleft]
          · exact Prod.ext rfl (Prod.ext hprogram rfl)
          · simp [Result.shown, hprogram, hstack, hleft]

/-- Without a step allowance a requeueing run shows what the direct run from the
same state shows. -/
theorem shown_run_requeue (o : Options) (m : Machine) :
    (run { o with mode := .requeue, limit := none } m).shown =
      (run { o with mode := .direct, limit := none } m).shown := by
  have hsimulates : Simulates { o with mode := .requeue, limit := none }
      { o with mode := .direct, limit := none } :=
    requeue_simulates_direct rfl rfl rfl rfl
  apply hsimulates.shown_run
  · intro m m' r e hfail hagree
    exact next_fails_alike hfail hagree rfl rfl rfl
  · exact ⟨rfl, rfl⟩

/-- In both modes an evaluation without a step allowance has the same result or
fails with the same error, and leaves the same program and the same stack, from
every program, every stack and under every nesting bound. -/
theorem eval_requeue_shows_direct (o : Options) (m : Machine) :
    (eval { o with mode := .requeue, limit := none } m).shown =
      (eval { o with mode := .direct, limit := none } m).shown :=
  shown_conclude (shown_run_requeue o m)

end Combinatory.Machine
