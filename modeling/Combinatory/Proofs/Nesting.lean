/-
The nesting bound.  An application that finds levels enough does not notice how
many more there are, whatever becomes of it: it may come to a value or use up
the step allowance.  So a machine that is not stopped for its nesting does the
same, token by token, under every larger bound, and the whole run is the same
with its counts and its log.  On the other hand every level costs a step, so
where there is room for one level more than there are steps allowed, the
allowance ends first.
-/
import Combinatory.Proofs.Application
import Combinatory.Proofs.Meaning
import Combinatory.Proofs.Resumption

namespace Combinatory

namespace Machine

variable {o : Options} {m : Machine} {depth : Nat}

/-- The operation was not stopped for its nesting. -/
def Result.Fits {α : Type} (r : Result α) : Prop :=
  ∀ left, r ≠ .error (.fault .tooDeep) left

theorem Result.fits_ok {α : Type} (a : α) (m : Machine) :
    Result.Fits (.ok a m) := by
  intro left hleft
  cases hleft

theorem step_of_depth_le {t : Token} (hle : o.depth ≤ depth)
    (hfits : (step o t m).Fits) :
    step { o with depth := depth } t m = step o t m := by
  cases t with
  | atom a => rfl
  | apply =>
      rcases m.stack_cases with hshort | ⟨f, x, below, hstack⟩
      · rw [step_apply_of_short hshort, step_apply_of_short hshort]
      · rw [step_apply_eq_settle hstack] at hfits
        rw [step_apply_eq_settle hstack, step_apply_eq_settle hstack]
        have hsame : Value.apply o.limit depth f x m.steps =
            Value.apply o.limit o.depth f x m.steps := by
          apply Value.apply_of_depth_le hle
          intro stop hstop
          exact hfits _ (by rw [hstop]; rfl)
        exact congrArg (settle o f x { m with stack := below }) hsame

/-- The bound is looked at for one token after the other, so what holds of a
token holds of the run. -/
theorem run_of_depth_le (hle : o.depth ≤ depth) (hfits : (run o m).Fits) :
    run { o with depth := depth } m = run o m := by
  induction m using run.induct o with
  | case1 m hpending =>
      rw [run_of_pending_nil _ hpending, run_of_pending_nil _ hpending]
  | case2 m t rest hpending m₁ hstep ih =>
      have htoken :
          step { o with depth := depth } t { m with pending := rest } =
            .ok () m₁ := by
        rw [step_of_depth_le hle (by rw [hstep]; exact Result.fits_ok () m₁),
          hstep]
      rw [run_eq_of_advances (advances_of_step hpending hstep)] at hfits ⊢
      rw [run_eq_of_advances (advances_of_step hpending htoken)]
      exact ih hfits
  | case3 m t rest hpending e m₁ hstep =>
      have hrun : run o m = .error e m₁ :=
        run_of_next_error (next_of_step_error hpending hstep)
      rw [hrun] at hfits ⊢
      have htoken :
          step { o with depth := depth } t { m with pending := rest } =
            .error e m₁ := by
        rw [step_of_depth_le hle (by rw [hstep]; exact hfits), hstep]
      exact run_of_next_error (next_of_step_error hpending htoken)

theorem Result.Fits.of_conclude {r : Result Unit} (hfits : (conclude r).Fits) :
    r.Fits := by
  rintro left rfl
  exact hfits left rfl

/-- A larger nesting bound never changes an outcome.  From every program, stack
and step count, in both modes and under every step allowance, an evaluation that
is not stopped for its nesting is the same under every larger bound: it has the
same result or the same error, and it leaves the same machine, with its program,
its stack, its step count and its log. -/
theorem eval_of_depth_le (hle : o.depth ≤ depth)
    (hfits : ∀ left, m.eval o ≠ .error (.fault .tooDeep) left) :
    m.eval { o with depth := depth } = m.eval o := by
  have hrun : (run o m).Fits := Result.Fits.of_conclude hfits
  rw [eval, eval, run_of_depth_le hle hrun]

/-- Two levels are enough for the S rule on `` ```siii ``, and one is not. -/
theorem eval_of_depth_le_siii :
    ∃ w o left result left', Word.lex "```siii" = .ok w ∧
      o = { mode := .requeue, limit := some 9, trace := true, depth := 2 } ∧
      (ofWord w).eval { o with depth := 1 } = .error (.fault .tooDeep) left ∧
      (ofWord w).eval o = .ok result left' ∧ left'.steps = 6 ∧
      (ofWord w).eval { o with depth := 20000 } = .ok result left' := by
  let w : Word := [.apply, .apply, .apply, .atom .s, .atom .i,
    .atom .i, .atom .i]
  let o : Options :=
    { mode := .requeue, limit := some 9, trace := true, depth := 2 }
  obtain ⟨result, left', heval, hsteps⟩ :
      ∃ result left', (ofWord w).eval o = .ok result left' ∧ left'.steps = 6 :=
    ⟨_, _, by cbv, rfl⟩
  refine ⟨w, o, _, result, left', rfl, rfl, by cbv, heval, hsteps, ?_⟩
  rw [eval_of_depth_le (by decide), heval]
  rw [heval]
  exact Result.fits_ok result left'

end Machine

section Room

variable {limit : Int} {fault : Fault}

/-- While an application is active its step is counted, and the steps of earlier
applications stay counted.  So each level down leaves as much less to be allowed
as it leaves less room, and with room to spare at the start the allowance ends
before the levels do. -/
theorem Value.fault_of_apply {depth n stop : Nat} {f x : Value}
    (hroom : max limit n < n + depth)
    (happly : apply (some limit) depth f x n = .error fault stop) :
    fault = .stepLimit limit := by
  induction depth generalizing f x n stop with
  | zero => omega
  | succ depth ih =>
      rw [apply_succ] at happly
      by_cases hspent : limit ≤ n
      · simp only [tick, if_pos hspent] at happly
        cases happly
        rfl
      · simp only [tick, if_neg hspent] at happly
        cases f with
        | s₂ g h =>
            simp only at happly
            split at happly
            · next hfunction =>
              cases happly
              exact ih (by omega) hfunction
            · next function n₁ hfunction =>
              have hcount := lt_of_apply_ok hfunction
              split at happly
              · next hargument =>
                cases happly
                exact ih (by omega) hargument
              · next argument n₂ hargument =>
                have hcount' := lt_of_apply_ok hargument
                exact ih (by omega) happly
        | _ => cases happly

namespace Machine

variable {o : Options} {m left : Machine}

theorem fault_of_next (hlimit : o.limit = some limit)
    (hroom : max limit 0 < o.depth)
    (hnext : next o m = .error (.fault fault) left) :
    fault = .stepLimit limit := by
  obtain ⟨t, rest, _, hstep⟩ := exists_step_of_next_error hnext
  obtain ⟨_, ⟨_, hshort, _⟩ | ⟨f, x, below, fault', n, _, happly, hfault, _⟩⟩ :=
    step_eq_error hstep
  · cases hshort
  · cases hfault
    rw [hlimit] at happly
    exact Value.fault_of_apply (by omega) happly

theorem fault_of_eval (hlimit : o.limit = some limit)
    (hroom : max limit 0 < o.depth)
    (heval : m.eval o = .error (.fault fault) left) :
    fault = .stepLimit limit := by
  rw [eval] at heval
  rcases run_ends o m with ⟨last, _, _, hrun⟩ | ⟨last, e, m', _, hnext, hrun⟩
  · rw [hrun, conclude] at heval
    split at heval <;> cases heval
  · rw [hrun] at heval
    cases heval
    exact fault_of_next hlimit hroom hnext

end Machine

theorem answer_evaluate_text_cases {o : Options} (hlimit : o.limit = some limit)
    (hroom : max limit 0 < o.depth) (t : Tree) :
    (∃ result, (evaluate o t.text).answer = .ok result) ∨
      (evaluate o t.text).answer =
        .error (.run (.fault (.stepLimit limit))) := by
  rw [evaluate_text, Evaluation.answer_ofWord]
  rcases Machine.eval_ofWord_tokens o t with
    ⟨result, left, heval⟩ | ⟨fault, left, heval⟩
  · rw [heval]
    exact Or.inl ⟨_, rfl⟩
  · rw [heval, Machine.fault_of_eval hlimit hroom heval]
    exact Or.inr rfl

end Room

/-- A step allowance protects from too deep a nesting.  Where one application
more may be active at a time than there are steps allowed, and at least one, no
evaluation is stopped for its nesting, from whatever program, stack and step
count it starts and in whatever mode.  So every text is answered, or refused as
no formula, or abandoned for its steps. -/
theorem allowance_forestalls_nesting (o : Options) {limit : Int}
    (hlimit : o.limit = some limit) (hroom : max limit 0 + 1 ≤ o.depth) :
    (∀ m left : Machine, m.eval o ≠ .error (.fault .tooDeep) left) ∧
    ∀ text,
      (∃ result, (evaluate o text).answer = .ok result) ∨
      (∃ e, (evaluate o text).answer = .error (.input e)) ∨
      (evaluate o text).answer = .error (.run (.fault (.stepLimit limit))) := by
  have hspare : max limit 0 < o.depth := by omega
  constructor
  · intro m left heval
    cases Machine.fault_of_eval hlimit hspare heval
  · intro text
    cases hread : Word.ofFormula text with
    | error e => exact Or.inr (Or.inl ⟨e, by simp only [evaluate, hread]; rfl⟩)
    | ok w =>
        obtain ⟨t, rfl⟩ := IsFormula.exists_tree ⟨w, hread⟩
        rcases answer_evaluate_text_cases hlimit hspare t with hok | hspent
        · exact Or.inl hok
        · exact Or.inr (Or.inr hspent)

/-- A formula without end is stopped at its ninth step where ten levels are
free, and for its nesting where only two are. -/
theorem allowance_forestalls_nesting_siisii :
    ∃ o : Options, o = { mode := .requeue, limit := some 9, depth := 10 } ∧
      o.limit = some 9 ∧ max (9 : Int) 0 + 1 ≤ o.depth ∧
      (∀ m left : Machine, m.eval o ≠ .error (.fault .tooDeep) left) ∧
      (evaluate o "```sii``sii").answer =
        .error (.run (.fault (.stepLimit 9))) ∧
      (evaluate { o with depth := 2 } "```sii``sii").answer =
        .error (.run (.fault .tooDeep)) :=
  ⟨_, rfl, rfl, by decide,
    (allowance_forestalls_nesting
      { mode := .requeue, limit := some 9, depth := 10 } rfl
      (by decide)).1,
    by cbv, by cbv⟩

end Combinatory
