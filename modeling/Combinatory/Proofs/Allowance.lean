/-
A step allowance cuts a run short and changes nothing else.  A computation under
an allowance is the computation without one as long as it takes no step beyond
the allowance, and otherwise fails at the first step that it may not take.
Computations that follow one another keep this relation, so it goes from the
single step through the nested rules to whole runs, wherever the allowance ends.
-/
import Combinatory.Proofs.History
import Combinatory.Proofs.Run

namespace Combinatory

variable {ε ε' σ σ' α β : Type}

/-- `capped` is what becomes of `free`, begun at a count of `start`, when no
step may be taken from a count of `limit` on: the same if `free` takes no step
or ends within the limit, and otherwise the failure `exhausted` at the first
step beyond it. -/
structure Cut (count : σ → Nat) (exhausted : ε) (limit : Int) (start : Nat)
    (free capped : EStateM.Result ε σ α) : Prop where
  start_le : start ≤ count (finalState free)
  within : count (finalState free) = start ∨
    (count (finalState free) : Int) ≤ limit →
    capped = free
  beyond : count (finalState free) ≠ start → limit < count (finalState free) →
    ∃ left, capped = .error exhausted left ∧
      (count left : Int) = max (start : Int) limit

section Cut

variable {count : σ → Nat} {count' : σ' → Nat} {exhausted : ε}
  {exhausted' : ε'} {limit : Int}

theorem bind_of_ok {x : EStateM ε σ α} {next : α → EStateM ε σ β}
    {s s' : σ} {a : α} (h : x s = .ok a s') : (x >>= next) s = next a s' := by
  simp only [Bind.bind, EStateM.bind, h]

theorem bind_of_error {x : EStateM ε σ α} {next : α → EStateM ε σ β}
    {s s' : σ} {e : ε}
    (h : x s = .error e s') : (x >>= next) s = .error e s' := by
  simp only [Bind.bind, EStateM.bind, h]

/-- A computation that takes no step is not touched by any allowance. -/
theorem Cut.of_idle {r : EStateM.Result ε σ α} {start : Nat}
    (hidle : count (finalState r) = start) :
    Cut count exhausted limit start r r :=
  ⟨Nat.le_of_eq hidle.symm, fun _ => rfl, fun hmoved => absurd hidle hmoved⟩

/-- If a part is cut and, where it succeeds, what follows it is cut, then the
whole is cut. -/
theorem Cut.bind {free capped : EStateM ε σ α}
    {free' capped' : α → EStateM ε σ β} {s : σ}
    (hfirst : Cut count exhausted limit (count s) (free s) (capped s))
    (hrest : ∀ a s', free s = .ok a s' →
      Cut count exhausted limit (count s') (free' a s') (capped' a s')) :
    Cut count exhausted limit (count s) ((free >>= free') s)
      ((capped >>= capped') s) := by
  obtain ⟨hle, hwithin, hbeyond⟩ := hfirst
  cases hfree : free s with
  | error e s₁ =>
      rw [hfree] at hle hwithin hbeyond
      rw [bind_of_error hfree]
      refine ⟨hle, fun hend => bind_of_error (hwithin hend), ?_⟩
      intro hmoved hlimit
      obtain ⟨left, hcapped, hleft⟩ := hbeyond hmoved hlimit
      exact ⟨left, bind_of_error hcapped, hleft⟩
  | ok a s₁ =>
      rw [hfree] at hle hwithin hbeyond
      simp only [finalState] at hle hwithin hbeyond
      obtain ⟨hle', hwithin', hbeyond'⟩ := hrest a s₁ hfree
      rw [bind_of_ok hfree]
      refine ⟨Nat.le_trans hle hle', ?_, ?_⟩
      · intro hend
        rw [bind_of_ok (hwithin (by omega)), hwithin' (by omega)]
      · intro hmoved hlimit
        -- The allowance ends in what follows, or already in the first part.
        by_cases hend : count s₁ = count s ∨ (count s₁ : Int) ≤ limit
        · rw [bind_of_ok (hwithin hend)]
          obtain ⟨left, hcapped, hleft⟩ := hbeyond' (by omega) hlimit
          exact ⟨left, hcapped, by omega⟩
        · obtain ⟨left, hcapped, hleft⟩ := hbeyond (by omega) (by omega)
          exact ⟨left, bind_of_error hcapped, hleft⟩

/-- What is made of an outcome afterwards, without steps of its own, keeps the
relation. -/
theorem Cut.map {free capped : EStateM.Result ε σ α} {start : Nat}
    (hcut : Cut count exhausted limit start free capped)
    (use : EStateM.Result ε σ α → EStateM.Result ε' σ' β)
    (hcount : ∀ r, count' (finalState (use r)) = count (finalState r))
    (hexhausted : ∀ left, ∃ left',
      use (.error exhausted left) = .error exhausted' left') :
    Cut count' exhausted' limit start (use free) (use capped) := by
  obtain ⟨hle, hwithin, hbeyond⟩ := hcut
  rw [← hcount free] at hle hwithin hbeyond
  refine ⟨hle, fun hend => congrArg use (hwithin hend), ?_⟩
  intro hmoved hlimit
  obtain ⟨left, rfl, hleft⟩ := hbeyond hmoved hlimit
  obtain ⟨left', huse⟩ := hexhausted left
  have hsame := hcount (.error exhausted left)
  rw [huse] at hsame
  simp only [finalState] at hsame
  exact ⟨left', huse, by rw [hsame, hleft]⟩

end Cut

theorem cut_tick (limit : Int) (n : Nat) :
    Cut id (.stepLimit limit) limit n (tick none n) (tick (some limit) n) := by
  simp only [tick]
  constructor
  · exact Nat.le_succ n
  · simp only [finalState, id]
    intro hend
    rw [if_neg (by omega)]
  · simp only [finalState, id]
    intro _ hlimit
    refine ⟨n, ?_, by omega⟩
    rw [if_pos (by omega)]

/-- An allowance cuts an application short wherever it ends among the nested
uses of the rules. -/
theorem Value.cut_apply (limit : Int) (depth : Nat) (f x : Value) (n : Nat) :
    Cut id (.stepLimit limit) limit n (apply none depth f x n)
      (apply (some limit) depth f x n) := by
  induction depth generalizing f x n with
  | zero => exact Cut.of_idle rfl
  | succ depth ih =>
      simp only [apply]
      apply Cut.bind (cut_tick limit n)
      intro _ n₁ _
      cases f with
      | s₂ g h =>
          apply Cut.bind (ih g x n₁)
          intro function n₂ _
          apply Cut.bind (ih h x n₂)
          intro argument n₃ _
          exact ih function argument n₃
      | _ => exact Cut.of_idle rfl

namespace Value

variable {limit : Option Int} {depth : Nat} {f x r : Value} {m n : Nat}

/-- An application that comes to a value has counted at least its own step. -/
theorem lt_of_apply_ok (happly : apply limit depth f x m = .ok r n) :
    m < n := by
  have hcount := congrArg finalState (apply_none_of_ok happly)
  rw [apply_none_eq_counted, History.finalState_counted] at hcount
  cases depth with
  | zero => cases happly
  | succ depth =>
      simp only [history, History.cons, List.length_cons, finalState] at hcount
      omega

end Value

namespace Machine

theorem cut_step (o : Options) (limit : Int) (t : Token) (m : Machine) :
    Cut Machine.steps (.fault (.stepLimit limit)) limit m.steps
      (step { o with limit := none } t m)
      (step { o with limit := some limit } t m) := by
  cases t with
  | atom a => exact Cut.of_idle rfl
  | apply =>
      rcases m.stack_cases with hshort | ⟨f, x, below, hstack⟩
      · rw [step_apply_of_short hshort, step_apply_of_short hshort]
        exact Cut.of_idle rfl
      · rw [step_apply_eq_settle hstack, step_apply_eq_settle hstack]
        exact (Value.cut_apply limit o.depth f x m.steps).map
          (settle o f x { m with stack := below }) (steps_settle o f x _)
            fun _ => ⟨_, rfl⟩

theorem run_eq_bind {o : Options} {m : Machine} {t : Token} {rest : List Token}
    (hpending : m.pending = t :: rest) :
    run o m = (step o t >>= fun _ => run o : EStateM RunError Machine Unit)
      { m with pending := rest } := by
  rw [run_of_pending_cons o hpending]
  simp only [Bind.bind, EStateM.bind]
  cases step o t { m with pending := rest } <;> rfl

/-- The relation of one token to the allowance carries over to the run, along
the readings of the run without an allowance. -/
theorem cut_run (o : Options) (limit : Int) (m : Machine) :
    Cut Machine.steps (.fault (.stepLimit limit)) limit m.steps
      (run { o with limit := none } m)
      (run { o with limit := some limit } m) := by
  induction m using run.induct { o with limit := none } with
  | case1 m hpending =>
      rw [run_of_pending_nil _ hpending, run_of_pending_nil _ hpending]
      exact Cut.of_idle rfl
  | case2 m t rest hpending m₁ hstep ih =>
      rw [run_eq_bind hpending, run_eq_bind hpending]
      apply Cut.bind (cut_step o limit t { m with pending := rest })
      intro _ m₂ hok
      rw [hstep] at hok
      cases hok
      exact ih
  | case3 m t rest hpending e m₁ hstep =>
      rw [run_eq_bind hpending, run_eq_bind hpending]
      apply Cut.bind (cut_step o limit t { m with pending := rest })
      intro _ m₂ hok
      rw [hstep] at hok
      cases hok

/-- Nothing but the stack can change when a run is concluded. -/
theorem finalState_conclude (r : Result Unit) :
    ∃ stack, finalState (conclude r) =
      { finalState r with stack := stack } := by
  cases r with
  | error e m => exact ⟨m.stack, rfl⟩
  | ok _ m =>
      simp only [conclude]
      split
      · exact ⟨m.stack, rfl⟩
      · exact ⟨[], rfl⟩
      · exact ⟨m.stack, rfl⟩

theorem steps_finalState_conclude (r : Result Unit) :
    (finalState (conclude r)).steps = (finalState r).steps := by
  obtain ⟨stack, hleft⟩ := finalState_conclude r
  rw [hleft]

/-- Without a step allowance an evaluation counts the uses of the rules that it
makes. -/
theorem steps_eval (o : Options) (m : Machine) :
    (finalState (eval { o with limit := none } m)).steps =
      m.steps + (m.uses o).length := by
  rw [eval, steps_finalState_conclude, steps_run]

theorem cut_eval (o : Options) (limit : Int) (m : Machine) :
    Cut Machine.steps (.fault (.stepLimit limit)) limit m.steps
      (eval { o with limit := none } m)
      (eval { o with limit := some limit } m) := by
  exact (cut_run o limit m).map conclude steps_finalState_conclude
    fun _ => ⟨_, rfl⟩

/-- The step allowance is exact.  From every state, in both modes and under
every nesting bound, an evaluation without an allowance counts the uses of the
rules that it makes.  If it makes none, or if the count then stands within the
limit, the evaluation under the limit is the same: it has the same outcome and
leaves the same machine.  Otherwise it fails for the limit, and the count stands
at the limit, or where it stood before if that was no lower. -/
theorem eval_limit_exact (o : Options) (m : Machine) (limit : Int) :
    (finalState (eval { o with limit := none } m)).steps =
      m.steps + (m.uses o).length ∧
    if (m.uses o).length = 0 ∨ (m.steps + (m.uses o).length : Int) ≤ limit then
      eval { o with limit := some limit } m = eval { o with limit := none } m
    else
      ∃ left, eval { o with limit := some limit } m =
        .error (.fault (.stepLimit limit)) left ∧
        (left.steps : Int) = max (m.steps : Int) limit := by
  have hcount := steps_eval o m
  obtain ⟨_, hwithin, hbeyond⟩ := cut_eval o limit m
  rw [hcount] at hwithin hbeyond
  refine ⟨hcount, ?_⟩
  split
  · exact hwithin (by omega)
  · exact hbeyond (by omega) (by omega)

end Machine

end Combinatory
