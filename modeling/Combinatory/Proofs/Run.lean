/-
Runs taken apart into readings.  A run follows a chain of tokens that are read
without failure; it ends where the program is empty, or at the first token that
fails.  Two machines agree when they have the same program and the same stack,
whatever they counted and logged, and a simulation that keeps agreement token by
token carries the outcome of one run over to another.
-/
import Combinatory.Machine.Run
import Mathlib.Logic.Relation

namespace Combinatory.Machine

variable {o o' : Options} {m m' r : Machine}

theorem join_append (m : Machine) (v w : Word) :
    m.join (v ++ w) = (m.join v).join w := by
  simp [join]

theorem exists_log_record (o : Options) (e : LogEntry) (m : Machine) :
    ∃ log, m.record o e = { m with log := log } := by
  unfold record
  split
  · exact ⟨e :: m.log, rfl⟩
  · exact ⟨m.log, rfl⟩

theorem deliver_eq_push {f : Value}
    (hheld : o.mode = .requeue → f.fires = false)
    (v : Value) (m : Machine) : m.deliver o f v = m.push v := by
  unfold deliver
  rw [if_neg]
  rintro ⟨hmode, hfires⟩
  rw [hheld hmode] at hfires
  contradiction

theorem held_of_direct (hmode : o.mode = .direct) (f : Value) :
    o.mode = .requeue → f.fires = false := by
  simp [hmode]

theorem deliver_eq_join {f : Value} (hmode : o.mode = .requeue)
    (hfires : f.fires = true)
    (v : Value) (m : Machine) : m.deliver o f v = m.join v.word := by
  unfold deliver
  rw [if_pos ⟨hmode, hfires⟩]

/-- The machine reads one token of its program, and the token does not fail. -/
def Advances (o : Options) (m m' : Machine) : Prop :=
  ∃ t, next o m = .ok (some t) m'

/-- The machine gets from one state to another by reading tokens. -/
def Reaches (o : Options) : Machine → Machine → Prop :=
  Relation.ReflTransGen (Advances o)

theorem advances_of_step {t : Token} {rest : List Token}
    (hpending : m.pending = t :: rest)
    (hstep : step o t { m with pending := rest } = .ok () m') :
    Advances o m m' :=
  ⟨t, by simp only [next, hpending, hstep]⟩

theorem exists_step_of_advances (h : Advances o m m') :
    ∃ t rest, m.pending = t :: rest ∧
      step o t { m with pending := rest } = .ok () m' := by
  obtain ⟨_, hnext⟩ := h
  unfold next at hnext
  split at hnext
  · simp at hnext
  · next t rest hpending =>
    split at hnext
    · next hstep =>
      cases hnext
      exact ⟨_, rest, hpending, hstep⟩
    · contradiction

theorem run_eq_of_advances (h : Advances o m m') : run o m = run o m' := by
  obtain ⟨t, rest, hpending, hstep⟩ := exists_step_of_advances h
  rw [run_of_pending_cons o hpending, hstep]

/-- A run goes on from every state that it reaches. -/
theorem run_eq_of_reaches (h : Reaches o m m') : run o m = run o m' := by
  induction h with
  | refl => rfl
  | tail _ hlast ih => exact ih.trans (run_eq_of_advances hlast)

theorem next_of_step_error {t : Token} {rest : List Token} {e : RunError}
    (hpending : m.pending = t :: rest)
    (hstep : step o t { m with pending := rest } = .error e m') :
    next o m = .error e m' := by
  simp only [next, hpending, hstep]

theorem exists_step_of_next_error {e : RunError} (h : next o m = .error e m') :
    ∃ t rest, m.pending = t :: rest ∧
      step o t { m with pending := rest } = .error e m' := by
  unfold next at h
  split at h
  · contradiction
  · next t rest hpending =>
    split at h
    · contradiction
    · next hstep =>
      cases h
      exact ⟨t, rest, hpending, hstep⟩

theorem run_of_next_error {e : RunError} (h : next o m = .error e m') :
    run o m = .error e m' := by
  obtain ⟨t, rest, hpending, hstep⟩ := exists_step_of_next_error h
  rw [run_of_pending_cons o hpending, hstep]

/-- Every run ends: with an empty program, or at a token that fails. -/
theorem run_ends (o : Options) (m : Machine) :
    (∃ last, Reaches o m last ∧ last.pending = [] ∧ run o m = .ok () last) ∨
      ∃ last e m', Reaches o m last ∧ next o last = .error e m' ∧
        run o m = .error e m' := by
  induction m using run.induct o with
  | case1 m hpending =>
      exact Or.inl ⟨m, .refl, hpending, run_of_pending_nil o hpending⟩
  | case2 m t rest hpending m₁ hstep ih =>
      have hadvance := advances_of_step hpending hstep
      rw [run_eq_of_advances hadvance]
      rcases ih with
        ⟨last, hreach, hempty, hrun⟩ | ⟨last, e, m', hreach, hfail, hrun⟩
      · exact Or.inl ⟨last, .head hadvance hreach, hempty, hrun⟩
      · exact Or.inr ⟨last, e, m', .head hadvance hreach, hfail, hrun⟩
  | case3 m t rest hpending e m' hstep =>
      have hfail := next_of_step_error hpending hstep
      exact Or.inr ⟨m, e, m', .refl, hfail, run_of_next_error hfail⟩

theorem reaches_of_run_ok (h : run o m = .ok () m') :
    Reaches o m m' ∧ m'.pending = [] := by
  rcases run_ends o m with ⟨last, hreach, hempty, hrun⟩ | ⟨_, _, _, _, _, hrun⟩
  · rw [hrun] at h
    cases h
    exact ⟨hreach, hempty⟩
  · rw [hrun] at h
    contradiction

/-- Read at the end of any program and over any stack, the word takes the step
count from `start` to `stop`, puts the value on top of the stack and leaves
everything else in its place. -/
def Loads (o : Options) (w : Word) (start : Nat) (v : Value) (stop : Nat) :
    Prop :=
  ∀ m : Machine, m.steps = start →
    ∃ log, Reaches o (m.join w)
      { m with stack := v :: m.stack, steps := stop, log := log }

theorem loads_atom (o : Options) (a : Atom) (n : Nat) :
    Loads o [.atom a] n (.ofAtom a) n := by
  rintro m rfl
  exact ⟨m.log, .single (advances_of_step rfl rfl)⟩

/-- The argument stands behind the function in a word, so it is loaded first and
lies under it when the application mark is read. -/
theorem Loads.app {wf wx : Word} {f x v : Value} {n₀ n₁ n₂ n₃ : Nat}
    (hx : Loads o wx n₀ x n₁) (hf : Loads o wf n₁ f n₂)
    (hheld : o.mode = .requeue → f.fires = false)
    (happly : Value.apply o.limit o.depth f x n₂ = .ok v n₃) :
    Loads o (.apply :: (wf ++ wx)) n₀ v n₃ := by
  intro m hm
  change ∃ log, Reaches o (m.join ([.apply] ++ (wf ++ wx))) _
  rw [join_append, join_append]
  obtain ⟨logX, hreachX⟩ := hx ((m.join [.apply]).join wf) hm
  let loaded : Machine :=
    { m with stack := x :: m.stack, steps := n₁, log := logX }
  obtain ⟨logF, hreachF⟩ := hf (loaded.join [.apply]) rfl
  let ready : Machine :=
    { m with stack := f :: x :: m.stack, steps := n₂, log := logF }
  obtain ⟨log, hlog⟩ := exists_log_record o ⟨n₃, f, x, v⟩
    { ready with stack := m.stack, steps := n₃ }
  have hlast : Advances o (ready.join [.apply])
      { m with stack := v :: m.stack, steps := n₃, log := log } := by
    apply advances_of_step rfl
    rw [step_apply_of_ok rfl happly, deliver_eq_push hheld]
    exact congrArg (fun left => EStateM.Result.ok () (push left v)) hlog
  exact ⟨log, (hreachX.trans hreachF).tail hlast⟩

/-- The two machines have the same program and the same stack. -/
def Agree (m r : Machine) : Prop :=
  m.pending = r.pending ∧ m.stack = r.stack

/-- What an operation shows of itself: its outcome, and the program and the
stack that it leaves.  The counts and the log are left out. -/
def Result.shown {α : Type} : Result α → Except RunError α × Word × List Value
  | .ok a m => (.ok a, m.program, m.stack)
  | .error e m => (.error e, m.program, m.stack)

theorem Agree.program_eq (h : Agree m r) : m.program = r.program :=
  congrArg List.reverse h.1

/-- Delivery depends on the mode only, so it keeps agreement between machines of
one mode. -/
theorem Agree.deliver (h : Agree m r) (hmode : o.mode = o'.mode)
    (e e' : LogEntry) (f v : Value) :
    Agree ((m.record o e).deliver o f v) ((r.record o' e').deliver o' f v) := by
  obtain ⟨hpending, hstack⟩ := h
  unfold Machine.deliver
  rw [hmode]
  split
  · exact ⟨by simp [join, hpending], by simp [join, hstack]⟩
  · exact ⟨by simp [push, hpending], by simp [push, hstack]⟩

/-- Machines under `o'` answer every token that an agreeing machine under `o`
reads, and agree with it again afterwards. -/
def Simulates (o' o : Options) : Prop :=
  ∀ m m' r, Advances o m m' → Agree m r → ∃ r', Reaches o' r r' ∧ Agree m' r'

theorem Simulates.reaches (hsimulates : Simulates o' o)
    (hreach : Reaches o m m')
    (hagree : Agree m r) : ∃ r', Reaches o' r r' ∧ Agree m' r' := by
  induction hreach with
  | refl => exact ⟨r, .refl, hagree⟩
  | tail _ hlast ih =>
      obtain ⟨mid, hmid, hagreeMid⟩ := ih
      obtain ⟨r', hr', hagree'⟩ := hsimulates _ _ mid hlast hagreeMid
      exact ⟨r', hmid.trans hr', hagree'⟩

/-- If failing tokens are answered by the same failure as well, the two runs
show the same. -/
theorem Simulates.shown_run (hsimulates : Simulates o' o)
    (hfail : ∀ m m' r e, next o m = .error e m' → Agree m r →
      ∃ r', next o' r = .error e r' ∧ Agree m' r')
    (hagree : Agree m r) :
    (run o' r).shown = (run o m).shown := by
  rcases run_ends o m with
    ⟨last, hreach, hempty, hrun⟩ | ⟨last, e, m', hreach, herror, hrun⟩
  · obtain ⟨r', hr', hlast⟩ := hsimulates.reaches hreach hagree
    have hend : run o' r' = .ok () r' :=
      run_of_pending_nil o' (hlast.1.symm.trans hempty)
    rw [hrun, run_eq_of_reaches hr', hend]
    simp only [Result.shown, hlast.program_eq, hlast.2]
  · obtain ⟨r', hr', hlast⟩ := hsimulates.reaches hreach hagree
    obtain ⟨r'', herror', hleft⟩ := hfail last m' r' e herror hlast
    rw [hrun, run_eq_of_reaches hr', run_of_next_error herror']
    simp only [Result.shown, hleft.program_eq, hleft.2]

/-- A token that keeps within the step allowance does the same without one. -/
theorem Advances.without_limit (h : Advances o m m') :
    Advances { o with limit := none } m m' := by
  obtain ⟨t, rest, hpending, hstep⟩ := exists_step_of_advances h
  apply advances_of_step hpending
  rcases step_eq_ok hstep with
    ⟨a, rfl, rfl⟩ | ⟨f, x, below, v, n, rfl, hstack, happly, rfl⟩
  · rfl
  · exact step_apply_of_ok hstack (Value.apply_none_of_ok happly)

/-- A run that ends within the step allowance is the same without one. -/
theorem run_none_of_ok (h : run o m = .ok () m') :
    run { o with limit := none } m = .ok () m' := by
  obtain ⟨hreach, hempty⟩ := reaches_of_run_ok h
  have hfree : Reaches { o with limit := none } m m' :=
    Relation.ReflTransGen.mono (fun _ _ => Advances.without_limit) m m' hreach
  rw [run_eq_of_reaches hfree, run_of_pending_nil _ hempty]

end Combinatory.Machine
