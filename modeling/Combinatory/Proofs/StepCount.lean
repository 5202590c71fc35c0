/-
What a run costs.  Every use of the S rule asks for three more uses of rules and
no other rule asks for any, so an application costs one step and three for each
time the S rule fires in it.  A direct run makes one application for each mark
of its program.  A requeueing run makes the same applications, and reads each
result that a rule brought forth once more, at one step for each of its marks.
So the direct run is never the dearer one, and what is answered in requeue mode
within a step allowance is answered in direct mode within the same.
-/
import Combinatory.Proofs.Allowance
import Combinatory.Proofs.NormalForm
import Mathlib.Algebra.GroupWithZero.Nat

namespace Combinatory

/-- Whether one more argument makes the S rule fire, which copies it. -/
def Value.copies : Value → Bool
  | .s₂ _ _ => true
  | .s | .k | .i | .s₁ _ | .k₁ _ => false

/-- How many uses of the S rule there are among the uses of all rules. -/
def copyings (uses : List (Value × Value)) : Nat :=
  uses.countP fun use => use.1.copies

@[simp] theorem copyings_nil : copyings [] = 0 := rfl

@[simp] theorem copyings_cons (use : Value × Value)
    (uses : List (Value × Value)) :
    copyings (use :: uses) = copyings uses + if use.1.copies then 1 else 0 :=
  List.countP_cons ..

@[simp] theorem copyings_append (uses uses' : List (Value × Value)) :
    copyings (uses ++ uses') = copyings uses + copyings uses' :=
  List.countP_append ..

theorem History.exists_of_andThen {h : History}
    {next : Value → History} {v : Value}
    (hvalue : (h.andThen next).value? = some v) :
    ∃ u, h.value? = some u ∧ (next u).value? = some v ∧
      (h.andThen next).uses = h.uses ++ (next u).uses := by
  obtain ⟨uses, _ | u⟩ := h
  · cases hvalue
  · exact ⟨u, rfl, hvalue, rfl⟩

namespace Value

variable {depth : Nat} {f x r : Value}

/-- The S rule asks for three more uses of rules, and no other rule asks for
any. -/
theorem length_uses_history (hvalue : (history depth f x).value? = some r) :
    (history depth f x).uses.length =
      1 + 3 * copyings (history depth f x).uses := by
  induction depth generalizing f x r with
  | zero => cases hvalue
  | succ depth ih =>
      cases f with
      | s₂ g h =>
          obtain ⟨function, hfunction, hrest, hleft⟩ :=
            History.exists_of_andThen hvalue
          obtain ⟨argument, hargument, hlast, hright⟩ :=
            History.exists_of_andThen hrest
          have hg := ih hfunction
          have hh := ih hargument
          have hr := ih hlast
          simp only [history, History.cons, hleft, hright, List.length_cons,
            List.length_append, copyings_cons, copyings_append, copies, if_true]
          omega
      | _ => rfl

/-- A function that takes hold of its argument uses no rule but its own. -/
theorem copyings_history_of_held (hfires : f.fires = false) :
    copyings (history depth f x).uses = 0 := by
  cases depth with
  | zero => rfl
  | succ depth =>
      cases f with
      | s | k | s₁ g => rfl
      | i | k₁ g | s₂ g h => contradiction

theorem count_apply_word (v : Value) : v.word.count .apply = v.length - 1 := by
  have hmarks := v.toTree.markCount_text_add_one
  rw [Tree.text_eq, Word.markCount_text, leaves_toTree] at hmarks
  rw [word_eq]
  omega

theorem apply_eq_ok_iff_history {n stop : Nat} :
    apply none depth f x n = .ok r stop ↔
      (history depth f x).value? = some r ∧
        stop = n + (history depth f x).uses.length := by
  rw [apply_none_eq_counted, History.counted]
  cases (history depth f x).value? with
  | none => simp
  | some v => simp [eq_comm]

end Value

/-- An application in which a rule fires, with the value that it comes to. -/
structure Firing where
  function : Value
  argument : Value
  result : Value

def LogEntry.firing (e : LogEntry) : Firing :=
  ⟨e.function, e.argument, e.result⟩

def Firing.copyings (depth : Nat) (e : Firing) : Nat :=
  Combinatory.copyings (Value.history depth e.function e.argument).uses

/-- What it costs to read the results of the applications once more. -/
def rereadings (firings : List Firing) : Nat :=
  (firings.map fun e => e.result.length - 1).sum

theorem rereadings_cons (e : LogEntry) (firings : List Firing) :
    rereadings (e.firing :: firings) =
      e.result.length - 1 + rereadings firings :=
  List.sum_cons

theorem rereadings_reverse (firings : List Firing) :
    rereadings firings.reverse = rereadings firings := by
  rw [rereadings, List.map_reverse, List.sum_reverse, rereadings]

/-- The logged applications in which a rule fires. -/
def firedIn (log : List LogEntry) : List Firing :=
  (log.filter fun e => e.function.fires).map LogEntry.firing

namespace Machine

variable {o : Options} {m m' last : Machine}

/-- The applications in which a rule fires when a program is read in direct
mode, each for one mark of the program and in the order of the reading. -/
def fired (depth : Nat) : List Token → List Value → List Firing
  | [], _ => []
  | .atom a :: pending, stack => fired depth pending (.ofAtom a :: stack)
  | .apply :: pending, f :: x :: below =>
    match (Value.history depth f x).value? with
    | some r =>
      if f.fires then ⟨f, x, r⟩ :: fired depth pending (r :: below)
      else fired depth pending (r :: below)
    | none => []
  | .apply :: _, _ => []

/-- No rule fires while a value is rebuilt from its word. -/
theorem fired_word {depth : Nat} (hdepth : 0 < depth) (v : Value)
    (pending : List Token) (stack : List Value) :
    fired depth (v.word.reverse ++ pending) stack =
      fired depth pending (v :: stack) := by
  obtain ⟨depth, rfl⟩ :=
    Nat.exists_eq_succ_of_ne_zero (Nat.pos_iff_ne_zero.1 hdepth)
  rw [Value.word_eq]
  induction v generalizing pending stack with
  | s | k | i => rfl
  | s₁ x ih | k₁ x ih =>
      simp only [Value.toTree, Tree.tokens, List.reverse_cons,
        List.append_assoc, List.cons_append, List.nil_append, ih]
      rfl
  | s₂ x y ihx ihy =>
      simp only [Value.toTree, Tree.tokens, List.reverse_cons,
        List.reverse_append, List.append_assoc, List.cons_append,
        List.nil_append, ihx, ihy]
      rfl

def marks (m : Machine) : Nat := m.pending.count .apply

/-- The applications in which a rule will fire, if the program is read in direct
mode. -/
def firings (o : Options) (m : Machine) : List Firing :=
  fired o.depth m.pending m.stack

/-- What the reading of a token puts to account: an atom costs nothing; a mark
is an application with its history, which takes hold of its argument or fires a
rule.  In requeue mode the marks of a fired result are to be read in their
turn. -/
inductive Reading (o : Options) (m m' : Machine) : Prop where
  | push (uses : m.uses o = m'.uses o) (marks : m.marks = m'.marks)
      (firings : m.firings o = m'.firings o) (log : m'.log = m.log)
  | hold (e : LogEntry) (fires : e.function.fires = false)
      (value : (Value.history o.depth e.function e.argument).value? =
        some e.result)
      (uses : m.uses o = (Value.history o.depth e.function e.argument).uses ++
        m'.uses o)
      (marks : m.marks = m'.marks + 1) (firings : m.firings o = m'.firings o)
      (log : o.trace = true → m'.log = e :: m.log)
  | fire (e : LogEntry) (fires : e.function.fires = true)
      (value : (Value.history o.depth e.function e.argument).value? =
        some e.result)
      (uses : m.uses o = (Value.history o.depth e.function e.argument).uses ++
        m'.uses o)
      (marks : m.marks +
        (if o.mode = .requeue then e.result.length - 1 else 0) = m'.marks + 1)
      (firings : m.firings o = e.firing :: m'.firings o)
      (log : o.trace = true → m'.log = e :: m.log)

@[simp] theorem log_deliver (o : Options) (f v : Value) (m : Machine) :
    (m.deliver o f v).log = m.log := by
  unfold deliver
  split <;> rfl

theorem log_record (htrace : o.trace = true) (e : LogEntry) (m : Machine) :
    (m.record o e).log = e :: m.log := by
  simp [record, htrace]

@[simp] theorem marks_record (o : Options) (e : LogEntry) (m : Machine) :
    (m.record o e).marks = m.marks := by
  rw [marks, pending_record, marks]

theorem marks_deliver (o : Options) (f v : Value) (m : Machine) :
    (m.deliver o f v).marks =
      (if o.mode = .requeue ∧ f.fires = true then v.length - 1 else 0) +
        m.marks := by
  unfold deliver
  split
  · rw [marks, join, List.count_append, List.count_reverse,
      Value.count_apply_word, marks]
  · rw [Nat.zero_add]
    rfl

/-- Wherever a result goes, the rules that fire from then on are those that fire
with the result on the stack. -/
theorem firings_deliver (hdepth : 0 < o.depth) (f v : Value) (m : Machine) :
    (m.deliver o f v).firings o = fired o.depth m.pending (v :: m.stack) := by
  unfold deliver
  split
  · exact fired_word hdepth v m.pending m.stack
  · rfl

theorem uses_of_step (hlimit : o.limit = none) {t : Token} {rest : List Token}
    (hpending : m.pending = t :: rest)
    (hstep : step o t { m with pending := rest } = .ok () m') :
    m.uses o = tokenUses o.depth t m.stack ++ m'.uses o := by
  obtain ⟨mode, limit, trace, depth⟩ := o
  subst hlimit
  rw [uses_of_pending_cons _ hpending, hstep]

theorem reading_of_advances (hlimit : o.limit = none) (h : Advances o m m') :
    Reading o m m' := by
  obtain ⟨t, rest, hpending, hstep⟩ := exists_step_of_advances h
  have huses := uses_of_step hlimit hpending hstep
  rcases step_eq_ok hstep with
    ⟨a, rfl, rfl⟩ | ⟨f, x, below, r, n, rfl, hstack, happly, rfl⟩
  · refine .push huses ?_ ?_ rfl
    · simp [marks, hpending, push]
    · simp [firings, hpending, push, fired]
  · have hdepth := Value.depth_pos_of_apply happly
    have hvalue := (Value.apply_eq_ok_iff_history.1 (hlimit ▸ happly)).1
    have hmarks :
        m.marks = marks { m with pending := rest, stack := below, steps := n } +
          1 := by
      simp [marks, hpending]
    have hfirings :
        m.firings o = fired o.depth (.apply :: rest) (f :: x :: below) := by
      rw [firings, hpending]
      exact congrArg _ hstack
    rw [show m.stack = f :: x :: below from hstack, tokenUses] at huses
    cases hfires : f.fires with
    | false =>
        refine .hold ⟨n, f, x, r⟩ hfires hvalue huses ?_ ?_ ?_
        · rw [hmarks, marks_deliver, marks_record]
          simp [hfires]
        · rw [hfirings, firings_deliver hdepth]
          simp [fired, hvalue, hfires]
        · intro htrace
          rw [log_deliver, log_record htrace]
    | true =>
        refine .fire ⟨n, f, x, r⟩ hfires hvalue huses ?_ ?_ ?_
        · rw [hmarks, marks_deliver, marks_record]
          simp only [hfires, and_true]
          omega
        · rw [hfirings, firings_deliver hdepth]
          simp [fired, hvalue, hfires, LogEntry.firing]
        · intro htrace
          rw [log_deliver, log_record htrace]

/-- A run that is read to its end costs a step for each mark of its program,
three for each time the S rule fires and, in requeue mode, what the rereadings
cost. -/
theorem length_uses (hlimit : o.limit = none) (hreach : Reaches o m last)
    (hempty : last.pending = []) :
    (m.uses o).length = m.marks + 3 * copyings (m.uses o) +
      if o.mode = .requeue then rereadings (m.firings o) else 0 := by
  induction hreach using Relation.ReflTransGen.head_induction_on with
  | refl =>
      simp [uses_of_pending_nil o hempty, marks, firings, hempty,
        fired, rereadings]
  | head hadvance _ ih =>
      cases reading_of_advances hlimit hadvance with
      | push huses hmarks hfirings _ => rw [huses, hmarks, hfirings, ih]
      | hold e _ hvalue huses hmarks hfirings _ =>
          have hcost := Value.length_uses_history hvalue
          rw [huses, hfirings, List.length_append, copyings_append]
          omega
      | fire e _ hvalue huses hmarks hfirings _ =>
          have hcost := Value.length_uses_history hvalue
          rw [huses, hfirings, List.length_append, copyings_append,
            rereadings_cons]
          -- In requeue mode the rest has the marks of the result to read, which
          -- are its atoms less one; they are what this entry adds to the
          -- rereadings.
          split at hmarks
          · next hmode =>
            rw [if_pos hmode] at ih ⊢
            omega
          · next hmode =>
            rw [if_neg hmode] at ih ⊢
            omega

/-- The S rule fires in the same applications in both modes. -/
theorem copyings_uses (hlimit : o.limit = none) (hreach : Reaches o m last)
    (hempty : last.pending = []) :
    copyings (m.uses o) =
      ((m.firings o).map (Firing.copyings o.depth)).sum := by
  induction hreach using Relation.ReflTransGen.head_induction_on with
  | refl => simp [uses_of_pending_nil o hempty, firings, hempty, fired]
  | head hadvance _ ih =>
      cases reading_of_advances hlimit hadvance with
      | push huses _ hfirings _ => rw [huses, hfirings, ih]
      | hold e hfires _ huses _ hfirings _ =>
          rw [huses, hfirings, copyings_append,
            Value.copyings_history_of_held hfires, ih, Nat.zero_add]
      | fire e _ _ huses _ hfirings _ =>
          rw [huses, hfirings, copyings_append, ih, List.map_cons,
            List.sum_cons]
          rfl

/-- A run that is logged logs the applications in which a rule fires, the newest
first. -/
theorem firedIn_log (hlimit : o.limit = none) (htrace : o.trace = true)
    (hreach : Reaches o m last) (hempty : last.pending = []) :
    firedIn last.log = (m.firings o).reverse ++ firedIn m.log := by
  induction hreach using Relation.ReflTransGen.head_induction_on with
  | refl => simp [firings, hempty, fired]
  | head hadvance _ ih =>
      cases reading_of_advances hlimit hadvance with
      | push _ _ hfirings hlog => rw [ih, hfirings, hlog]
      | hold e hfires _ _ _ hfirings hlog =>
          rw [ih, hfirings, hlog htrace]
          simp [firedIn, hfires]
      | fire e hfires _ _ _ hfirings hlog =>
          rw [ih, hfirings, hlog htrace]
          simp [firedIn, hfires]

/-- An evaluation that answers within an allowance has taken no step, or none
beyond it. -/
theorem length_uses_le_of_eval_ok {limit : Int} {result : Word}
    (heval : m.eval { o with limit := some limit } = .ok result last) :
    (m.uses o).length = 0 ∨ (m.steps + (m.uses o).length : Int) ≤ limit := by
  have hbeyond := (cut_eval o limit m).beyond
  rw [steps_eval, heval] at hbeyond
  by_contra hmore
  obtain ⟨left, hleft, _⟩ := hbeyond (by omega) (by omega)
  cases hleft

theorem eval_limit_eq {limit : Int} (hsteps : (m.uses o).length = 0 ∨
      (m.steps + (m.uses o).length : Int) ≤ limit) :
    m.eval { o with limit := some limit } =
      m.eval { o with limit := none } := by
  have hwithin := (cut_eval o limit m).within
  rw [steps_eval] at hwithin
  exact hwithin (by omega)

theorem marks_ofWord (t : Tree) :
    (ofWord t.tokens).marks = markCount t.text := by
  rw [Tree.text_eq, Word.markCount_text, marks, ofWord, List.count_reverse]

end Machine

variable {o o' : Options} {t : Tree} {result : String}

/-- Without a step allowance the answer depends on nothing but the nesting
bound. -/
theorem answer_of_depth_eq (h : (evaluate o t.text).answer = .ok result)
    (hlimit : o.limit = none)
    (hlimit' : o'.limit = none) (hdepth : o'.depth = o.depth) :
    (evaluate o' t.text).answer = .ok result := by
  rw [← h, answer_evaluate_text_unlimited hlimit,
    answer_evaluate_text_unlimited hlimit', hdepth]

/-- The steps and the log of the machine on a text that is answered without a
step allowance. -/
structure Account (o : Options) (t : Tree) (left : Machine) : Prop where
  machine : (evaluate o t.text).machine = some left
  steps : left.steps = ((Machine.ofWord t.tokens).uses o).length
  uses : ((Machine.ofWord t.tokens).uses o).length =
    markCount t.text + 3 * copyings ((Machine.ofWord t.tokens).uses o) +
      if o.mode = .requeue then rereadings ((Machine.ofWord t.tokens).firings o)
      else 0
  copyings : copyings ((Machine.ofWord t.tokens).uses o) =
    (((Machine.ofWord t.tokens).firings o).map (Firing.copyings o.depth)).sum
  log : o.trace = true →
    firedIn left.log = ((Machine.ofWord t.tokens).firings o).reverse

theorem exists_account (hlimit : o.limit = none)
    (h : (evaluate o t.text).answer = .ok result) :
    ∃ left, Account o t left := by
  rw [evaluate_text] at h
  obtain ⟨last, v, hrun, hstack, _⟩ := Evaluation.answer_ofWord_eq_ok h
  obtain ⟨hreach, hempty⟩ := Machine.reaches_of_run_ok hrun
  have huses := Machine.length_uses hlimit hreach hempty
  rw [Machine.marks_ofWord] at huses
  refine ⟨{ last with stack := [] }, ?_, ?_, huses,
    Machine.copyings_uses hlimit hreach hempty, ?_⟩
  · rw [evaluate_text, Evaluation.ofWord, Machine.eval_of_run_ok hrun hstack]
  · have hsteps := Machine.steps_run o (Machine.ofWord t.tokens)
    rw [← hlimit, hrun] at hsteps
    exact hsteps.trans (Nat.zero_add _)
  · intro htrace
    have hlog := Machine.firedIn_log hlimit htrace hreach hempty
    exact hlog.trans (List.append_nil _)

/-- The direct run takes no more steps than the requeueing one. -/
theorem length_uses_direct_le
    (h : (evaluate { o with mode := .requeue, limit := none } t.text).answer =
      .ok result) :
    ((Machine.ofWord t.tokens).uses
        { o with mode := .direct, limit := none }).length ≤
      ((Machine.ofWord t.tokens).uses
        { o with mode := .requeue, limit := none }).length := by
  have hdirect :
      (evaluate { o with mode := .direct, limit := none } t.text).answer =
        .ok result :=
    answer_of_depth_eq h rfl rfl rfl
  obtain ⟨_, direct⟩ := exists_account rfl hdirect
  obtain ⟨_, requeue⟩ := exists_account rfl h
  have hcopyings := direct.copyings.trans requeue.copyings.symm
  rw [direct.uses, requeue.uses, hcopyings]
  simp

/-- So an allowance that is enough for the requeueing run is enough for the
direct one. -/
theorem answer_direct_of_requeue
    (h : (evaluate { o with mode := .requeue } t.text).answer = .ok result) :
    (evaluate { o with mode := .direct } t.text).answer = .ok result := by
  have hrequeue := answer_evaluate_text_of_limit h
  have hdirect :
      (evaluate { o with mode := .direct, limit := none } t.text).answer =
        .ok result :=
    answer_of_depth_eq hrequeue rfl rfl rfl
  obtain ⟨mode, _ | limit, trace, depth⟩ := o
  · exact hdirect
  · have hle :
        ((Machine.ofWord t.tokens).uses
          ⟨.direct, none, trace, depth⟩).length ≤
          ((Machine.ofWord t.tokens).uses
            ⟨.requeue, none, trace, depth⟩).length :=
      length_uses_direct_le (o := ⟨mode, none, trace, depth⟩) hrequeue
    -- The requeueing run has stayed within the allowance, and the direct one
    -- takes no more steps.
    rw [evaluate_text] at h hdirect ⊢
    obtain ⟨last, v, hrun, hstack, _⟩ := Evaluation.answer_ofWord_eq_ok h
    have hspent :=
      Machine.length_uses_le_of_eval_ok (o := ⟨.requeue, none, trace, depth⟩)
        (Machine.eval_of_run_ok hrun hstack)
    have hsame :
        (Machine.ofWord t.tokens).eval ⟨.direct, some limit, trace, depth⟩ =
          (Machine.ofWord t.tokens).eval ⟨.direct, none, trace, depth⟩ :=
      Machine.eval_limit_eq (o := ⟨.direct, none, trace, depth⟩) (by omega)
    rw [← hdirect, Evaluation.answer_ofWord, Evaluation.answer_ofWord, hsame]

/-- The steps of an evaluation, to the last one.  If a formula is answered
without a step allowance, the direct run has counted one step for each of its
marks and three for each time the S rule fired.  The requeueing run, in which
the S rule fires just as often, has counted in addition, for each application
for a mark of the direct run in which a rule fired, the atoms of the result less
one; these applications are what the direct run logs.  So a formula that is
answered in requeue mode within a step allowance is answered alike in direct
mode within the same. -/
theorem evaluate_counts_steps (o : Options) :
    (∀ text result,
      (evaluate { o with limit := none } text).answer = .ok result →
      ∃ w direct requeue traced, Word.ofFormula text = .ok w ∧
        (evaluate { o with mode := .direct, limit := none } text).machine =
          some direct ∧
        (evaluate { o with mode := .requeue, limit := none } text).machine =
          some requeue ∧
        (evaluate { o with mode := .direct, limit := none, trace := true }
          text).machine = some traced ∧
        direct.steps = markCount text +
          3 * copyings
            ((Machine.ofWord w).uses
              { o with mode := .direct, limit := none }) ∧
        requeue.steps = markCount text +
          3 * copyings
            ((Machine.ofWord w).uses
              { o with mode := .requeue, limit := none }) +
          rereadings (firedIn traced.log) ∧
        copyings
          ((Machine.ofWord w).uses { o with mode := .requeue, limit := none }) =
          copyings
            ((Machine.ofWord w).uses
              { o with mode := .direct, limit := none })) ∧
    ∀ text result,
      (evaluate { o with mode := .requeue } text).answer = .ok result →
      (evaluate { o with mode := .direct } text).answer = .ok result := by
  constructor
  · intro text result hanswer
    obtain ⟨t, rfl⟩ := (isFormula_of_answer hanswer).exists_tree
    have haccount : ∀ o' : Options, o'.limit = none → o'.depth = o.depth →
        ∃ left, Account o' t left := by
      intro o' hlimit hdepth
      exact exists_account hlimit (answer_of_depth_eq hanswer rfl hlimit hdepth)
    obtain ⟨direct, hdirect⟩ :=
      haccount { o with mode := .direct, limit := none } rfl rfl
    obtain ⟨requeue, hrequeue⟩ :=
      haccount { o with mode := .requeue, limit := none } rfl rfl
    obtain ⟨traced, htraced⟩ :=
      haccount { o with mode := .direct, limit := none, trace := true } rfl rfl
    refine ⟨t.tokens, direct, requeue, traced, Word.ofFormula_text t,
      hdirect.machine, hrequeue.machine, htraced.machine, ?_, ?_, ?_⟩
    · exact hdirect.steps.trans hdirect.uses
    · rw [htraced.log rfl, rereadings_reverse]
      exact hrequeue.steps.trans hrequeue.uses
    · exact hrequeue.copyings.trans hdirect.copyings.symm
  · intro text result hanswer
    obtain ⟨t, rfl⟩ := (isFormula_of_answer hanswer).exists_tree
    exact answer_direct_of_requeue hanswer

/-- The S rule fires twice, and the only application for a mark in which a rule
fires comes to a value of four atoms. -/
theorem evaluate_counts_steps_siiskii :
    ∃ text result w direct requeue traced, text = "```sii``s`kii" ∧
      result = "``s`kii" ∧
      (evaluate {} text).answer = .ok result ∧ Word.ofFormula text = .ok w ∧
      (evaluate {} text).machine = some direct ∧
      (evaluate { mode := .requeue } text).machine = some requeue ∧
      (evaluate { trace := true } text).machine = some traced ∧
      direct.steps = 6 + 3 * 2 ∧ requeue.steps = 6 + 3 * 2 + (4 - 1) ∧
      copyings ((Machine.ofWord w).uses {}) = 2 ∧
      rereadings (firedIn traced.log) = 4 - 1 ∧
      (evaluate { mode := .requeue, limit := some 15 } text).answer =
        .ok result ∧
      (evaluate { limit := some 15 } text).answer = .ok result := by
  have hanswer : (evaluate {} "```sii``s`kii").answer = .ok "``s`kii" := by cbv
  have hcapped :
      (evaluate { mode := .requeue, limit := some 15 } "```sii``s`kii").answer =
      .ok "``s`kii" := by cbv
  obtain ⟨w, direct, requeue, traced, hword, hdirect, hrequeue, htraced, hsteps,
    hsteps', hsame⟩ :=
    (evaluate_counts_steps {}).1 _ _ hanswer
  have hmarks : markCount "```sii``s`kii" = 6 := by decide
  have hcopyings : direct.steps = markCount "```sii``s`kii" +
      3 * copyings ((Machine.ofWord w).uses {}) := hsteps
  have hcount : ((evaluate {} "```sii``s`kii").machine.map Machine.steps) =
      some 12 := by cbv
  have hcount' :
      ((evaluate { mode := .requeue } "```sii``s`kii").machine.map
        Machine.steps) =
      some 15 := by cbv
  rw [hdirect, Option.map_some, Option.some.injEq] at hcount
  rw [hrequeue, Option.map_some, Option.some.injEq] at hcount'
  exact ⟨_, _, w, direct, requeue, traced, rfl, rfl, hanswer, hword, hdirect,
    hrequeue, htraced, hcount, hcount', by omega, by omega, hcapped,
    (evaluate_counts_steps { limit := some 15 }).2 _ _ hcapped⟩

end Combinatory
