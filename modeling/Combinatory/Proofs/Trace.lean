/-
The log of a run.  Each entry is a true statement: the logged application comes
to the logged result when it is evaluated by itself.  Every application takes at
least its own step, so the counts go up from entry to entry, and the newest
entry has the count of the machine.  A run that is read to its end has logged
one application for each mark that it read: the marks of its formula and, in
requeue mode, those of the results that were written back.
-/
import Combinatory.Proofs.StepCount

namespace Combinatory

def LogEntry.formula (e : LogEntry) : String :=
  "`" ++ e.function.render ++ e.argument.render

/-- The application comes to the logged result with at most `depth` applications
active at a time. -/
def LogEntry.Holds (depth : Nat) (e : LogEntry) : Prop :=
  (Value.history depth e.function e.argument).value? = some e.result

namespace LogEntry

variable {o : Options} {e : LogEntry}

theorem formula_eq (e : LogEntry) :
    e.formula = (Tree.app e.function.toTree e.argument.toTree).text := by
  have hmark : Word.text [.apply] = "`" := rfl
  rw [formula, Value.render_eq, Value.render_eq, Tree.text_eq, Tree.text_eq,
    Tree.text_eq, ← hmark, ← Word.text_append, ← Word.text_append]
  rfl

theorem line_eq (e : LogEntry) :
    ∃ blanks, e.line = String.ofList (List.replicate blanks ' ') ++
      toString e.steps ++ " " ++ e.formula ++ " -> " ++ e.result.render := by
  refine ⟨6 - (toString e.steps).length, ?_⟩
  have hmark : " `" = " " ++ "`" := rfl
  simp only [line, formula, hmark, String.append_assoc]

/-- What an entry of the log says is what an evaluation of its formula answers:
the two operands are rebuilt from their texts, and their application is the
logged one. -/
theorem Holds.answer (h : e.Holds o.depth) (hmode : o.mode = .direct)
    (hlimit : o.limit = none) :
    (evaluate o e.formula).answer = .ok e.result.render := by
  obtain ⟨n, f, x, r⟩ := e
  have happly : ∀ start, Value.apply o.limit o.depth f x start =
      .ok r (start + (Value.history o.depth f x).uses.length) := by
    intro start
    rw [hlimit]
    exact Value.apply_eq_ok_iff_history.2 ⟨h, rfl⟩
  have hdepth : 0 < o.depth := Value.depth_pos_of_apply (happly 0)
  have hloads :=
    (Machine.loads_word hlimit hdepth x 0).app
      (Machine.loads_word hlimit hdepth f _)
      (Machine.held_of_direct hmode f) (happly _)
  obtain ⟨m, heval, _⟩ := hloads.eval_ofWord
  rw [Value.word_eq, Value.word_eq] at heval
  rw [formula_eq, evaluate_text, Evaluation.answer_ofWord]
  simp only [Tree.tokens, heval]
  rfl

end LogEntry

namespace Machine

variable {o : Options} {m m' last : Machine}

/-- The log is true, its counts go up from entry to entry, and the newest one is
the count of the machine. -/
structure Chronicled (depth : Nat) (m : Machine) : Prop where
  holds : ∀ e ∈ m.log, e.Holds depth
  ordered : m.log.Pairwise fun later e => e.steps < later.steps
  newest : ∀ e ∈ m.log.head?, e.steps = m.steps

theorem Chronicled.steps_le {depth : Nat} (h : Chronicled depth m)
    {e : LogEntry} (he : e ∈ m.log) : e.steps ≤ m.steps := by
  obtain ⟨_, hordered, hnewest⟩ := h
  rcases hlog : m.log with _ | ⟨first, rest⟩
  · rw [hlog] at he
    cases he
  · rw [hlog] at he hordered hnewest
    have hfirst : first.steps = m.steps := hnewest first rfl
    rcases List.mem_cons.1 he with rfl | hrest
    · exact Nat.le_of_eq hfirst
    · have hlt := (List.pairwise_cons.1 hordered).1 e hrest
      omega

theorem chronicled_ofWord (depth : Nat) (w : Word) :
    Chronicled depth (ofWord w) :=
  ⟨nofun, .nil, nofun⟩

/-- A token that does not fail keeps the log in order: an atom leaves it as it
is, and a mark adds an application that was made, with a count above all counts
before it. -/
theorem Chronicled.advances (h : Chronicled o.depth m) (htrace : o.trace = true)
    (hadvance : Advances o m m') : Chronicled o.depth m' := by
  obtain ⟨t, rest, _, hstep⟩ := exists_step_of_advances hadvance
  rcases step_eq_ok hstep with
    ⟨a, _, rfl⟩ | ⟨f, x, below, r, n, _, _, happly, rfl⟩
  · exact ⟨h.holds, h.ordered, h.newest⟩
  · have hlt : m.steps < n := Value.lt_of_apply_ok happly
    have hholds : LogEntry.Holds o.depth ⟨n, f, x, r⟩ :=
      (Value.apply_eq_ok_iff_history.1 (Value.apply_none_of_ok happly)).1
    constructor
    · rw [log_deliver, log_record htrace]
      intro e he
      rcases List.mem_cons.1 he with rfl | he
      · exact hholds
      · exact h.holds e he
    · rw [log_deliver, log_record htrace, List.pairwise_cons]
      exact ⟨fun e he => Nat.lt_of_le_of_lt (h.steps_le he) hlt, h.ordered⟩
    · rw [log_deliver, log_record htrace, steps_deliver, steps_record]
      rintro e ⟨⟩
      rfl

theorem Chronicled.reaches (h : Chronicled o.depth m) (htrace : o.trace = true)
    (hreach : Reaches o m m') : Chronicled o.depth m' := by
  induction hreach with
  | refl => exact h
  | tail _ hlast ih => exact ih.advances htrace hlast

theorem log_finalState_conclude (r : Result Unit) :
    (finalState (conclude r)).log = (finalState r).log := by
  obtain ⟨stack, hleft⟩ := finalState_conclude r
  rw [hleft]

/-- A token that fails is not logged, so the log of an evaluation is that of a
state it reaches. -/
theorem exists_reaches_log (o : Options) (m : Machine) :
    ∃ last, Reaches o m last ∧ (finalState (m.eval o)).log = last.log := by
  rw [eval, log_finalState_conclude]
  rcases run_ends o m with
    ⟨last, hreach, _, hrun⟩ | ⟨last, e, left, hreach, hnext, hrun⟩
  · exact ⟨last, hreach, by rw [hrun]; rfl⟩
  · refine ⟨last, hreach, ?_⟩
    rw [hrun]
    obtain ⟨t, rest, _, hstep⟩ := exists_step_of_next_error hnext
    obtain ⟨_, ⟨_, _, rfl⟩ | ⟨f, x, below, fault, n, _, _, _, rfl⟩⟩ :=
      step_eq_error hstep <;> rfl

/-- A run that is read to its end has logged its marks and, in requeue mode, the
marks of the results that it read once more. -/
theorem length_log (hlimit : o.limit = none) (htrace : o.trace = true)
    (hreach : Reaches o m last) (hempty : last.pending = []) :
    last.log.length = m.log.length + m.marks +
      if o.mode = .requeue then rereadings (m.firings o) else 0 := by
  induction hreach using Relation.ReflTransGen.head_induction_on with
  | refl => simp [marks, firings, hempty, fired, rereadings]
  | head hadvance _ ih =>
      cases reading_of_advances hlimit hadvance with
      | push _ hmarks hfirings hlog => rw [ih, hmarks, hfirings, hlog]
      | hold e _ _ _ hmarks hfirings hlog =>
          rw [ih, hfirings, hlog htrace, List.length_cons]
          omega
      | fire e _ _ _ hmarks hfirings hlog =>
          rw [ih, hfirings, hlog htrace, List.length_cons, rereadings_cons]
          split at hmarks
          · next hmode =>
            rw [if_pos hmode, if_pos hmode]
            omega
          · next hmode =>
            rw [if_neg hmode, if_neg hmode]
            omega

end Machine

variable {o : Options} {t : Tree} {result : String}

theorem machine_evaluate_text (o : Options) (t : Tree) :
    (evaluate o t.text).machine =
      some (finalState ((Machine.ofWord t.tokens).eval o)) := by
  rw [evaluate_text, Evaluation.ofWord]
  cases (Machine.ofWord t.tokens).eval o <;> rfl

theorem lines_evaluate_text (o : Options) (t : Tree) :
    (evaluate o t.text).lines =
      (finalState
        ((Machine.ofWord t.tokens).eval o)).log.reverse.map LogEntry.line := by
  rw [Evaluation.lines, machine_evaluate_text]
  rfl

/-- In direct mode a text is answered as it is in either mode, within the same
step allowance. -/
theorem answer_direct_of_answer
    (hanswer : (evaluate o t.text).answer = .ok result) :
    (evaluate { o with mode := .direct } t.text).answer = .ok result := by
  obtain ⟨_ | _, limit, trace, depth⟩ := o
  · exact hanswer
  · exact answer_direct_of_requeue
      (o := ⟨.requeue, limit, trace, depth⟩) hanswer

/-- The log that the machine leaves when it answers: it is in order to the end,
it has an entry for each mark that was read, and it tells which rules fired. -/
structure Complete (o : Options) (t : Tree) (left : Machine) : Prop where
  chronicled : left.Chronicled o.depth
  length : left.log.length = markCount t.text +
    if o.mode = .requeue then rereadings ((Machine.ofWord t.tokens).firings o)
    else 0
  fired : firedIn left.log = ((Machine.ofWord t.tokens).firings o).reverse

/-- The step allowance is of no account here, because a run that ends within it
is the same without it. -/
theorem complete_of_answer (htrace : o.trace = true)
    (hanswer : (evaluate o t.text).answer = .ok result) :
    Complete o t (finalState ((Machine.ofWord t.tokens).eval o)) := by
  rw [evaluate_text] at hanswer
  obtain ⟨last, v, hrun, hstack, _⟩ := Evaluation.answer_ofWord_eq_ok hanswer
  rw [Machine.eval_of_run_ok hrun hstack]
  have hlast : last.Chronicled o.depth :=
    (Machine.chronicled_ofWord o.depth t.tokens).reaches htrace
      (Machine.reaches_of_run_ok hrun).1
  obtain ⟨hreach, hempty⟩ :=
    Machine.reaches_of_run_ok (Machine.run_none_of_ok hrun)
  have hlength :=
    Machine.length_log (o := { o with limit := none }) rfl htrace hreach hempty
  have hstart : (Machine.ofWord t.tokens).log.length = 0 := rfl
  rw [hstart, Nat.zero_add, Machine.marks_ofWord] at hlength
  have hfired :=
    Machine.firedIn_log (o := { o with limit := none }) rfl htrace hreach hempty
  exact ⟨⟨hlast.holds, hlast.ordered, hlast.newest⟩, hlength,
    hfired.trans (List.append_nil _)⟩

/-- The log of a run is true and complete.  Each line is made of a step count,
the formula of an application and a result, and the formula by itself is
answered with the result in direct mode, without a step allowance and under the
same nesting bound.  The counts go up from line to line.  If the run answers,
the last line has the final count; there is a line for each mark of the formula
and, in requeue mode, as many more as the results of the direct run that a rule
brought forth have atoms less one. -/
theorem trace_is_true_and_complete (htrace : o.trace = true) {text : String}
    (htext : IsFormula text) :
    ∃ (left : Machine) (entries : List LogEntry),
      (evaluate o text).machine = some left ∧
      (evaluate o text).lines = entries.map LogEntry.line ∧
      (∀ e ∈ entries,
        (∃ blanks, e.line = String.ofList (List.replicate blanks ' ') ++
          toString e.steps ++ " " ++ e.formula ++ " -> " ++
          e.result.render) ∧
        (evaluate { o with mode := .direct, limit := none } e.formula).answer =
          .ok e.result.render) ∧
      entries.Pairwise (fun e later => e.steps < later.steps) ∧
      ∀ result, (evaluate o text).answer = .ok result →
        (∀ e ∈ entries.getLast?, e.steps = left.steps) ∧
        ∃ direct,
          (evaluate { o with mode := .direct } text).answer = .ok result ∧
          (evaluate { o with mode := .direct } text).machine = some direct ∧
          entries.length = markCount text +
            if o.mode = .requeue then
              rereadings (firedIn direct.log)
            else 0 := by
  obtain ⟨t, rfl⟩ := htext.exists_tree
  obtain ⟨last, hreach, hlog⟩ :=
    Machine.exists_reaches_log o (Machine.ofWord t.tokens)
  have hlast :=
    (Machine.chronicled_ofWord o.depth t.tokens).reaches htrace hreach
  refine ⟨_, _, machine_evaluate_text o t, lines_evaluate_text o t, ?_, ?_, ?_⟩
  · intro e he
    rw [List.mem_reverse, hlog] at he
    have hholds := hlast.holds e he
    exact ⟨e.line_eq,
      hholds.answer (o := { o with mode := .direct, limit := none }) rfl rfl⟩
  · rw [List.pairwise_reverse, hlog]
    exact hlast.ordered
  · intro result hanswer
    have hcomplete := complete_of_answer htrace hanswer
    have hdirect := answer_direct_of_answer hanswer
    have hcomplete' :=
      complete_of_answer (o := { o with mode := .direct }) htrace hdirect
    refine ⟨?_, _, hdirect, machine_evaluate_text _ t, ?_⟩
    · rw [List.getLast?_reverse]
      exact hcomplete.chronicled.newest
    · rw [List.length_reverse, hcomplete.length, hcomplete'.fired,
        rereadings_reverse]
      rfl

/-- The result of the identity is written back and read once more, which makes a
third line for a formula of two marks. -/
theorem trace_is_true_and_complete_iki :
    ∃ (o : Options) (left : Machine) (entries : List LogEntry),
      o = { mode := .requeue, limit := some 3, trace := true } ∧
      o.trace = true ∧
      IsFormula "`i`ki" ∧ (evaluate o "`i`ki").answer = .ok "`ki" ∧
      (evaluate o "`i`ki").machine = some left ∧
      (evaluate o "`i`ki").lines = entries.map LogEntry.line ∧
      entries.map LogEntry.line =
        ["     1 `ki -> `ki", "     2 `i`ki -> `ki", "     3 `ki -> `ki"] ∧
      (∀ e ∈ entries,
        (evaluate { trace := true } e.formula).answer = .ok e.result.render) ∧
      entries.Pairwise (fun e later => e.steps < later.steps) ∧
      (∀ e ∈ entries.getLast?, e.steps = left.steps) ∧
      ∃ direct,
        (evaluate { o with mode := .direct } "`i`ki").machine = some direct ∧
        entries.length = 2 + rereadings (firedIn direct.log) := by
  let o : Options := { mode := .requeue, limit := some 3, trace := true }
  have htext : IsFormula "`i`ki" := ⟨_, rfl⟩
  have hanswer : (evaluate o "`i`ki").answer = .ok "`ki" := by cbv
  have hlines : (evaluate o "`i`ki").lines =
      ["     1 `ki -> `ki", "     2 `i`ki -> `ki", "     3 `ki -> `ki"] := by
    cbv
  obtain ⟨left, entries, hmachine, hentries, htrue, hordered, hcomplete⟩ :=
    trace_is_true_and_complete (o := o) rfl htext
  obtain ⟨hlast, direct, _, hdirect, hlength⟩ := hcomplete _ hanswer
  exact ⟨o, left, entries, rfl, rfl, htext, hanswer, hmachine, hentries,
    hentries.symm.trans hlines, fun e he => (htrue e he).2, hordered, hlast,
    direct, hdirect, hlength⟩

end Combinatory
