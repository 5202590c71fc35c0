/-
The meaning of a tree: the argument first, then the function, then the
application of the one to the other, with the steps counted from left to right
in that order.  The machine reads the word of a tree backwards and so meets the
three in the same order: it ends with the meaning on top of an untouched stack,
or with the failure of the meaning.
-/
import Combinatory.Evaluate
import Combinatory.Proofs.Formula
import Combinatory.Proofs.Modes

namespace Combinatory

namespace Tree

/-- The value of a tree by recursion on the tree. -/
def meaning (limit : Option Int) (depth : Nat) : Tree → Counting Value
  | .leaf a => return .ofAtom a
  | .app f x => do
    let argument ← x.meaning limit depth
    let function ← f.meaning limit depth
    Value.apply limit depth function argument

theorem meaning_app (limit : Option Int) (depth : Nat) (f x : Tree) (n : Nat) :
    meaning limit depth (.app f x) n =
      match x.meaning limit depth n with
      | .error e n => .error e n
      | .ok argument n =>
        match f.meaning limit depth n with
        | .error e n => .error e n
        | .ok function n => Value.apply limit depth function argument n := by
  simp only [meaning, bind, EStateM.bind]
  cases x.meaning limit depth n with
  | error e n => rfl
  | ok argument n =>
      simp only
      cases f.meaning limit depth n <;> rfl

/-- An application has a meaning if its argument, its function and their
application have one. -/
theorem meaning_app_eq_ok_iff {limit : Option Int}
    {depth n stop : Nat} {f x : Tree} {v : Value} :
    meaning limit depth (.app f x) n = .ok v stop ↔
      ∃ argument n₁ function n₂, x.meaning limit depth n = .ok argument n₁ ∧
        f.meaning limit depth n₁ = .ok function n₂ ∧
        Value.apply limit depth function argument n₂ = .ok v stop := by
  rw [meaning_app]
  constructor
  · intro h
    split at h
    · contradiction
    · next argument n₁ hargument =>
      split at h
      · contradiction
      · next function n₂ hfunction =>
        exact ⟨argument, n₁, function, n₂, hargument, hfunction, h⟩
  · rintro ⟨argument, n₁, function, n₂, hargument, hfunction, happly⟩
    simp only [hargument, hfunction, happly]

end Tree

namespace Machine

variable {o : Options}

/-- The word of a tree loads the meaning of the tree. -/
theorem loads_tokens (hmode : o.mode = .direct) {t : Tree}
    {n stop : Nat} {v : Value}
    (hmeaning : t.meaning o.limit o.depth n = .ok v stop) :
    Loads o t.tokens n v stop := by
  induction t generalizing n stop v with
  | leaf a =>
      cases hmeaning
      exact loads_atom o a n
  | app f x ihf ihx =>
      obtain ⟨argument, n₁, function, n₂, hargument, hfunction, happly⟩ :=
        Tree.meaning_app_eq_ok_iff.1 hmeaning
      exact (ihx hargument).app (ihf hfunction)
        (held_of_direct hmode function) happly

/-- Where the meaning of a tree fails, the machine fails in the same way and at
the same count. -/
theorem run_tokens_error (hmode : o.mode = .direct) {t : Tree}
    {m : Machine} {stop : Nat} {fault : Fault}
    (hmeaning : t.meaning o.limit o.depth m.steps = .error fault stop) :
    ∃ left, run o (m.join t.tokens) = .error (.fault fault) left ∧
      left.steps = stop := by
  induction t generalizing m stop with
  | leaf a => cases hmeaning
  | app f x ihf ihx =>
      change ∃ left, run o (m.join ([.apply] ++ (f.tokens ++ x.tokens))) = _ ∧ _
      rw [join_append, join_append]
      rw [Tree.meaning_app] at hmeaning
      split at hmeaning
      · next e n₁ hargument =>
        cases hmeaning
        exact ihx (m := (m.join [.apply]).join f.tokens) hargument
      · next argument n₁ hargument =>
        obtain ⟨log, hreach⟩ :=
          loads_tokens hmode hargument ((m.join [.apply]).join f.tokens) rfl
        rw [run_eq_of_reaches hreach]
        let loaded : Machine :=
          { m with stack := argument :: m.stack, steps := n₁, log := log }
        split at hmeaning
        · next e n₂ hfunction =>
          cases hmeaning
          exact ihf (m := loaded.join [.apply]) hfunction
        · next function n₂ hfunction =>
          obtain ⟨log', hreach'⟩ :=
            loads_tokens hmode hfunction (loaded.join [.apply]) rfl
          let ready : Machine :=
            { loaded with
              stack := function :: argument :: m.stack
              steps := n₂
              log := log' }
          have hfail : run o (ready.join [.apply]) =
              .error (.fault fault)
                { ready with stack := m.stack, steps := stop } :=
            run_of_next_error
              (next_of_step_error rfl (step_apply_of_error rfl hmeaning))
          exact ⟨_, (run_eq_of_reaches hreach').trans hfail, rfl⟩

theorem ofWord_eq_join (w : Word) : ofWord w = join { pending := [] } w := by
  simp [ofWord, join]

theorem eval_of_run_ok {m last : Machine} {v : Value}
    (hrun : run o m = .ok () last) (hstack : last.stack = [v]) :
    eval o m = .ok v.word { last with stack := [] } := by
  simp only [eval, conclude, hrun, hstack]

/-- A fresh machine on a word that loads a value ends with that value. -/
theorem Loads.eval_ofWord {w : Word} {v : Value} {n : Nat}
    (h : Loads o w 0 v n) :
    ∃ m, (ofWord w).eval o = .ok v.word m ∧ m.steps = n := by
  obtain ⟨log, hreach⟩ := h { pending := [] } rfl
  rw [← ofWord_eq_join] at hreach
  have hrun := (run_eq_of_reaches hreach).trans (run_of_pending_nil o rfl)
  exact ⟨_, eval_of_run_ok hrun rfl, rfl⟩

theorem eval_of_run_error {m left : Machine} {e : RunError}
    (hrun : run o m = .error e left) : eval o m = .error e left := by
  simp only [eval, conclude, hrun]

end Machine

namespace Evaluation

def answer (e : Evaluation) : Except EvalError String :=
  e.outcome.map Word.text

theorem answer_ofWord (o : Options) (w : Word) :
    (ofWord o w).answer =
      match ((Machine.ofWord w).eval o).shown.1 with
      | .ok result => .ok result.text
      | .error e => .error (.run e) := by
  unfold ofWord
  cases (Machine.ofWord w).eval o <;> rfl

theorem answer_ofWord_eq_ok {o : Options} {w : Word} {result : String}
    (h : (ofWord o w).answer = .ok result) :
    ∃ last v, (Machine.ofWord w).run o = .ok () last ∧ last.stack = [v] ∧
      result = v.render := by
  rw [answer_ofWord] at h
  unfold Machine.eval Machine.conclude at h
  split at h
  · next hok =>
    split at hok
    · contradiction
    · next last hrun =>
      split at hok
      · contradiction
      · next v hstack =>
        cases hok
        cases h
        exact ⟨last, v, hrun, hstack, rfl⟩
      · contradiction
  · contradiction

end Evaluation

theorem Value.render_eq (v : Value) : v.render = v.toTree.text := by
  rw [Value.render, Value.word, Value.lower_eq, Tree.text]

theorem evaluate_text (o : Options) (t : Tree) :
    evaluate o t.text = Evaluation.ofWord o t.tokens := by
  simp only [evaluate, Word.ofFormula_text]

/-- In direct mode the text of a tree is answered with its meaning. -/
theorem answer_evaluate_text {o : Options}
    (hmode : o.mode = .direct) (t : Tree) :
    (evaluate o t.text).answer =
      match t.meaning o.limit o.depth 0 with
      | .ok v _ => .ok v.render
      | .error fault _ => .error (.run (.fault fault)) := by
  rw [evaluate_text]
  split
  · next v n hmeaning =>
    obtain ⟨m, heval, _⟩ := (Machine.loads_tokens hmode hmeaning).eval_ofWord
    rw [Evaluation.answer_ofWord, heval]
    rfl
  · next fault n hmeaning =>
    obtain ⟨left, hrun, _⟩ :=
      Machine.run_tokens_error hmode (m := { pending := [] }) hmeaning
    rw [← Machine.ofWord_eq_join] at hrun
    rw [Evaluation.answer_ofWord, Machine.eval_of_run_error hrun]
    rfl

/-- Without a step allowance the same holds in both modes. -/
theorem answer_evaluate_text_unlimited {o : Options}
    (hlimit : o.limit = none) (t : Tree) :
    (evaluate o t.text).answer =
      match t.meaning none o.depth 0 with
      | .ok v _ => .ok v.render
      | .error fault _ => .error (.run (.fault fault)) := by
  obtain ⟨mode, limit, trace, depth⟩ := o
  subst hlimit
  have hdirect :=
    answer_evaluate_text (o := ⟨.direct, none, trace, depth⟩) rfl t
  cases mode with
  | direct => exact hdirect
  | requeue =>
      rw [← hdirect, evaluate_text, evaluate_text, Evaluation.answer_ofWord,
        Evaluation.answer_ofWord, Machine.eval, Machine.eval,
        Machine.shown_conclude
          (Machine.shown_run_requeue ⟨.requeue, none, trace, depth⟩ _)]

/-- An answer that is found within a step allowance is found without one. -/
theorem answer_evaluate_text_of_limit {o : Options} {t : Tree} {result : String}
    (h : (evaluate o t.text).answer = .ok result) :
    (evaluate { o with limit := none } t.text).answer = .ok result := by
  rw [evaluate_text] at h ⊢
  obtain ⟨last, v, hrun, hstack, rfl⟩ := Evaluation.answer_ofWord_eq_ok h
  rw [Evaluation.answer_ofWord,
    Machine.eval_of_run_ok (Machine.run_none_of_ok hrun) hstack]
  rfl

/-- The machine computes the meaning of the tree whose word it reads, behind any
program, over any stack and from any step count: it comes to the meaning on top
of the stack at the same count, or fails as the meaning fails.  So the text of a
tree is answered with the written meaning or with its fault, and never refused
as a formula. -/
theorem machine_computes_meaning (o : Options) (t : Tree) :
    (∀ m : Machine,
      match t.meaning o.limit o.depth m.steps with
      | .ok v n =>
          ∃ log, Machine.Reaches { o with mode := .direct } (m.join t.serialize)
          { m with stack := v :: m.stack, steps := n, log := log }
      | .error fault n => ∃ left,
          Machine.run { o with mode := .direct } (m.join t.serialize) =
            .error (.fault fault) left ∧ left.steps = n) ∧
    (evaluate { o with mode := .direct } t.text).answer =
      match t.meaning o.limit o.depth 0 with
      | .ok v _ => .ok v.render
      | .error fault _ => .error (.run (.fault fault)) := by
  refine ⟨?_, answer_evaluate_text rfl t⟩
  intro m
  rw [Tree.serialize_eq]
  split
  · next v n hmeaning =>
    exact Machine.loads_tokens (o := { o with mode := .direct }) rfl
      hmeaning m rfl
  · next fault n hmeaning =>
    exact Machine.run_tokens_error
      (o := { o with mode := .direct }) rfl hmeaning

end Combinatory
