/-
A machine that is evaluated again and again.  While the word of a formula is
read, the stack is as high as the counter of the program that is still unread.
A token that is read without failure keeps the distance between the two, also
when its result is written back.  A token that fails takes its operands with it,
or finds no operands and leaves an empty stack under a program that asks for
some; either way the stack is too low from then on.  At the end of the program
the counter asks for one value, and a stack that is too low has none.
-/
import Combinatory.Proofs.Allowance
import Combinatory.Proofs.Grammar

namespace Combinatory.Machine

variable {o : Options} {m m' : Machine} {k : Nat}

/-- The height at which the stack has to stand for the pending tokens to leave
exactly one value. -/
def demand (pending : List Token) : Int := 1 + Word.balance pending

/-- After each of the pending tokens, those that are left ask for at least one
value. -/
def Demanding : List Token → Prop
  | [] => True
  | _ :: rest => 0 < demand rest ∧ Demanding rest

@[simp] theorem demand_nil : demand [] = 1 := rfl

@[simp] theorem demand_atom (a : Atom) (pending : List Token) :
    demand (.atom a :: pending) = demand pending - 1 := by
  simp only [demand, Word.balance_cons, Token.balance]
  omega

@[simp] theorem demand_apply (pending : List Token) :
    demand (.apply :: pending) = demand pending + 1 := by
  simp only [demand, Word.balance_cons, Token.balance]
  omega

theorem demand_append (v pending : List Token) :
    demand (v ++ pending) = demand v + demand pending - 1 := by
  simp only [demand, Word.balance_append]
  omega

theorem demanding_append {v pending : List Token} (hv : Demanding v)
    (hpending : Demanding pending)
    (hpos : 0 < demand pending) : Demanding (v ++ pending) := by
  induction v with
  | nil => exact hpending
  | cons t v ih =>
      refine ⟨?_, ih hv.2⟩
      change 0 < demand (v ++ pending)
      have := hv.1
      rw [demand_append]
      omega

theorem demand_tokens_reverse (t : Tree) : demand t.tokens.reverse = 0 := by
  rw [demand, Word.balance_reverse, Word.balance_tokens]
  rfl

/-- No proper beginning of a formula is complete, so as long as a formula is
read from its end, the rest of it asks for a value. -/
theorem demanding_tokens_reverse (t : Tree) : Demanding t.tokens.reverse := by
  induction t with
  | leaf a => exact ⟨by simp, trivial⟩
  | app f x ihf ihx =>
      have hmark : Demanding [.apply] := ⟨by simp, trivial⟩
      have hf : Demanding (f.tokens.reverse ++ [.apply]) :=
        demanding_append ihf hmark (by simp)
      simp only [Tree.tokens, List.reverse_cons, List.reverse_append,
        List.append_assoc]
      apply demanding_append ihx hf
      rw [demand_append, demand_tokens_reverse, demand_apply, demand_nil]
      omega

/-- The machine is `missing` values short of what its program asks for. -/
structure Lacks (missing : Nat) (m : Machine) : Prop where
  demanding : Demanding m.pending
  height : (m.stack.length : Int) + missing = demand m.pending

theorem lacks_ofWord (t : Tree) : Lacks 0 (ofWord t.tokens) where
  demanding := demanding_tokens_reverse t
  height := (demand_tokens_reverse t).symm

/-- A token that does not fail leaves the machine as short as it was. -/
theorem Lacks.advances (hlacks : Lacks k m) (hadvance : Advances o m m') :
    Lacks k m' := by
  obtain ⟨hdemanding, hheight⟩ := hlacks
  obtain ⟨t, rest, hpending, hstep⟩ := exists_step_of_advances hadvance
  rw [hpending] at hdemanding hheight
  rcases step_eq_ok hstep with
    ⟨a, rfl, rfl⟩ | ⟨f, x, below, v, n, rfl, hstack, _, rfl⟩
  · refine ⟨hdemanding.2, ?_⟩
    rw [demand_atom] at hheight
    simp only [push, List.length_cons]
    omega
  · simp only at hstack
    rw [demand_apply, hstack, List.length_cons, List.length_cons] at hheight
    unfold deliver
    split
    · constructor
      · simp only [join, pending_record, Value.word_eq]
        exact demanding_append
          (demanding_tokens_reverse _) hdemanding.2 hdemanding.1
      · simp only [join, pending_record, stack_record, Value.word_eq,
          demand_append, demand_tokens_reverse]
        omega
    · constructor
      · simp only [push, pending_record]
        exact hdemanding.2
      · simp only [push, pending_record, stack_record, List.length_cons]
        omega

theorem Lacks.reaches (hlacks : Lacks k m) (hreach : Reaches o m m') :
    Lacks k m' := by
  induction hreach with
  | refl => exact hlacks
  | tail _ hlast ih => exact ih.advances hlast

/-- A token that fails leaves the machine short of at least one value, and it
fails for want of operands only if the machine was short already. -/
theorem Lacks.next_error {e : RunError} (hlacks : Lacks k m)
    (hnext : next o m = .error e m') :
    (∃ missing, Lacks (missing + 1) m') ∧
      (e = .formula .notEnoughAtoms ∧ 0 < k ∨ ∃ fault, e = .fault fault) := by
  obtain ⟨hdemanding, hheight⟩ := hlacks
  obtain ⟨t, rest, hpending, hstep⟩ := exists_step_of_next_error hnext
  rw [hpending] at hdemanding hheight
  have hpos := hdemanding.1
  obtain ⟨rfl,
    ⟨hshort, rfl, rfl⟩ | ⟨f, x, below, fault, n, hstack, _, rfl, rfl⟩⟩ :=
    step_eq_error hstep
  · rw [demand_apply] at hheight
    simp only at hshort
    refine ⟨⟨(demand rest - 1).toNat, hdemanding.2, ?_⟩, Or.inl ⟨rfl, by omega⟩⟩
    simp only [List.length_nil]
    omega
  · simp only at hstack
    rw [demand_apply, hstack, List.length_cons, List.length_cons] at hheight
    refine ⟨⟨k, hdemanding.2, ?_⟩, Or.inr ⟨fault, rfl⟩⟩
    simp only
    omega

/-- At the end of the program there is exactly one value, or one is missing. -/
theorem Lacks.stack_of_pending_nil (hlacks : Lacks k m)
    (hempty : m.pending = []) :
    (k = 0 ∧ ∃ v, m.stack = [v]) ∨ (k = 1 ∧ m.stack = []) := by
  have hheight := hlacks.height
  rw [hempty, demand_nil] at hheight
  rcases hstack : m.stack with _ | ⟨v, below⟩
  · rw [hstack, List.length_nil] at hheight
    exact Or.inr ⟨by omega, rfl⟩
  · rw [hstack, List.length_cons] at hheight
    have hbelow : below = [] := List.length_eq_zero_iff.1 (by omega)
    exact Or.inl ⟨by omega, v, by rw [hbelow]⟩

/-- An evaluation answers if nothing is missing and no application fails, and
only then.  Whatever its outcome, something is missing afterwards. -/
theorem Lacks.eval (hlacks : Lacks k m) (o : Options) :
    (∃ missing, Lacks (missing + 1) (finalState (m.eval o))) ∧
      (k = 0 ∧ (∃ result, (m.eval o).shown.1 = .ok result) ∨
        0 < k ∧ (m.eval o).shown.1 = .error (.formula .notEnoughAtoms) ∨
        ∃ fault, (m.eval o).shown.1 = .error (.fault fault)) := by
  rw [Machine.eval]
  rcases run_ends o m with
    ⟨last, hreach, hempty, hrun⟩ | ⟨last, e, left, hreach, hnext, hrun⟩
  · have hlast := hlacks.reaches hreach
    rw [hrun]
    rcases hlast.stack_of_pending_nil hempty with
      ⟨rfl, v, hstack⟩ | ⟨rfl, hstack⟩
    · have hend : conclude (.ok () last) =
          .ok v.word { last with stack := [] } := by
        simp only [conclude, hstack]
      rw [hend]
      exact ⟨⟨0, hlast.demanding, by simp [finalState, hempty]⟩,
        Or.inl ⟨rfl, v.word, rfl⟩⟩
    · have hend : conclude (.ok () last) =
          .error (.formula .notEnoughAtoms) last := by
        simp only [conclude, hstack]
      rw [hend]
      exact ⟨⟨0, hlast⟩, Or.inr (Or.inl ⟨Nat.one_pos, rfl⟩)⟩
  · obtain ⟨hleft, hcause⟩ := (hlacks.reaches hreach).next_error hnext
    rw [hrun]
    refine ⟨hleft, Or.inr ?_⟩
    rcases hcause with ⟨rfl, hk⟩ | ⟨fault, rfl⟩
    · exact Or.inl ⟨hk, rfl⟩
    · exact Or.inr ⟨fault, rfl⟩

/-- A fresh machine on a formula finishes or is abandoned. -/
theorem eval_ofWord_tokens (o : Options) (t : Tree) :
    (∃ result left, (ofWord t.tokens).eval o = .ok result left) ∨
      ∃ fault left, (ofWord t.tokens).eval o = .error (.fault fault) left := by
  have houtcome := ((lacks_ofWord t).eval o).2
  cases heval : (ofWord t.tokens).eval o with
  | ok result left => exact Or.inl ⟨result, left, rfl⟩
  | error e left =>
      rw [heval] at houtcome
      rcases houtcome with ⟨_, _, hok⟩ | ⟨hmissing, _⟩ | ⟨fault, hfault⟩
      · cases hok
      · exact absurd hmissing (Nat.lt_irrefl 0)
      · cases hfault
        exact Or.inr ⟨fault, left, rfl⟩

def afterCalls (o : Options) (m : Machine) : Nat → Machine
  | 0 => m
  | calls + 1 => finalState ((m.afterCalls o calls).eval o)

/-- The outcome of one more evaluation after so many. -/
def callOutcome (o : Options) (m : Machine) (calls : Nat) :
    Except RunError Word :=
  ((m.afterCalls o calls).eval o).shown.1

theorem Lacks.afterCalls (hlacks : Lacks k m) (o : Options) (calls : Nat) :
    ∃ missing, Lacks missing (m.afterCalls o calls) := by
  induction calls with
  | zero => exact ⟨k, hlacks⟩
  | succ calls ih =>
      obtain ⟨missing, hmissing⟩ := ih
      obtain ⟨more, hmore⟩ := (hmissing.eval o).1
      exact ⟨more + 1, hmore⟩

theorem Lacks.afterCalls_succ (hlacks : Lacks k m) (o : Options) (calls : Nat) :
    ∃ missing, Lacks (missing + 1) (m.afterCalls o (calls + 1)) := by
  obtain ⟨missing, hmissing⟩ := hlacks.afterCalls o calls
  exact (hmissing.eval o).1

theorem abandoned_cases {outcome : Except RunError Word}
    (hfault : ∃ fault, outcome = .error (.fault fault)) :
    (∃ limit, outcome = .error (.fault (.stepLimit limit))) ∨
      outcome = .error (.fault .tooDeep) := by
  obtain ⟨fault, rfl⟩ := hfault
  cases fault with
  | stepLimit limit => exact Or.inl ⟨limit, rfl⟩
  | tooDeep => exact Or.inr rfl

/-- Of the evaluations of a machine on a formula, one after the other, the first
answers or is abandoned for its steps or its nesting.  No later one answers:
each finds not enough atoms, if it is not abandoned in its turn.  None of them
finds surplus tokens. -/
theorem only_first_call_answers (o : Options) {w : Word}
    (hvalid : w.validate = .ok ()) :
    ((∃ result, (ofWord w).callOutcome o 0 = .ok result) ∨
      (∃ limit,
        (ofWord w).callOutcome o 0 = .error (.fault (.stepLimit limit))) ∨
      (ofWord w).callOutcome o 0 = .error (.fault .tooDeep)) ∧
    (∀ calls,
      (ofWord w).callOutcome o (calls + 1) = .error (.formula .notEnoughAtoms) ∨
      (∃ limit,
        (ofWord w).callOutcome o (calls + 1) =
          .error (.fault (.stepLimit limit))) ∨
      (ofWord w).callOutcome o (calls + 1) = .error (.fault .tooDeep)) ∧
    ∀ calls, (ofWord w).callOutcome o calls ≠
      .error (.formula .surplusTokens) := by
  obtain ⟨t, rfl⟩ := Word.validate_eq_ok_iff.1 hvalid
  have hfresh := lacks_ofWord t
  refine ⟨?_, ?_, ?_⟩
  · rcases (hfresh.eval o).2 with ⟨_, hanswer⟩ | ⟨hpos, _⟩ | hfault
    · exact Or.inl hanswer
    · exact absurd hpos (Nat.lt_irrefl 0)
    · exact Or.inr (abandoned_cases hfault)
  · intro calls
    obtain ⟨missing, hmissing⟩ := hfresh.afterCalls_succ o calls
    rcases (hmissing.eval o).2 with ⟨hzero, _⟩ | ⟨_, hshort⟩ | hfault
    · exact absurd hzero (Nat.succ_ne_zero missing)
    · exact Or.inl hshort
    · exact Or.inr (abandoned_cases hfault)
  · intro calls hsurplus
    obtain ⟨missing, hmissing⟩ := hfresh.afterCalls o calls
    have houtcome := (hmissing.eval o).2
    rw [callOutcome] at hsurplus
    simp [hsurplus] at houtcome

/-- With one step allowed, the second use of a rule fails, and so does the third
when the machine is evaluated again; the mark that is left then finds no
operands. -/
theorem only_first_call_answers_kiiii :
    ∃ w o, Word.lex "``k`ii`ii" = .ok w ∧ w.validate = .ok () ∧
      o = { mode := .requeue, limit := some 1 } ∧
      (ofWord w).callOutcome o 0 = .error (.fault (.stepLimit 1)) ∧
      (ofWord w).callOutcome o 1 = .error (.fault (.stepLimit 1)) ∧
      (ofWord w).callOutcome o 2 = .error (.formula .notEnoughAtoms) ∧
      (∀ calls,
        (ofWord w).callOutcome o (calls + 1) =
          .error (.formula .notEnoughAtoms) ∨
        (∃ limit,
          (ofWord w).callOutcome o (calls + 1) =
            .error (.fault (.stepLimit limit))) ∨
        (ofWord w).callOutcome o (calls + 1) = .error (.fault .tooDeep)) ∧
      ∀ calls, (ofWord w).callOutcome o calls ≠
        .error (.formula .surplusTokens) := by
  refine ⟨_, _, rfl, rfl, rfl, by cbv, by cbv, by cbv, ?_⟩
  exact (only_first_call_answers { mode := .requeue, limit := some 1 } rfl).2

end Combinatory.Machine
