/-
Every run ends.  In requeue mode the program grows while it is read, but what is
written back is the word of a value and is only rebuilt.  So the program and the
stack of a state foretell how many tokens can still be read: each token of the
program once, and once more the tokens of each result that a rule brings forth.
Every token that is read takes at least one off that number, and a loop that
reads token after token comes to an empty program or to a token that fails.
-/
import Combinatory.Proofs.Run

namespace Combinatory.Machine

variable {o : Options} {m m' : Machine} {n : Nat}

/-- The machine gets from one state to another by reading exactly so many
tokens. -/
inductive ReachesIn (o : Options) : Nat → Machine → Machine → Prop where
  | refl (m : Machine) : ReachesIn o 0 m m
  | head {n : Nat} {m m₁ m' : Machine} : Advances o m m₁ → ReachesIn o n m₁ m' →
      ReachesIn o (n + 1) m m'

theorem exists_reachesIn_of_reaches (h : Reaches o m m') :
    ∃ n, ReachesIn o n m m' := by
  induction h using Relation.ReflTransGen.head_induction_on with
  | refl => exact ⟨0, .refl m'⟩
  | head hadvance _ ih =>
      obtain ⟨n, hrest⟩ := ih
      exact ⟨n + 1, .head hadvance hrest⟩

theorem ReachesIn.reaches (h : ReachesIn o n m m') : Reaches o m m' := by
  induction h with
  | refl m => exact .refl
  | head hadvance _ ih => exact .head hadvance ih

theorem readings_lt_of_advances (h : Advances o m m') :
    readings o.depth m'.pending m'.stack <
      readings o.depth m.pending m.stack := by
  obtain ⟨t, rest, hpending, hstep⟩ := exists_step_of_advances h
  rw [hpending]
  exact readings_lt_of_step hstep

/-- The tokens that were read and those that can still be read are no more than
were foretold. -/
theorem ReachesIn.add_readings_le (h : ReachesIn o n m m') :
    n + readings o.depth m'.pending m'.stack ≤
      readings o.depth m.pending m.stack := by
  induction h with
  | refl m => exact Nat.le_of_eq (Nat.zero_add _)
  | head hadvance _ ih =>
      have hfewer := readings_lt_of_advances hadvance
      omega

/-- A sequence of states, each read from the one before, reaches its terms in as
many tokens. -/
theorem reachesIn_of_sequence {states : Nat → Machine}
    (hadvance : ∀ i, Advances o (states i) (states (i + 1))) (n i : Nat) :
    ReachesIn o n (states i) (states (i + n)) := by
  induction n generalizing i with
  | zero => exact .refl (states i)
  | succ n ih =>
      have hrest := ih (i + 1)
      rw [Nat.add_assoc, Nat.add_comm 1 n] at hrest
      exact .head (hadvance i) hrest

/-- The loop that reads token after token ends, from every program and every
stack, in both modes, under every step allowance and every nesting bound.  After
no more tokens than the program and the stack foretell it comes to a state with
an empty program or to one whose next token fails, and with that state the run
is over.  There is no state from which the reading goes on for ever. -/
theorem loop_terminates (o : Options) (m : Machine) :
    (∃ rounds last, ReachesIn o rounds m last ∧
      rounds ≤ readings o.depth m.pending m.stack ∧
      (last.pending = [] ∧ run o m = .ok () last ∨
        ∃ e left, next o last = .error e left ∧ run o m = .error e left)) ∧
    ¬ ∃ states : Nat → Machine, states 0 = m ∧
      ∀ n, Advances o (states n) (states (n + 1)) := by
  constructor
  · have hbound : ∀ {rounds last}, ReachesIn o rounds m last →
        rounds ≤ readings o.depth m.pending m.stack := by
      intro rounds last hrounds
      exact Nat.le_trans (Nat.le_add_right ..) hrounds.add_readings_le
    rcases run_ends o m with
      ⟨last, hreach, hempty, hrun⟩ | ⟨last, e, left, hreach, hfail, hrun⟩
    · obtain ⟨rounds, hrounds⟩ := exists_reachesIn_of_reaches hreach
      exact ⟨rounds, last, hrounds, hbound hrounds, Or.inl ⟨hempty, hrun⟩⟩
    · obtain ⟨rounds, hrounds⟩ := exists_reachesIn_of_reaches hreach
      exact ⟨rounds, last, hrounds, hbound hrounds,
        Or.inr ⟨e, left, hfail, hrun⟩⟩
  · rintro ⟨states, rfl, hadvance⟩
    -- Such a sequence would read one token more than its first state foretells.
    have hlong := reachesIn_of_sequence hadvance
      (readings o.depth (states 0).pending (states 0).stack + 1) 0
    have hbound := hlong.add_readings_le
    omega

/-- The five tokens of `` `i`ki `` and the three of the result that is written
back. -/
example : readings 1 [.atom .i, .atom .k, .apply, .atom .i, .apply] [] = 8 := by
  cbv

end Combinatory.Machine
