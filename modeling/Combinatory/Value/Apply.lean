/-
Application of one value to another, reduced as far as the three rules go.
Every use of a rule costs one step, and the uses inside the S rule are nested
one level deeper than the use that asks for them; a run is abandoned when it has
no step or no level left.
-/
import Combinatory.Complaint
import Combinatory.Value.Basic

namespace Combinatory

/-- A computation that counts its steps, also when it fails. -/
abbrev Counting := EStateM Fault Nat

/-- Count one step, unless the allowance is used up. -/
def tick (limit : Option Int) : Counting Unit := fun steps =>
  match limit with
  | none => .ok () (steps + 1)
  | some n =>
    if n ≤ (steps : Int) then .error (.stepLimit n) steps
    else .ok () (steps + 1)

theorem tick_none_of_ok {limit : Option Int} {m n : Nat}
    (h : tick limit m = .ok () n) : tick none m = .ok () n := by
  unfold tick at h
  split at h
  · exact h
  · split at h
    · cases h
    · exact h

namespace Value

/-- Apply `f` to `x` with at most `depth` applications active at a time. -/
def apply (limit : Option Int) : (depth : Nat) → (f x : Value) → Counting Value
  | 0, _, _ => throw .tooDeep
  | depth + 1, f, x => do
    tick limit
    match f with
    | .s => return .s₁ x
    | .k => return .k₁ x
    | .i => return x
    | .s₁ g => return .s₂ g x
    | .k₁ g => return g
    | .s₂ g h =>
      let function ← apply limit depth g x
      let argument ← apply limit depth h x
      apply limit depth function argument

@[simp] theorem apply_zero (limit : Option Int) (f x : Value) (n : Nat) :
    apply limit 0 f x n = .error .tooDeep n := rfl

@[simp] theorem apply_s (depth : Nat) (x : Value) (n : Nat) :
    apply none (depth + 1) .s x n = .ok (.s₁ x) (n + 1) := rfl

@[simp] theorem apply_k (depth : Nat) (x : Value) (n : Nat) :
    apply none (depth + 1) .k x n = .ok (.k₁ x) (n + 1) := rfl

@[simp] theorem apply_s₁ (depth : Nat) (g x : Value) (n : Nat) :
    apply none (depth + 1) (.s₁ g) x n = .ok (.s₂ g x) (n + 1) := rfl

/-- Application one level down: the step is counted first, then the rule of the
function is used, and the S rule works from the left. -/
theorem apply_succ (limit : Option Int) (depth : Nat) (f x : Value) (n : Nat) :
    apply limit (depth + 1) f x n =
      match tick limit n with
      | .error e n => .error e n
      | .ok () n =>
        match f with
        | .s => .ok (.s₁ x) n
        | .k => .ok (.k₁ x) n
        | .i => .ok x n
        | .s₁ g => .ok (.s₂ g x) n
        | .k₁ g => .ok g n
        | .s₂ g h =>
          match apply limit depth g x n with
          | .error e n => .error e n
          | .ok function n =>
            match apply limit depth h x n with
            | .error e n => .error e n
            | .ok argument n => apply limit depth function argument n := by
  simp only [apply, bind, EStateM.bind]
  cases tick limit n with
  | error e n => rfl
  | ok _ n =>
    cases f with
    | s₂ g h =>
      simp only [EStateM.bind]
      cases apply limit depth g x n with
      | error e n => rfl
      | ok function n =>
        simp only
        cases apply limit depth h x n <;> rfl
    | _ => rfl

section

variable {limit : Option Int} {depth : Nat} {f x r : Value} {m n : Nat}

theorem depth_pos_of_apply (h : apply limit depth f x m = .ok r n) :
    0 < depth := by
  cases depth with
  | zero => simp at h
  | succ depth => exact Nat.succ_pos depth

/-- A reduction that keeps within its step allowance is the same without one. -/
theorem apply_none_of_ok (h : apply limit depth f x m = .ok r n) :
    apply none depth f x m = .ok r n := by
  induction depth generalizing f x r m n with
  | zero => simp at h
  | succ depth ih =>
    rw [apply_succ] at h ⊢
    split at h
    · cases h
    · next htick =>
      rw [tick_none_of_ok htick]
      cases f with
      | s₂ g h' =>
        simp only at h ⊢
        split at h
        · cases h
        · next function _ hfunction =>
          split at h
          · cases h
          · next argument _ hargument =>
            simp only [ih hfunction, ih hargument]
            exact ih h
      | _ => exact h

/-- The same outcome of a count that stands `extra` steps higher. -/
def later {α : Type} (extra : Nat) :
    EStateM.Result Fault Nat α → EStateM.Result Fault Nat α
  | .ok a n => .ok a (n + extra)
  | .error e n => .error e (n + extra)

/-- Without a step allowance, where the count starts is of no consequence. -/
theorem apply_none_add (depth : Nat) (f x : Value) (n extra : Nat) :
    apply none depth f x (n + extra) =
      later extra (apply none depth f x n) := by
  induction depth generalizing f x n with
  | zero => rfl
  | succ depth ih =>
    have hstart : n + extra + 1 = n + 1 + extra := Nat.add_right_comm n extra 1
    rw [apply_succ, apply_succ]
    simp only [tick, hstart]
    cases f with
    | s₂ g h =>
      simp only [ih g x]
      cases apply none depth g x (n + 1) with
      | error e n => rfl
      | ok function n =>
        simp only [later, ih h x]
        cases apply none depth h x n with
        | error e n => rfl
        | ok argument n => exact ih function argument n
    | _ => rfl

theorem apply_none_eq_later (depth : Nat) (f x : Value) (start : Nat) :
    apply none depth f x start = later start (apply none depth f x 0) := by
  rw [← apply_none_add, Nat.zero_add]

theorem apply_without_limit (h : apply limit depth f x m = .ok r n)
    (start : Nat) : ∃ stop, apply none depth f x start = .ok r stop := by
  have hm := apply_none_of_ok h
  rw [apply_none_eq_later] at hm ⊢
  cases hzero : apply none depth f x 0 with
  | ok v stop =>
    rw [hzero] at hm
    cases hm
    exact ⟨_, rfl⟩
  | error e stop =>
    rw [hzero] at hm
    cases hm

theorem apply_none_error {fault : Fault} {stop : Nat}
    (h : apply none depth f x n = .error fault stop) (start : Nat) :
    ∃ stop, apply none depth f x start = .error fault stop := by
  rw [apply_none_eq_later] at h ⊢
  cases hzero : apply none depth f x 0 with
  | ok v stop =>
    rw [hzero] at h
    cases h
  | error e stop =>
    rw [hzero] at h
    cases h
    exact ⟨_, rfl⟩

end

/-- Something put in the place of a function: a value, or a text that is
none. -/
inductive Operand where
  | value (v : Value)
  | text (text : String)

inductive ApplyError where
  | fault (fault : Fault)
  | notCombinator (text : String)

def notCombinatorMessage (text : String) : String :=
  s!"{Text.quoted text} is not a combinator"

/-- Apply an operand.  A text is found out only after its step is counted. -/
def applyOperand (limit : Option Int) (depth : Nat) (f : Operand) (x : Value)
    (steps : Nat) :
    EStateM.Result ApplyError Nat Value :=
  match f with
  | .value f =>
    match apply limit depth f x steps with
    | .ok v n => .ok v n
    | .error e n => .error (.fault e) n
  | .text text =>
    match tick limit steps with
    | .ok () n => .error (.notCombinator text) n
    | .error e n => .error (.fault e) n

end Value

end Combinatory
