/-
The tree of a value.  The loop keeps values still to be written as trees, heads
that wait for their argument and joins of two finished trees; it never runs out
of trees, and its result is the tree given by recursion on the value.
-/
import Combinatory.Tree.Basic
import Combinatory.Value.Basic

namespace Combinatory.Value

/-- The tree a value stands for, by recursion on the value. -/
def toTree : Value → Tree
  | .s => .leaf .s
  | .k => .leaf .k
  | .i => .leaf .i
  | .s₁ x => .app (.leaf .s) x.toTree
  | .k₁ x => .app (.leaf .k) x.toTree
  | .s₂ x y => .app (.app (.leaf .s) x.toTree) y.toTree

/-- A pending piece of work: write a value, give a head its argument, or join
two trees. -/
inductive LowerTask where
  | value (v : Value)
  | head (a : Atom)
  | join

/-- An upper bound on the rounds a task takes, its subtasks included. -/
def LowerTask.cost : LowerTask → Nat
  | .value v => 3 * v.length
  | .head _ | .join => 1

theorem length_pos (v : Value) : 0 < v.length := by
  cases v <;> unfold length <;> omega

/-- Work off the tasks; there is no result when a task finds too few trees. -/
def lowerLoop : List LowerTask → List Tree → Option (List Tree)
  | [], built => some built
  | .value .s :: todo, built => lowerLoop todo (.leaf .s :: built)
  | .value .k :: todo, built => lowerLoop todo (.leaf .k :: built)
  | .value .i :: todo, built => lowerLoop todo (.leaf .i :: built)
  | .value (.s₁ x) :: todo, built =>
    lowerLoop (.value x :: .head .s :: todo) built
  | .value (.k₁ x) :: todo, built =>
    lowerLoop (.value x :: .head .k :: todo) built
  | .value (.s₂ x y) :: todo, built =>
    lowerLoop (.value x :: .head .s :: .value y :: .join :: todo) built
  | .head a :: todo, argument :: built =>
    lowerLoop todo (.app (.leaf a) argument :: built)
  | .join :: todo, argument :: function :: built =>
    lowerLoop todo (.app function argument :: built)
  | .head _ :: _, _ => none
  | .join :: _, _ => none
termination_by todo => todo.foldr (fun task rounds => task.cost + rounds) 0
decreasing_by
  all_goals
    simp only [List.foldr_cons, LowerTask.cost, length]
    omega

def lower? (v : Value) : Option Tree :=
  match lowerLoop [.value v] [] with
  | some (t :: _) => some t
  | _ => none

theorem lowerLoop_value (v : Value) (todo : List LowerTask)
    (built : List Tree) :
    lowerLoop (.value v :: todo) built =
      lowerLoop todo (v.toTree :: built) := by
  induction v generalizing todo built with
  | s | k | i => simp [lowerLoop, toTree]
  | s₁ x ih | k₁ x ih => rw [lowerLoop, ih, lowerLoop, toTree]
  | s₂ x y ihx ihy => rw [lowerLoop, ihx, lowerLoop, ihy, lowerLoop, toTree]

theorem lower?_eq (v : Value) : v.lower? = some v.toTree := by
  simp [lower?, lowerLoop_value, lowerLoop]

def lower (v : Value) : Tree := v.lower?.get (by simp [lower?_eq])

@[simp] theorem lower_eq (v : Value) : v.lower = v.toTree := by
  simp [lower, lower?_eq]

/-- The word of a value: the prefix order of its tree. -/
def word (v : Value) : Word := v.lower.serialize

@[simp] theorem word_eq (v : Value) : v.word = v.toTree.tokens := by
  simp [word]

def render (v : Value) : String := v.word.text

end Combinatory.Value
