/-
Formula trees.  Trees get as deep as formulas are long, so the operations that
run are loops over a list of pending work; each is shown equal to its definition
by recursion on the tree.
-/
import Combinatory.Word.Basic

namespace Combinatory

inductive Tree where
  | leaf (atom : Atom)
  | app (function argument : Tree)
  deriving DecidableEq

namespace Tree

/-- The tokens of a tree in prefix order. -/
def tokens : Tree → Word
  | .leaf a => [.atom a]
  | .app f x => .apply :: (f.tokens ++ x.tokens)

def nodes : Tree → Nat
  | .leaf _ => 1
  | .app f x => f.nodes + x.nodes + 1

def leaves : Tree → Nat
  | .leaf _ => 1
  | .app f x => f.leaves + x.leaves

def height : Tree → Nat
  | .leaf _ => 0
  | .app f x => max f.height x.height + 1

@[simp] theorem length_tokens (t : Tree) : t.tokens.length = t.nodes := by
  induction t with
  | leaf => rfl
  | app f x ihf ihx => simp [tokens, nodes, ihf, ihx]

/-- Write the pending trees after what is already written, newest token
first. -/
def serializeLoop : List Tree → Word → Word
  | [], written => written.reverse
  | .leaf a :: pending, written => serializeLoop pending (.atom a :: written)
  | .app f x :: pending, written =>
    serializeLoop (f :: x :: pending) (.apply :: written)
termination_by pending => pending.foldr (fun t count => t.nodes + count) 0
decreasing_by
  · simp only [List.foldr_cons, nodes]
    omega
  · simp only [List.foldr_cons, nodes]
    omega

def serialize (t : Tree) : Word := serializeLoop [t] []

theorem serializeLoop_eq (pending : List Tree) (written : Word) :
    serializeLoop pending written = written.reverse ++
      pending.flatMap tokens := by
  fun_induction serializeLoop pending written with
  | case1 => simp
  | case2 => simp_all [tokens]
  | case3 => simp_all [tokens]

/-- The loop writes the tokens in prefix order. -/
@[simp] theorem serialize_eq (t : Tree) : t.serialize = t.tokens := by
  simp [serialize, serializeLoop_eq]

def text (t : Tree) : String := t.serialize.text

/-- The deepest level met so far and in the pending subtrees. -/
def depthLoop : List (Tree × Nat) → Nat → Nat
  | [], deepest => deepest
  | (.leaf _, level) :: pending, deepest =>
    depthLoop pending (max deepest level)
  | (.app f x, level) :: pending, deepest =>
    depthLoop ((x, level + 1) :: (f, level + 1) :: pending) (max deepest level)
termination_by pending =>
  pending.foldr (fun entry count => entry.1.nodes + count) 0
decreasing_by
  · simp only [List.foldr_cons, nodes]
    omega
  · simp only [List.foldr_cons, nodes]
    omega

def depth (t : Tree) : Nat := depthLoop [(t, 0)] 0

def size (t : Tree) : Nat := t.serialize.length

end Tree

end Combinatory
