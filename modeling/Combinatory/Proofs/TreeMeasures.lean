/-
Depth and size of a tree.  The depth is found by a loop over the subtrees that
are still to be looked at, each with its level.  A round takes the first of them
off and puts the children of an application in its place, so that there is one
round for each node, and when the rounds for a subtree are over the deepest
level has been raised to the end of its longest path and everything behind the
subtree is as it was.  The size is the number of tokens that a tree is written
with.  Since an application has two children, the depth bounds the size from
both sides.
-/
import Combinatory.Proofs.NormalForm
import Mathlib.Algebra.Order.Ring.Nat

namespace Combinatory.Tree

/-- One round of the loop that finds the depth, from what is pending and the
deepest level so far.  When nothing is pending the loop is over and nothing
changes any more. -/
def depthRound : List (Tree × Nat) × Nat → List (Tree × Nat) × Nat
  | ([], deepest) => ([], deepest)
  | ((.leaf _, level) :: pending, deepest) => (pending, max deepest level)
  | ((.app f x, level) :: pending, deepest) =>
    ((x, level + 1) :: (f, level + 1) :: pending, max deepest level)

/-- The loop goes on as it would from the state after one round. -/
theorem depthLoop_eq_round (pending : List (Tree × Nat)) (deepest : Nat) :
    depthLoop pending deepest =
      depthLoop.uncurry (depthRound (pending, deepest)) := by
  rcases pending with _ | ⟨⟨_ | _, level⟩, pending⟩
  · rfl
  · rw [depthLoop]
    rfl
  · rw [depthLoop]
    rfl

theorem depthLoop_eq_rounds (n : Nat) (pending : List (Tree × Nat))
    (deepest : Nat) :
    depthLoop pending deepest =
      depthLoop.uncurry (depthRound^[n] (pending, deepest)) := by
  induction n generalizing pending deepest with
  | zero => rfl
  | succ n ih =>
      rw [Function.iterate_succ_apply, depthLoop_eq_round]
      exact ih _ _

/-- The rounds for a subtree raise the deepest level to the end of its longest
path and leave what is pending behind it in place. -/
theorem depthRound_iterate_nodes (t : Tree) (level : Nat)
    (pending : List (Tree × Nat)) (deepest : Nat) :
    depthRound^[t.nodes] ((t, level) :: pending, deepest) =
      (pending, max deepest (level + t.height)) := by
  induction t generalizing level pending deepest with
  | leaf a => rfl
  | app f x ihf ihx =>
      have hdeepest : max (max (max deepest level) (level + 1 + x.height))
          (level + 1 + f.height) =
          max deepest (level + (app f x).height) := by
        rw [height]
        omega
      -- The argument lies in front of the function, so its rounds come first.
      rw [nodes, Function.iterate_succ_apply, Function.iterate_add_apply,
        depthRound, ihx, ihf, hdeepest]

theorem depthRound_iterate_root (t : Tree) :
    depthRound^[t.nodes] ([(t, 0)], 0) = ([], t.height) := by
  rw [depthRound_iterate_nodes, Nat.zero_add, Nat.zero_max]

/-- The number of nodes that are still to be looked at. -/
def pendingNodes (pending : List (Tree × Nat)) : Nat :=
  (pending.map fun entry => entry.1.nodes).sum

theorem pendingNodes_eq_zero_iff {pending : List (Tree × Nat)} :
    pendingNodes pending = 0 ↔ pending = [] := by
  cases pending with
  | nil => simp [pendingNodes]
  | cons entry pending =>
      have := entry.1.nodes_pos
      simp only [pendingNodes, List.map_cons, List.sum_cons,
        List.cons_ne_nil, iff_false]
      omega

/-- A round looks at one node. -/
theorem pendingNodes_depthRound (state : List (Tree × Nat) × Nat) :
    pendingNodes (depthRound state).1 = pendingNodes state.1 - 1 := by
  obtain ⟨_ | ⟨⟨_ | ⟨f, x⟩, level⟩, pending⟩, deepest⟩ := state
  · rfl
  · simp [depthRound, pendingNodes, nodes]
  · simp only [depthRound, pendingNodes, List.map_cons, List.sum_cons, nodes]
    omega

theorem pendingNodes_iterate (n : Nat) (state : List (Tree × Nat) × Nat) :
    pendingNodes (depthRound^[n] state).1 = pendingNodes state.1 - n := by
  induction n with
  | zero => rfl
  | succ n ih =>
      rw [Function.iterate_succ_apply', pendingNodes_depthRound, ih]
      omega

/-- The loop is over after one round for each node, and no earlier. -/
theorem depthRound_iterate_eq_nil_iff (t : Tree) (n : Nat) :
    (depthRound^[n] ([(t, 0)], 0)).1 = [] ↔ t.nodes ≤ n := by
  rw [← pendingNodes_eq_zero_iff, pendingNodes_iterate]
  simp only [pendingNodes, List.map_cons, List.map_nil,
    List.sum_cons, List.sum_nil]
  omega

theorem size_eq_nodes (t : Tree) : t.size = t.nodes := by
  rw [size, serialize_eq, length_tokens]

theorem depth_eq_height (t : Tree) : t.depth = t.height := by
  rw [depth, depthLoop_eq_rounds t.nodes, depthRound_iterate_root]
  simp only [Function.uncurry_apply_pair, depthLoop]

/-- Every level but the last has an application, and an application has two
children. -/
theorem two_mul_height_lt_nodes (t : Tree) : 2 * t.height < t.nodes := by
  induction t with
  | leaf a => exact Nat.one_pos
  | app f x ihf ihx =>
      rw [height, nodes]
      omega

theorem nodes_lt_two_pow (t : Tree) : t.nodes < 2 ^ (t.height + 1) := by
  induction t with
  | leaf a => simp [nodes, height]
  | app f x ihf ihx =>
      have hf : 2 ^ (f.height + 1) ≤ 2 ^ (max f.height x.height + 1) :=
        Nat.pow_le_pow_right (by decide) (by omega)
      have hx : 2 ^ (x.height + 1) ≤ 2 ^ (max f.height x.height + 1) :=
        Nat.pow_le_pow_right (by decide) (by omega)
      rw [height, nodes, Nat.pow_succ _ (max f.height x.height + 1)]
      omega

/-- The loop that finds the depth may be taken up after any number of its
rounds.  It is over after as many rounds as the tree has nodes, no earlier, and
has found the height of the tree by then.  The size is the number of nodes and
the length of the text, and one less than twice the number of atoms.  It is at
least one more than twice the depth, and less than two to the power of one more
than the depth. -/
theorem measures_exact (t : Tree) :
    (∀ n, t.depth = depthLoop.uncurry (depthRound^[n] ([(t, 0)], 0))) ∧
    (∀ n, (depthRound^[n] ([(t, 0)], 0)).1 = [] ↔ t.size ≤ n) ∧
    depthRound^[t.size] ([(t, 0)], 0) = ([], t.height) ∧ t.depth = t.height ∧
    t.size = t.nodes ∧ t.size = t.text.length ∧
    t.size = 2 * t.leaves - 1 ∧ atomCount t.text = t.leaves ∧
    2 * t.depth + 1 ≤ t.size ∧ t.size ≤ 2 ^ (t.depth + 1) - 1 := by
  have hlength : t.size = t.text.length := by
    rw [size, text, Word.length_text]
  have hatoms : t.size = 2 * t.leaves - 1 := by
    rw [size_eq_nodes, ← nodes_add_one, Nat.add_sub_cancel]
  have hend : depthRound^[t.size] ([(t, 0)], 0) = ([], t.height) := by
    rw [size_eq_nodes, depthRound_iterate_root]
  refine ⟨fun n => depthLoop_eq_rounds n _ _, ?_, hend, depth_eq_height t,
    size_eq_nodes t, hlength, hatoms, atomCount_text t, ?_, ?_⟩
  · rw [size_eq_nodes]
    exact depthRound_iterate_eq_nil_iff t
  · rw [depth_eq_height, size_eq_nodes]
    exact two_mul_height_lt_nodes t
  · rw [depth_eq_height, size_eq_nodes]
    exact Nat.le_sub_one_of_lt (nodes_lt_two_pow t)

end Combinatory.Tree
