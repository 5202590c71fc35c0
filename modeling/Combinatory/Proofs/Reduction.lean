/-
Reduction of trees.  Three rules contract a tree at its root: `i x` to `x`, `k x
y` to `x` and `s x y z` to `x z (y z)`.  A step contracts one subtree, an
innermost step one that has nothing to contract below its root.  The trees in
which nothing is left to contract are the trees of values.
-/
import Combinatory.Value.Lower
import Mathlib.Logic.Relation

namespace Combinatory

namespace Tree

variable {t u f f' x x' : Tree}

/-- The tree after the rule that applies at its root, if one does. -/
def contract? : Tree → Option Tree
  | .app (.leaf .i) x => some x
  | .app (.app (.leaf .k) x) _ => some x
  | .app (.app (.app (.leaf .s) x) y) z => some (.app (.app x z) (.app y z))
  | _ => none

/-- The subtrees of a tree, the tree itself in front. -/
def subtrees : Tree → List Tree
  | .leaf a => [.leaf a]
  | .app f x => .app f x :: (f.subtrees ++ x.subtrees)

def properSubtrees (t : Tree) : List Tree := t.subtrees.tail

/-- No rule applies anywhere in the tree. -/
def Normal (t : Tree) : Prop := ∀ u ∈ t.subtrees, u.contract? = none

instance : DecidablePred Normal := fun t =>
  inferInstanceAs (Decidable (∀ u ∈ t.subtrees, u.contract? = none))

/-- A rule used at one place of a tree. -/
inductive Within (rule : Tree → Tree → Prop) : Tree → Tree → Prop where
  | here {t u : Tree} : rule t u → Within rule t u
  | function {f f' : Tree} (x : Tree) :
      Within rule f f' → Within rule (.app f x) (.app f' x)
  | argument (f : Tree) {x x' : Tree} :
      Within rule x x' → Within rule (.app f x) (.app f x')

/-- One contraction, anywhere in a tree. -/
def Step : Tree → Tree → Prop := Within fun t u => t.contract? = some u

/-- One contraction of a subtree that has nothing to contract below its root. -/
def InnermostStep : Tree → Tree → Prop :=
  Within fun t u => t.contract? = some u ∧ ∀ s ∈ t.properSubtrees, s.Normal

def Reduces : Tree → Tree → Prop := Relation.ReflTransGen Step

def InnermostReduces : Tree → Tree → Prop := Relation.ReflTransGen InnermostStep

theorem mem_subtrees_self (t : Tree) : t ∈ t.subtrees := by
  cases t <;> simp [subtrees]

theorem contract?_eq_some (h : t.contract? = some u) :
    t = .app (.leaf .i) u ∨ (∃ y, t = .app (.app (.leaf .k) u) y) ∨
      ∃ x y z, t = .app (.app (.app (.leaf .s) x) y) z ∧
        u = .app (.app x z) (.app y z) := by
  unfold contract? at h
  split at h
  · cases h
    exact Or.inl rfl
  · next y =>
    cases h
    exact Or.inr (Or.inl ⟨y, rfl⟩)
  · next x y z =>
    cases h
    exact Or.inr (Or.inr ⟨x, y, z, rfl, rfl⟩)
  · cases h

theorem normal_leaf (a : Atom) : Normal (.leaf a) := by
  intro u hu
  simp only [subtrees, List.mem_singleton] at hu
  rw [hu]
  rfl

theorem normal_app_iff :
    Normal (.app f x) ↔ f.Normal ∧ x.Normal ∧ contract? (.app f x) = none := by
  constructor
  · intro h
    refine ⟨?_, ?_, h _ (mem_subtrees_self _)⟩
    · intro u hu
      exact h u (by simp [subtrees, hu])
    · intro u hu
      exact h u (by simp [subtrees, hu])
  · rintro ⟨hf, hx, hroot⟩ u hu
    simp only [subtrees, List.mem_cons, List.mem_append] at hu
    rcases hu with rfl | hu | hu
    · exact hroot
    · exact hf u hu
    · exact hx u hu

theorem Normal.of_mem_subtrees (ht : t.Normal) (hu : u ∈ t.subtrees) :
    u.Normal := by
  induction t with
  | leaf a =>
      simp only [subtrees, List.mem_singleton] at hu
      rw [hu]
      exact ht
  | app f x ihf ihx =>
      have happ := normal_app_iff.1 ht
      simp only [subtrees, List.mem_cons, List.mem_append] at hu
      rcases hu with rfl | hu | hu
      · exact ht
      · exact ihf happ.1 hu
      · exact ihx happ.2.1 hu

/-- Below the root of an application stand its function and its argument. -/
theorem forall_properSubtrees_app_iff :
    (∀ s ∈ properSubtrees (.app f x), s.Normal) ↔ f.Normal ∧ x.Normal := by
  simp only [properSubtrees, subtrees, List.tail_cons, List.mem_append]
  constructor
  · intro h
    exact ⟨h f (Or.inl (mem_subtrees_self f)),
      h x (Or.inr (mem_subtrees_self x))⟩
  · rintro ⟨hf, hx⟩ s hs
    rcases hs with hs | hs
    · exact hf.of_mem_subtrees hs
    · exact hx.of_mem_subtrees hs

theorem Within.mono {rule rule' : Tree → Tree → Prop}
    (hrule : ∀ t u, rule t u → rule' t u)
    (h : Within rule t u) : Within rule' t u := by
  induction h with
  | here h => exact .here (hrule _ _ h)
  | function x _ ih => exact .function x ih
  | argument f _ ih => exact .argument f ih

/-- Reductions of the function and of the argument make up one of the
application. -/
theorem reflTransGen_within_app {rule : Tree → Tree → Prop}
    (hf : Relation.ReflTransGen (Within rule) f f')
    (hx : Relation.ReflTransGen (Within rule) x x') :
    Relation.ReflTransGen (Within rule) (.app f x) (.app f' x') := by
  have hleft : Relation.ReflTransGen (Within rule) (.app f x) (.app f' x) := by
    induction hf with
    | refl => exact .refl
    | tail _ hlast ih => exact ih.tail (.function x hlast)
  have hright : Relation.ReflTransGen (Within rule) (.app f' x)
      (.app f' x') := by
    induction hx with
    | refl => exact .refl
    | tail _ hlast ih => exact ih.tail (.argument f' hlast)
  exact hleft.trans hright

theorem InnermostStep.step (h : InnermostStep t u) : Step t u :=
  Within.mono (fun _ _ hrule => hrule.1) h

theorem InnermostReduces.reduces (h : InnermostReduces t u) : Reduces t u := by
  induction h with
  | refl => exact .refl
  | tail _ hlast ih => exact ih.tail hlast.step

/-- Nothing is left to do in a normal tree. -/
theorem Normal.not_step (ht : t.Normal) : ¬ Step t u := by
  intro hstep
  induction hstep with
  | here hroot =>
      have hnone := ht _ (mem_subtrees_self _)
      rw [hroot] at hnone
      cases hnone
  | function x _ ih => exact ih (normal_app_iff.1 ht).1
  | argument f _ ih => exact ih (normal_app_iff.1 ht).2.1

theorem Normal.eq_of_reduces (ht : t.Normal) (h : Reduces t u) : u = t := by
  rcases Relation.ReflTransGen.cases_head h with heq | ⟨v, hstep, _⟩
  · exact heq.symm
  · exact absurd hstep ht.not_step

end Tree

namespace Value

theorem normal_toTree (v : Value) : v.toTree.Normal := by
  induction v with
  | s => exact Tree.normal_leaf .s
  | k => exact Tree.normal_leaf .k
  | i => exact Tree.normal_leaf .i
  | s₁ x ih => exact Tree.normal_app_iff.2 ⟨Tree.normal_leaf .s, ih, rfl⟩
  | k₁ x ih => exact Tree.normal_app_iff.2 ⟨Tree.normal_leaf .k, ih, rfl⟩
  | s₂ x y ihx ihy =>
      have hinner := Tree.normal_app_iff.2 ⟨Tree.normal_leaf .s, ihx, rfl⟩
      exact Tree.normal_app_iff.2 ⟨hinner, ihy, rfl⟩

/-- Every normal tree is the tree of a value: an atom, or one that holds too few
arguments. -/
theorem exists_toTree_eq_of_normal {t : Tree} (ht : t.Normal) :
    ∃ v : Value, v.toTree = t := by
  induction t with
  | leaf a =>
      cases a with
      | s => exact ⟨.s, rfl⟩
      | k => exact ⟨.k, rfl⟩
      | i => exact ⟨.i, rfl⟩
  | app f x ihf ihx =>
      obtain ⟨hf, hx, hroot⟩ := Tree.normal_app_iff.1 ht
      obtain ⟨vf, rfl⟩ := ihf hf
      obtain ⟨vx, rfl⟩ := ihx hx
      cases vf with
      | s => exact ⟨.s₁ vx, rfl⟩
      | k => exact ⟨.k₁ vx, rfl⟩
      | s₁ g => exact ⟨.s₂ g vx, rfl⟩
      | i => cases hroot
      | k₁ g => cases hroot
      | s₂ g h => cases hroot

end Value

end Combinatory
