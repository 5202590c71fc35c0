/-
Answers do not depend on the order of reduction.  A parallel step contracts any
number of subtrees at once, and whatever it contracts, a second one completes it
to the full development of the tree; so parallel steps have the diamond
property, reduction is confluent, and convertible trees have at most one normal
tree between them.
-/
import Combinatory.Proofs.Innermost

namespace Combinatory

namespace Tree

variable {t u v : Tree}

/-- Any number of subtrees contracted at once, none of them made by the
contraction of another. -/
inductive Parallel : Tree → Tree → Prop where
  | leaf (a : Atom) : Parallel (.leaf a) (.leaf a)
  | app {f f' x x' : Tree} : Parallel f f' → Parallel x x' →
      Parallel (.app f x) (.app f' x')
  | i {x x' : Tree} : Parallel x x' → Parallel (.app (.leaf .i) x) x'
  | k {x x' : Tree} (y : Tree) :
      Parallel x x' → Parallel (.app (.app (.leaf .k) x) y) x'
  | s {x x' y y' z z' : Tree} : Parallel x x' → Parallel y y' → Parallel z z' →
      Parallel (.app (.app (.app (.leaf .s) x) y) z)
        (.app (.app x' z') (.app y' z'))

/-- All subtrees that can be contracted, contracted at once. -/
def develop : Tree → Tree
  | .app (.leaf .i) x => x.develop
  | .app (.app (.leaf .k) x) _ => x.develop
  | .app (.app (.app (.leaf .s) x) y) z =>
    .app (.app x.develop z.develop) (.app y.develop z.develop)
  | .app f x => .app f.develop x.develop
  | .leaf a => .leaf a

theorem Parallel.refl (t : Tree) : Parallel t t := by
  induction t with
  | leaf a => exact .leaf a
  | app f x ihf ihx => exact .app ihf ihx

theorem Parallel.of_step (h : Step t u) : Parallel t u := by
  induction h with
  | here hroot =>
      rcases contract?_eq_some hroot with rfl | ⟨y, rfl⟩ | ⟨x, y, z, rfl, rfl⟩
      · exact .i (refl _)
      · exact .k y (refl _)
      · exact .s (refl x) (refl y) (refl z)
  | function x _ ih => exact .app ih (refl x)
  | argument f _ ih => exact .app (refl f) ih

theorem Reduces.app {f f' x x' : Tree} (hf : Reduces f f') (hx : Reduces x x') :
    Reduces (.app f x) (.app f' x') :=
  reflTransGen_within_app hf hx

theorem Parallel.reduces (h : Parallel t u) : Reduces t u := by
  induction h with
  | leaf a => exact .refl
  | app _ _ ihf ihx => exact ihf.app ihx
  | i _ ih => exact .head (.here rfl) ih
  | k y _ ih => exact .head (.here rfl) ih
  | s _ _ _ ihx ihy ihz =>
      exact .head (.here rfl) ((ihx.app ihz).app (ihy.app ihz))

/-- A head other than `i` holds on to its first argument. -/
theorem Parallel.of_held_one {a : Atom} (ha : a ≠ .i) {x : Tree}
    (h : Parallel (.app (.leaf a) x) u) :
    ∃ x', u = .app (.leaf a) x' ∧ Parallel x x' := by
  cases h with
  | app hhead hx =>
      cases hhead
      exact ⟨_, rfl, hx⟩
  | i hx => exact absurd rfl ha

/-- The head `s` holds on to two arguments. -/
theorem Parallel.of_held_two {x y : Tree}
    (h : Parallel (.app (.app (.leaf .s) x) y) u) :
    ∃ x' y', u = .app (.app (.leaf .s) x') y' ∧ Parallel x x' ∧
      Parallel y y' := by
  cases h with
  | app hinner hy =>
      obtain ⟨x', rfl, hx⟩ := of_held_one (by decide) hinner
      exact ⟨x', _, rfl, hx, hy⟩

/-- Whatever a parallel step leaves to be contracted, a second one contracts. -/
theorem Parallel.completes (h : Parallel t u) : Parallel u t.develop := by
  induction h with
  | leaf a => exact .leaf a
  | i _ ih => exact ih
  | k y _ ih => exact ih
  | s _ _ _ ihx ihy ihz => exact .app (.app ihx ihz) (.app ihy ihz)
  | @app f f' x x' hf _ ihf ihx =>
      -- The step left the root alone, so a head that waits there has kept its
      -- arguments.
      unfold develop
      split
      · next heq =>
        cases heq
        cases hf
        exact .i ihx
      · next held y heq =>
        cases heq
        obtain ⟨held', rfl, _⟩ := of_held_one (by decide) hf
        obtain ⟨_, hdevelop, hheld⟩ := of_held_one (by decide) ihf
        cases hdevelop
        exact .k x' hheld
      · next held₁ held₂ z heq =>
        cases heq
        obtain ⟨held₁', held₂', rfl, _, _⟩ := of_held_two hf
        obtain ⟨_, _, hdevelop, hheld₁, hheld₂⟩ := of_held_two ihf
        cases hdevelop
        exact .s hheld₁ hheld₂ ihx
      · next heq =>
        cases heq
        exact .app ihf ihx
      · next heq => cases heq

theorem reduces_of_parallels (h : Relation.ReflTransGen Parallel t u) :
    Reduces t u := by
  induction h with
  | refl => exact .refl
  | tail _ hlast ih => exact ih.trans hlast.reduces

theorem parallels_of_reduces (h : Reduces t u) :
    Relation.ReflTransGen Parallel t u := by
  induction h with
  | refl => exact .refl
  | tail _ hlast ih => exact ih.tail (.of_step hlast)

/-- Two reductions of one tree can be brought together again. -/
theorem Reduces.confluent (hu : Reduces t u) (hv : Reduces t v) :
    ∃ w, Reduces u w ∧ Reduces v w := by
  have hdiamond : ∀ a b c : Tree, Parallel a b → Parallel a c →
      ∃ d, Relation.ReflGen Parallel b d ∧
        Relation.ReflTransGen Parallel c d := by
    intro a b c hb hc
    exact ⟨a.develop, .single hb.completes, .single hc.completes⟩
  obtain ⟨w, huw, hvw⟩ := Relation.church_rosser hdiamond
    (parallels_of_reduces hu) (parallels_of_reduces hv)
  exact ⟨w, reduces_of_parallels huw, reduces_of_parallels hvw⟩

/-- A chain of contractions leads from the one tree to the other, in either
direction each. -/
def Convertible : Tree → Tree → Prop := Relation.EqvGen Step

theorem Convertible.exists_common (h : Convertible t u) :
    ∃ w, Reduces t w ∧ Reduces u w := by
  induction h with
  | rel t u hstep => exact ⟨u, .single hstep, .refl⟩
  | refl t => exact ⟨t, .refl, .refl⟩
  | symm t u _ ih =>
      obtain ⟨w, ht, hu⟩ := ih
      exact ⟨w, hu, ht⟩
  | trans t u v _ _ ihtu ihuv =>
      obtain ⟨w₁, ht, hu₁⟩ := ihtu
      obtain ⟨w₂, hu₂, hv⟩ := ihuv
      obtain ⟨w, hw₁, hw₂⟩ := hu₁.confluent hu₂
      exact ⟨w, ht.trans hw₁, hv.trans hw₂⟩

/-- Convertible trees reduce to the same normal tree, if they reduce to normal
trees. -/
theorem Convertible.normal_unique {n m : Tree} (h : Convertible t u)
    (ht : Reduces t n)
    (hn : n.Normal) (hu : Reduces u m) (hm : m.Normal) : n = m := by
  obtain ⟨w, htw, huw⟩ := h.exists_common
  obtain ⟨w₁, hn₁, hw₁⟩ := ht.confluent htw
  obtain ⟨w₂, hm₂, hw₂⟩ := hu.confluent huw
  rw [hn.eq_of_reduces hn₁] at hw₁
  rw [hm.eq_of_reduces hm₂] at hw₂
  obtain ⟨last, hnlast, hmlast⟩ := hw₁.confluent hw₂
  rw [← hn.eq_of_reduces hnlast, hm.eq_of_reduces hmlast]

end Tree

/-- An answer, found in whatever mode and within whatever limits, is a normal
tree that the formula reduces to. -/
theorem reduces_of_answer {o : Options} {t : Tree} {result : String}
    (h : (evaluate o t.text).answer = .ok result) :
    ∃ u : Tree, result = u.text ∧ Tree.Reduces t u ∧ u.Normal := by
  have hfree := answer_evaluate_text_of_limit h
  obtain ⟨v, stop, hmeaning, rfl⟩ := (answer_unlimited_eq_ok_iff rfl).1 hfree
  have hreduces :=
    Tree.innermostReduces_of_denotes (Tree.denotes_of_meaning hmeaning)
  exact ⟨v.toTree, rfl, hreduces.reduces, v.normal_toTree⟩

theorem isFormula_of_answer {o : Options} {text result : String}
    (h : (evaluate o text).answer = .ok result) : IsFormula text := by
  unfold evaluate at h
  split at h
  · contradiction
  · next w hw => exact ⟨w, hw⟩

/-- Formulas whose trees are convertible have the same answer, if they have
answers, in whatever modes and within whatever limits the two are found.  So the
answer to a formula is the only normal tree that the formula reduces to. -/
theorem answers_independent_of_order :
    (∀ (o₁ o₂ : Options) (text₁ text₂ result₁ result₂ : String) (t₁ t₂ : Tree),
      Tree.ofText text₁ = .ok t₁ → Tree.ofText text₂ = .ok t₂ →
      Tree.Convertible t₁ t₂ →
      (evaluate o₁ text₁).answer = .ok result₁ →
      (evaluate o₂ text₂).answer = .ok result₂ →
      result₁ = result₂) ∧
    ∀ (o : Options) (text result : String),
      (evaluate o text).answer = .ok result →
      ∃ t u, Tree.ofText text = .ok t ∧ Tree.ofText result = .ok u ∧
        ∀ n, Tree.Reduces t n ∧ n.Normal ↔ n = u := by
  constructor
  · intro o₁ o₂ text₁ text₂ result₁ result₂ t₁ t₂ ht₁ ht₂ hconvertible
      hanswer₁ hanswer₂
    obtain ⟨t₁', rfl⟩ := (isFormula_of_answer hanswer₁).exists_tree
    obtain ⟨t₂', rfl⟩ := (isFormula_of_answer hanswer₂).exists_tree
    rw [Tree.ofText_text] at ht₁ ht₂
    cases ht₁
    cases ht₂
    obtain ⟨n₁, rfl, hreduces₁, hnormal₁⟩ := reduces_of_answer hanswer₁
    obtain ⟨n₂, rfl, hreduces₂, hnormal₂⟩ := reduces_of_answer hanswer₂
    rw [hconvertible.normal_unique hreduces₁ hnormal₁ hreduces₂ hnormal₂]
  · intro o text result hanswer
    obtain ⟨t, rfl⟩ := (isFormula_of_answer hanswer).exists_tree
    obtain ⟨u, rfl, hreduces, hnormal⟩ := reduces_of_answer hanswer
    refine ⟨t, u, Tree.ofText_text t, Tree.ofText_text u, ?_⟩
    intro n
    constructor
    · rintro ⟨hn, hnNormal⟩
      exact Tree.Convertible.normal_unique
        (.refl t) hn hnNormal hreduces hnormal
    · rintro rfl
      exact ⟨hreduces, hnormal⟩

/-- The identity written as `s k k` and as `i`, applied to `i` in different
modes and limits. -/
theorem answers_independent_of_order_skki_ii :
    Tree.Convertible
      (.app (.app (.app (.leaf .s) (.leaf .k)) (.leaf .k)) (.leaf .i))
        (.app (.leaf .i) (.leaf .i)) ∧
      (evaluate {} "```skki").answer = .ok "i" ∧
      (evaluate { mode := .requeue, limit := some 3, depth := 2 }
        "`ii").answer = .ok "i" ∧
      "i" = "i" ∧
      ∃ t u, Tree.ofText "```skki" = .ok t ∧ Tree.ofText "i" = .ok u ∧
        ∀ n, Tree.Reduces t n ∧ n.Normal ↔ n = u := by
  have hleft : (evaluate {} "```skki").answer = .ok "i" := by cbv
  have hright :
      (evaluate { mode := .requeue, limit := some 3, depth := 2 }
        "`ii").answer = .ok "i" := by cbv
  have hconvertible : Tree.Convertible
      (.app (.app (.app (.leaf .s) (.leaf .k)) (.leaf .k)) (.leaf .i))
      (.app (.leaf .i) (.leaf .i)) :=
    .trans _ _ _ (.rel _ _ (.here rfl))
      (.trans _ _ _ (.rel _ _ (.here rfl)) (.symm _ _ (.rel _ _ (.here rfl))))
  obtain ⟨hagree, hunique⟩ := answers_independent_of_order
  refine ⟨hconvertible, hleft, hright, ?_, hunique _ _ _ hleft⟩
  exact hagree _ _ _ _ _ _ _ _ (by cbv) (by cbv) hconvertible hleft hright

end Combinatory
