/-
Values and normal trees are the same thing.  The tree of a value is normal,
every normal tree is the tree of one value, and the ways of writing a value
agree with each other and with its length.  The machine that reads a written
value rebuilds it at one step for each application mark, so that the formulas
which are answered with themselves are the normal ones, and an answer is
answered with itself.
-/
import Combinatory.Proofs.Confluence
import Mathlib.Data.List.Count

namespace Combinatory

def atomCount (text : String) : Nat := text.toList.countP (· ∈ ['s', 'k', 'i'])

def markCount (text : String) : Nat := text.toList.count Token.apply.char

namespace Word

theorem toList_text (w : Word) : w.text.toList = w.map Token.char := by
  simp [text, chars]

theorem length_text (w : Word) : w.text.length = w.length := by
  rw [← String.length_toList, toList_text, List.length_map]

theorem markCount_text (w : Word) : markCount w.text = w.count .apply := by
  rw [markCount, toList_text]
  exact List.count_map_of_injective w Token.char
    (fun _ _ => Token.char_injective) .apply

end Word

namespace Tree

theorem atomCount_text (t : Tree) : atomCount t.text = t.leaves := by
  rw [atomCount, text_eq, Word.toList_text]
  induction t with
  | leaf a => cases a <;> rfl
  | app f x ihf ihx =>
      rw [tokens, List.map_cons, List.map_append, List.countP_cons,
        List.countP_append, ihf, ihx]
      rfl

/-- A tree has one leaf more than it has applications. -/
theorem markCount_text_add_one (t : Tree) :
    markCount t.text + 1 = t.leaves := by
  rw [text_eq, Word.markCount_text]
  induction t with
  | leaf a => rfl
  | app f x ihf ihx =>
      rw [tokens, List.count_cons_self, List.count_append, leaves, ← ihf, ← ihx]
      omega

theorem nodes_add_one (t : Tree) : t.nodes + 1 = 2 * t.leaves := by
  induction t with
  | leaf a => rfl
  | app f x ihf ihx =>
      rw [nodes, leaves]
      omega

end Tree

namespace Value

theorem leaves_toTree (v : Value) : v.toTree.leaves = v.length := by
  induction v with
  | s | k | i => rfl
  | s₁ x ih | k₁ x ih => rw [toTree, Tree.leaves, Tree.leaves, ih, length]
  | s₂ x y ihx ihy =>
      rw [toTree, Tree.leaves, Tree.leaves, Tree.leaves, ihx, ihy, length]

theorem toList_text (v : Value) :
    v.text.toList = v.toTree.tokens.map Token.char := by
  induction v with
  | s | k | i => rfl
  | s₁ x ih | k₁ x ih =>
      rw [text, String.toList_append, ih]
      rfl
  | s₂ x y ihx ihy =>
      rw [text, String.toList_append, String.toList_append, ihx, ihy, toTree,
        Tree.tokens, Tree.tokens, List.map_cons, List.map_append]
      rfl

/-- A value written directly is written as its tree is. -/
theorem text_toTree (v : Value) : v.toTree.text = v.text := by
  rw [← String.toList_inj, Tree.text_eq, Word.toList_text, toList_text]

theorem render_eq_text (v : Value) : v.render = v.text := by
  rw [render_eq, text_toTree]

theorem toTree_injective {v w : Value} (h : v.toTree = w.toTree) : v = w := by
  have hdenotes : Tree.Denotes v.toTree v := Tree.denotes_toTree_iff.2 rfl
  rw [h] at hdenotes
  exact Tree.denotes_toTree_iff.1 hdenotes

theorem render_injective {v w : Value} (h : v.render = w.render) : v = w := by
  rw [render_eq, render_eq] at h
  exact toTree_injective (Tree.text_injective h)

/-- Values are the normal trees.  The loop that writes a value as a tree never
lacks a tree and ends with the tree given by recursion on the value.  The value
written by way of that tree and the value written directly are the same text, in
which the atoms are counted by the length of the value.  The trees that come
about in this way are the normal ones, each from one value, and so no two values
are written alike. -/
theorem lower_bijects_normal :
    (∀ v : Value,
      lowerLoop [.value v] [] = some [v.toTree] ∧ v.lower = v.toTree ∧
      v.render = v.text ∧ atomCount v.text = v.length ∧
      v.text.length = 2 * v.length - 1 ∧
      v.lower.Normal) ∧
    (∀ t : Tree, t.Normal ↔ ∃! v : Value, v.lower = t) ∧
    ∀ v w : Value, v = w ↔ v.render = w.render := by
  refine ⟨?_, ?_, ?_⟩
  · intro v
    have hloop : lowerLoop [.value v] [] = some [v.toTree] := by
      rw [lowerLoop_value, lowerLoop]
    have hatoms : atomCount v.text = v.length := by
      rw [← text_toTree, Tree.atomCount_text, leaves_toTree]
    have hlength : v.text.length = 2 * v.length - 1 := by
      have hnodes := v.toTree.nodes_add_one
      rw [leaves_toTree] at hnodes
      rw [← text_toTree, Tree.text_eq, Word.length_text, Tree.length_tokens]
      omega
    have hnormal : v.lower.Normal := by
      rw [lower_eq]
      exact v.normal_toTree
    exact ⟨hloop, v.lower_eq, v.render_eq_text, hatoms, hlength, hnormal⟩
  · intro t
    simp only [lower_eq]
    constructor
    · intro ht
      obtain ⟨v, rfl⟩ := exists_toTree_eq_of_normal ht
      exact ⟨v, rfl, fun _ => toTree_injective⟩
    · rintro ⟨v, rfl, _⟩
      exact v.normal_toTree
  · intro v w
    exact ⟨congrArg render, render_injective⟩

end Value

/-- The machine rebuilds a written value without firing a rule, and takes one
step for each application mark. -/
theorem evaluate_toTree_text {o : Options} (hlimit : o.limit = none)
    (hdepth : 0 < o.depth) (v : Value) :
    ∃ m, evaluate o v.toTree.text = ⟨.ok v.word, some m⟩ ∧
      m.steps = markCount v.toTree.text := by
  obtain ⟨m, heval, hsteps⟩ :=
    (Machine.loads_word hlimit hdepth v 0).eval_ofWord
  rw [Value.word_eq] at heval ⊢
  have hmarks := v.toTree.markCount_text_add_one
  rw [Value.leaves_toTree] at hmarks
  exact ⟨m, by rw [evaluate_text, Evaluation.ofWord, heval], by omega⟩

theorem answer_evaluate_toTree_text {o : Options} (hlimit : o.limit = none)
    (hdepth : 0 < o.depth) (v : Value) :
    (evaluate o v.toTree.text).answer = .ok v.toTree.text := by
  obtain ⟨m, heval, _⟩ := evaluate_toTree_text hlimit hdepth v
  rw [heval, ← v.render_eq]
  rfl

theorem normal_of_answer_self {o : Options} {t : Tree}
    (h : (evaluate o t.text).answer = .ok t.text) : t.Normal := by
  obtain ⟨u, htext, _, hnormal⟩ := reduces_of_answer h
  rw [Tree.text_injective htext]
  exact hnormal

/-- The formulas that are answered with themselves are the normal ones, in
either mode, under every nesting bound that lets one application be active, and
without a step allowance; the machine then takes one step for each application
mark.  So whatever a formula is answered with, in whatever mode and within
whatever limits, is answered with itself. -/
theorem evaluate_fixes_normal (o : Options) (hdepth : 0 < o.depth) :
    (∀ text, IsFormula text → ∃ t, Tree.ofText text = .ok t ∧
      ((evaluate { o with limit := none } text).answer = .ok text ↔ t.Normal) ∧
      (t.Normal → ∃ m,
        (evaluate { o with limit := none } text).machine = some m ∧
        m.steps = markCount text)) ∧
    ∀ (first : Options) (text result : String),
      (evaluate first text).answer = .ok result →
      (evaluate { o with limit := none } result).answer = .ok result := by
  constructor
  · intro text htext
    obtain ⟨t, rfl⟩ := htext.exists_tree
    refine ⟨t, Tree.ofText_text t, ⟨normal_of_answer_self, ?_⟩, ?_⟩
    · intro ht
      obtain ⟨v, rfl⟩ := Value.exists_toTree_eq_of_normal ht
      exact answer_evaluate_toTree_text
        (o := { o with limit := none }) rfl hdepth v
    · intro ht
      obtain ⟨v, rfl⟩ := Value.exists_toTree_eq_of_normal ht
      obtain ⟨m, heval, hsteps⟩ :=
        evaluate_toTree_text (o := { o with limit := none }) rfl hdepth v
      exact ⟨m, by rw [heval], hsteps⟩
  · intro first text result hanswer
    obtain ⟨t, rfl⟩ := (isFormula_of_answer hanswer).exists_tree
    obtain ⟨u, rfl, _, hnormal⟩ := reduces_of_answer hanswer
    obtain ⟨v, rfl⟩ := Value.exists_toTree_eq_of_normal hnormal
    exact answer_evaluate_toTree_text
      (o := { o with limit := none }) rfl hdepth v

/-- One level is enough for a normal formula, and for the answer to one that
needs more. -/
theorem evaluate_fixes_normal_skii :
    0 < ({ mode := .requeue, depth := 1 } : Options).depth ∧
      IsFormula "``s`kii" ∧
      (evaluate {} "```sii``s`kii").answer = .ok "``s`kii" ∧
      (evaluate { mode := .requeue, depth := 1 } "``s`kii").answer =
        .ok "``s`kii" ∧
      ∃ t m, Tree.ofText "``s`kii" = .ok t ∧ t.Normal ∧
        (evaluate { mode := .requeue, depth := 1 } "``s`kii").machine = some m ∧
        m.steps = 3 := by
  have hdepth : 0 < ({ mode := .requeue, depth := 1 } : Options).depth :=
    Nat.one_pos
  have htext : IsFormula "``s`kii" := ⟨_, rfl⟩
  have hfirst : (evaluate {} "```sii``s`kii").answer = .ok "``s`kii" := by cbv
  obtain ⟨hfixed, hidempotent⟩ :=
    evaluate_fixes_normal { mode := .requeue, depth := 1 } hdepth
  have hself := hidempotent {} _ _ hfirst
  obtain ⟨t, ht, hiff, hsteps⟩ := hfixed _ htext
  obtain ⟨m, hm, hcount⟩ := hsteps (hiff.1 hself)
  exact ⟨hdepth, htext, hfirst, hself, t, m, ht, hiff.1 hself, hm, hcount⟩

end Combinatory
