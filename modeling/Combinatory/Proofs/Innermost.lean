/-
Evaluation is innermost reduction.  Levels and steps apart, a tree denotes a
value by the same recursion that gives its meaning.  A tree that denotes a value
comes to the tree of that value by innermost steps, and an innermost step
backwards keeps what is denoted; since normal trees denote the values whose
trees they are, the two notions coincide, in whatever order the steps are taken.
-/
import Combinatory.Proofs.Application
import Combinatory.Proofs.Meaning
import Combinatory.Proofs.Reduction

namespace Combinatory

namespace Tree

variable {t u : Tree} {v : Value}

/-- The value of a tree, however many steps and levels it takes. -/
inductive Denotes : Tree → Value → Prop where
  | leaf (a : Atom) : Denotes (.leaf a) (.ofAtom a)
  | app {f x : Tree} {function argument r : Value} :
      Denotes x argument → Denotes f function →
      Value.Yields function argument r → Denotes (.app f x) r

theorem denotes_of_meaning {limit : Option Int} {depth n stop : Nat}
    (h : t.meaning limit depth n = .ok v stop) : Denotes t v := by
  induction t generalizing n stop v with
  | leaf a =>
      cases h
      exact .leaf a
  | app f x ihf ihx =>
      obtain ⟨argument, _, function, _, hargument, hfunction, happly⟩ :=
        meaning_app_eq_ok_iff.1 h
      exact .app (ihx hargument) (ihf hfunction) (Value.yields_of_apply happly)

theorem meaning_ok_of_depth_le {limit : Option Int} {depth depth' n stop : Nat}
    (hle : depth ≤ depth') (h : t.meaning limit depth n = .ok v stop) :
    t.meaning limit depth' n = .ok v stop := by
  induction t generalizing n stop v with
  | leaf a => exact h
  | app f x ihf ihx =>
      obtain ⟨argument, n₁, function, n₂, hargument, hfunction, happly⟩ :=
        meaning_app_eq_ok_iff.1 h
      exact meaning_app_eq_ok_iff.2 ⟨argument, n₁, function, n₂, ihx hargument,
        ihf hfunction,
        Value.apply_ok_of_depth_le hle happly⟩

/-- What a tree denotes is its meaning under some nesting bound. -/
theorem exists_depth_of_denotes (h : Denotes t v) :
    ∃ depth, ∀ start, ∃ stop, t.meaning none depth start = .ok v stop := by
  induction h with
  | leaf a => exact ⟨0, fun start => ⟨start, rfl⟩⟩
  | app _ _ hyields ihx ihf =>
      obtain ⟨depthX, hx⟩ := ihx
      obtain ⟨depthF, hf⟩ := ihf
      obtain ⟨depthR, hr⟩ := Value.exists_depth_of_yields hyields
      let depth := max depthX (max depthF depthR)
      have hleX : depthX ≤ depth := by omega
      have hleF : depthF ≤ depth := by omega
      have hleR : depthR ≤ depth := by omega
      refine ⟨depth, ?_⟩
      intro start
      obtain ⟨first, hfirst⟩ := hx start
      obtain ⟨second, hsecond⟩ := hf first
      obtain ⟨third, hthird⟩ := hr second
      exact ⟨third, meaning_app_eq_ok_iff.2 ⟨_, first, _, second,
        meaning_ok_of_depth_le hleX hfirst, meaning_ok_of_depth_le hleF hsecond,
        Value.apply_ok_of_depth_le hleR hthird⟩⟩

theorem exists_depth_meaning_iff :
    (∃ depth stop, t.meaning none depth 0 = .ok v stop) ↔ Denotes t v := by
  constructor
  · rintro ⟨depth, stop, h⟩
    exact denotes_of_meaning h
  · intro h
    obtain ⟨depth, hdepth⟩ := exists_depth_of_denotes h
    exact ⟨depth, hdepth 0⟩

/-- The tree of a value denotes the value and nothing else. -/
theorem denotes_toTree_iff {w : Value} : Denotes v.toTree w ↔ w = v := by
  constructor
  · intro h
    induction v generalizing w with
    | s => cases h; rfl
    | k => cases h; rfl
    | i => cases h; rfl
    | s₁ x ih =>
        obtain _ | ⟨hx, hhead, hyields⟩ := h
        cases hhead
        cases hyields
        rw [ih hx]
    | k₁ x ih =>
        obtain _ | ⟨hx, hhead, hyields⟩ := h
        cases hhead
        cases hyields
        rw [ih hx]
    | s₂ x y ihx ihy =>
        obtain _ | ⟨hy, hinner, hyields⟩ := h
        obtain _ | ⟨hx, hhead, hinnerYields⟩ := hinner
        cases hhead
        cases hinnerYields
        cases hyields
        rw [ihx hx, ihy hy]
  · rintro rfl
    induction w with
    | s => exact .leaf .s
    | k => exact .leaf .k
    | i => exact .leaf .i
    | s₁ x ih => exact .app ih (.leaf .s) (.s x)
    | k₁ x ih => exact .app ih (.leaf .k) (.k x)
    | s₂ x y ihx ihy => exact .app ihy (.app ihx (.leaf .s) (.s x)) (.s₁ x y)

/-- Values applied to values have nothing to contract below the root, so the
rule that fires first is innermost; the S rule leaves three more applications of
values. -/
theorem innermostReduces_of_yields {f x r : Value} (h : Value.Yields f x r) :
    InnermostReduces (.app f.toTree x.toTree) r.toTree := by
  have hroot : ∀ {f x : Value} {u : Tree},
      contract? (.app f.toTree x.toTree) = some u →
      InnermostStep (.app f.toTree x.toTree) u := by
    intro f x u hcontract
    exact .here ⟨hcontract,
      forall_properSubtrees_app_iff.2 ⟨f.normal_toTree, x.normal_toTree⟩⟩
  induction h with
  | s x => exact .refl
  | k x => exact .refl
  | s₁ g x => exact .refl
  | i x => exact .single (hroot (f := .i) rfl)
  | k₁ g x => exact .single (hroot (f := .k₁ g) rfl)
  | @s₂ g h x function argument r _ _ _ ihg ihh ihr =>
      have hfirst := hroot (f := .s₂ g h) (x := x) rfl
      exact .head hfirst ((reflTransGen_within_app ihg ihh).trans ihr)

theorem innermostReduces_of_denotes (h : Denotes t v) :
    InnermostReduces t v.toTree := by
  induction h with
  | leaf a => cases a <;> exact .refl
  | app _ _ hyields ihx ihf =>
      exact (reflTransGen_within_app ihf ihx).trans
        (innermostReduces_of_yields hyields)

theorem exists_denotes_of_normal (ht : t.Normal) : ∃ v, Denotes t v := by
  obtain ⟨v, rfl⟩ := Value.exists_toTree_eq_of_normal ht
  exact ⟨v, denotes_toTree_iff.2 rfl⟩

theorem Normal.denotes_unique (ht : t.Normal) {v w : Value} (hv : Denotes t v)
    (hw : Denotes t w) : v = w := by
  obtain ⟨u, rfl⟩ := Value.exists_toTree_eq_of_normal ht
  rw [denotes_toTree_iff.1 hv, denotes_toTree_iff.1 hw]

/-- A contraction backwards keeps what is denoted, if nothing is left to
contract below the root.  The rule that drops an argument needs it to denote
something, and the rule that copies one needs the copies to denote the same. -/
theorem denotes_of_contract? {f x : Tree} (hf : f.Normal) (hx : x.Normal)
    (hcontract : contract? (.app f x) = some u) (hu : Denotes u v) :
    Denotes (.app f x) v := by
  rcases contract?_eq_some hcontract with hi | ⟨y, hk⟩ | ⟨x', y, z, hs, rfl⟩
  · cases hi
    exact .app hu (.leaf .i) (.i v)
  · cases hk
    obtain ⟨dropped, hdropped⟩ := exists_denotes_of_normal hx
    exact .app hdropped (.app hu (.leaf .k) (.k v)) (.k₁ v dropped)
  · cases hs
    obtain _ | ⟨hright, hleft, hyields⟩ := hu
    obtain _ | ⟨hz, hx', hfunction⟩ := hleft
    obtain _ | ⟨hz', hy, hargument⟩ := hright
    rw [hx.denotes_unique hz' hz] at hargument
    have hinner := Denotes.app hx' (.leaf .s) (.s _)
    exact .app hz (.app hy hinner (.s₁ _ _)) (.s₂ hfunction hargument hyields)

theorem denotes_of_innermostStep (hstep : InnermostStep t u)
    (hu : Denotes u v) :
    Denotes t v := by
  induction hstep generalizing v with
  | @here t u hroot =>
      obtain ⟨hcontract, hbelow⟩ := hroot
      cases t with
      | leaf a => cases hcontract
      | app f x =>
          obtain ⟨hf, hx⟩ := forall_properSubtrees_app_iff.1 hbelow
          exact denotes_of_contract? hf hx hcontract hu
  | function x _ ih =>
      obtain _ | ⟨hx, hf, hyields⟩ := hu
      exact .app hx (ih hf) hyields
  | argument f _ ih =>
      obtain _ | ⟨hx, hf, hyields⟩ := hu
      exact .app (ih hx) hf hyields

/-- A tree denotes a value exactly if innermost steps, in any order, lead to the
value's tree. -/
theorem denotes_iff_innermostReduces :
    Denotes t v ↔ InnermostReduces t v.toTree := by
  constructor
  · exact innermostReduces_of_denotes
  · intro h
    induction h using Relation.ReflTransGen.head_induction_on with
    | refl => exact denotes_toTree_iff.2 rfl
    | head hstep _ ih => exact denotes_of_innermostStep hstep ih

end Tree

/-- What an evaluation without a step allowance answers with, if it answers. -/
theorem answer_unlimited_eq_ok_iff {o : Options}
    (hlimit : o.limit = none) {t : Tree} {result : String} :
    (evaluate o t.text).answer = .ok result ↔
      ∃ v stop, t.meaning none o.depth 0 = .ok v stop ∧
        result = v.toTree.text := by
  rw [answer_evaluate_text_unlimited hlimit]
  constructor
  · intro h
    split at h
    · next v stop hmeaning =>
      cases h
      exact ⟨v, stop, hmeaning, v.render_eq⟩
    · contradiction
  · rintro ⟨v, stop, hmeaning, rfl⟩
    simp only [hmeaning, v.render_eq]

/-- Evaluation in either mode and without a step allowance is innermost
reduction to a normal tree: a formula is answered with another one, under some
nesting bound, exactly if innermost steps lead from the tree of the first to the
tree of the second and nothing is left to contract in that.  So every answer is
a normal tree that the formula reduces to. -/
theorem evaluate_iff_innermost_normal (o : Options) {text : String}
    (htext : IsFormula text) :
    ∃ t, Tree.ofText text = .ok t ∧
      (∀ result, IsFormula result → ∃ u, Tree.ofText result = .ok u ∧
        ((∃ depth,
          (evaluate { o with limit := none, depth := depth } text).answer =
            .ok result) ↔
          Tree.InnermostReduces t u ∧ u.Normal)) ∧
      ∀ depth result,
        (evaluate { o with limit := none, depth := depth } text).answer =
          .ok result →
          ∃ u, Tree.ofText result = .ok u ∧ Tree.Reduces t u ∧ u.Normal := by
  obtain ⟨t, rfl⟩ := htext.exists_tree
  refine ⟨t, Tree.ofText_text t, ?_, ?_⟩
  · intro result hresult
    obtain ⟨u, rfl⟩ := hresult.exists_tree
    refine ⟨u, Tree.ofText_text u, ?_⟩
    constructor
    · rintro ⟨depth, hanswer⟩
      obtain ⟨v, stop, hmeaning, heq⟩ :=
        (answer_unlimited_eq_ok_iff rfl).1 hanswer
      rw [Tree.text_injective heq]
      exact ⟨Tree.innermostReduces_of_denotes
        (Tree.denotes_of_meaning hmeaning), v.normal_toTree⟩
    · rintro ⟨hreduces, hnormal⟩
      obtain ⟨v, rfl⟩ := Value.exists_toTree_eq_of_normal hnormal
      have hdenotes := Tree.denotes_iff_innermostReduces.2 hreduces
      obtain ⟨depth, stop, hmeaning⟩ := Tree.exists_depth_meaning_iff.2 hdenotes
      exact ⟨depth, (answer_unlimited_eq_ok_iff rfl).2 ⟨v, stop, hmeaning, rfl⟩⟩
  · intro depth result hanswer
    obtain ⟨v, stop, hmeaning, rfl⟩ :=
      (answer_unlimited_eq_ok_iff rfl).1 hanswer
    have hreduces :=
      Tree.innermostReduces_of_denotes (Tree.denotes_of_meaning hmeaning)
    exact ⟨v.toTree, Tree.ofText_text _, hreduces.reduces, v.normal_toTree⟩

theorem evaluate_iff_innermost_normal_skki :
    IsFormula "```skki" ∧ IsFormula "i" ∧
      (evaluate {} "```skki").answer = .ok "i" ∧
      ∃ t, Tree.ofText "```skki" = .ok t ∧
        (∃ u, Tree.ofText "i" = .ok u ∧
          ((∃ depth, (evaluate { depth := depth } "```skki").answer = .ok "i") ↔
            Tree.InnermostReduces t u ∧ u.Normal)) ∧
        ∃ u, Tree.ofText "i" = .ok u ∧ Tree.Reduces t u ∧ u.Normal := by
  have htext : IsFormula "```skki" := ⟨_, rfl⟩
  have hresult : IsFormula "i" := ⟨_, rfl⟩
  have hanswer : (evaluate {} "```skki").answer = .ok "i" := by cbv
  obtain ⟨t, ht, hiff, hreduct⟩ := evaluate_iff_innermost_normal {} htext
  exact ⟨htext, hresult, hanswer, t, ht, hiff "i" hresult,
    hreduct 1000 "i" hanswer⟩

end Combinatory
