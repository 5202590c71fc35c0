/-
The machine on words that nobody has validated.  It reads a word from its end,
and as long as every mark finds two values the stack is as high as the formulas
that were read are many.  So a word is read to its end exactly if it is one
formula after the other, and the number of formulas decides what the evaluation
finds; any other word has a mark with too little behind it.  Validation reads
from the front and stops at the first formula: it accepts the same words, but
where it finds surplus tokens behind a formula, the machine may find a mark
without operands among them.
-/
import Combinatory.Proofs.Allowance
import Combinatory.Proofs.Grammar
import Combinatory.Proofs.Meaning

namespace Combinatory

namespace Word

variable {v w : Word} {n : Nat}

/-- The height of a stack after a mark, which takes two values off and puts one
on. -/
def afterMark? : Option Nat → Option Nat
  | some (n + 2) => some (n + 1)
  | _ => none

/-- The height of the stack when a word was read from its end over an empty
stack, unless a mark finds less than two values there. -/
def stackHeight? : Word → Option Nat
  | [] => some 0
  | .atom _ :: w => (stackHeight? w).map (· + 1)
  | .apply :: w => afterMark? (stackHeight? w)

/-- Two or more formulas stand in the word, one after the other, and nothing
else. -/
def Several (w : Word) : Prop :=
  ∃ words : List Word, 2 ≤ words.length ∧ (∀ v ∈ words, v.Derivable) ∧
    w = words.flatten

theorem afterMark?_eq_some_iff {height? : Option Nat} :
    afterMark? height? = some n ↔ ∃ k, height? = some (k + 2) ∧ n = k + 1 := by
  rcases height? with _ | _ | _ | k
  · simp [afterMark?]
  · simp [afterMark?]
  · simp [afterMark?]
  · simp [afterMark?, eq_comm]

theorem afterMark?_of_lt {height : Nat} (h : height < 2) :
    afterMark? (some height) = none := by
  match height, h with
  | 0, _ => rfl
  | 1, _ => rfl

theorem stackHeight?_tokens_append (t : Tree) (w : Word) :
    stackHeight? (t.tokens ++ w) = (stackHeight? w).map (· + 1) := by
  induction t generalizing w with
  | leaf a => rfl
  | app f x ihf ihx =>
      rw [Tree.tokens, List.cons_append, List.append_assoc,
        stackHeight?, ihf, ihx]
      cases stackHeight? w <;> rfl

/-- A word that is read to its end is the words of as many trees as the stack is
high. -/
theorem stackHeight?_eq_some_iff :
    stackHeight? w = some n ↔
      ∃ trees : List Tree, trees.length = n ∧
        w = trees.flatMap Tree.tokens := by
  constructor
  · intro hheight
    induction w generalizing n with
    | nil =>
        cases hheight
        exact ⟨[], rfl, rfl⟩
    | cons t w ih =>
        cases t with
        | atom a =>
            obtain ⟨n, hn, rfl⟩ := Option.map_eq_some_iff.1 hheight
            obtain ⟨trees, hcount, rfl⟩ := ih hn
            exact ⟨.leaf a :: trees, by simp [hcount], rfl⟩
        | apply =>
            obtain ⟨k, hk, rfl⟩ := afterMark?_eq_some_iff.1 hheight
            obtain ⟨trees, hcount, rfl⟩ := ih hk
            rcases trees with _ | ⟨f, _ | ⟨x, trees⟩⟩
            · simp at hcount
            · simp at hcount
            · exact ⟨.app f x :: trees, by simpa using hcount,
                by simp [Tree.tokens]⟩
  · rintro ⟨trees, rfl, rfl⟩
    induction trees with
    | nil => rfl
    | cons t trees ih =>
        rw [List.flatMap_cons, stackHeight?_tokens_append, ih]; rfl

theorem balance_of_stackHeight? (hheight : stackHeight? w = some n) :
    balance w = -(n : Int) := by
  obtain ⟨trees, rfl, rfl⟩ := stackHeight?_eq_some_iff.1 hheight
  exact balance_flatMap_tokens trees

theorem balance_eq_counts (w : Word) :
    balance w = (w.count .apply : Int) - w.countP (· ≠ .apply) := by
  induction w with
  | nil => rfl
  | cons t w ih =>
      cases t with
      | apply =>
          rw [balance_cons, ih]
          simp [Token.balance]
          omega
      | atom a =>
          rw [balance_cons, ih]
          simp [Token.balance]
          omega

/-- A word that is read to its end is read through all its suffixes. -/
theorem exists_stackHeight?_of_suffix (hsuffix : v <:+ w)
    (hheight : stackHeight? w = some n) :
    ∃ k, stackHeight? v = some k := by
  induction w generalizing n with
  | nil =>
      rw [List.suffix_nil.1 hsuffix]
      exact ⟨0, rfl⟩
  | cons t w ih =>
      rcases List.suffix_cons_iff.1 hsuffix with rfl | hrest
      · exact ⟨n, hheight⟩
      · cases hw : stackHeight? w with
        | some k => exact ih hrest hw
        | none => cases t <;> simp [stackHeight?, hw, afterMark?] at hheight

theorem stackHeight?_pos (hv : v ≠ []) (hheight : stackHeight? v = some n) :
    0 < n := by
  obtain ⟨trees, rfl, rfl⟩ := stackHeight?_eq_some_iff.1 hheight
  rw [List.length_pos_iff]
  rintro rfl
  exact hv rfl

/-- Where reading stops, the mark and what stands behind it have no more atoms
than marks. -/
theorem exists_suffix_of_stackHeight?_eq_none (hstuck : stackHeight? w = none) :
    ∃ v, v <:+ w ∧ v ≠ [] ∧ 0 ≤ balance v := by
  induction w with
  | nil => cases hstuck
  | cons t w ih =>
      cases hw : stackHeight? w with
      | none =>
          obtain ⟨v, hsuffix, hv⟩ := ih hw
          exact ⟨v, hsuffix.trans (List.suffix_cons t w), hv⟩
      | some n =>
          cases t with
          | atom a => simp [stackHeight?, hw] at hstuck
          | apply =>
              -- What follows the mark was read, and left at most one value for
              -- it.
              refine ⟨.apply :: w, List.suffix_refl _, List.cons_ne_nil _ _, ?_⟩
              rw [balance_cons, balance_of_stackHeight? hw, Token.balance]
              rcases n with _ | _ | n
              · decide
              · decide
              · simp [stackHeight?, hw, afterMark?] at hstuck

theorem stackHeight?_eq_none_iff :
    stackHeight? w = none ↔
      ∃ v, v <:+ w ∧ v ≠ [] ∧ v.countP (· ≠ .apply) ≤ v.count .apply := by
  constructor
  · intro hstuck
    obtain ⟨v, hsuffix, hv, hbalance⟩ :=
      exists_suffix_of_stackHeight?_eq_none hstuck
    rw [balance_eq_counts] at hbalance
    exact ⟨v, hsuffix, hv, by omega⟩
  · rintro ⟨v, hsuffix, hv, hcounts⟩
    cases hw : stackHeight? w with
    | none => rfl
    | some n =>
        obtain ⟨k, hk⟩ := exists_stackHeight?_of_suffix hsuffix hw
        have hpos := stackHeight?_pos hv hk
        have hbalance := balance_of_stackHeight? hk
        rw [balance_eq_counts] at hbalance
        omega

theorem derivable_iff_stackHeight? : w.Derivable ↔ stackHeight? w = some 1 := by
  rw [derivable_iff, stackHeight?_eq_some_iff]
  constructor
  · rintro ⟨t, rfl⟩
    exact ⟨[t], rfl, (List.flatMap_singleton ..).symm⟩
  · rintro ⟨trees, hcount, rfl⟩
    obtain ⟨t, rfl⟩ := List.length_eq_one_iff.1 hcount
    exact ⟨t, List.flatMap_singleton ..⟩

theorem exists_trees_of_derivable {words : List Word}
    (hwords : ∀ v ∈ words, v.Derivable) :
    ∃ trees : List Tree, words = trees.map Tree.tokens := by
  induction words with
  | nil => exact ⟨[], rfl⟩
  | cons v words ih =>
      obtain ⟨trees, rfl⟩ := ih fun v hv => hwords v (List.mem_cons_of_mem _ hv)
      obtain ⟨t, rfl⟩ := derivable_iff.1 (hwords _ List.mem_cons_self)
      exact ⟨t :: trees, rfl⟩

theorem several_iff_stackHeight? :
    w.Several ↔ ∃ n, stackHeight? w = some (n + 2) := by
  constructor
  · rintro ⟨words, hcount, hwords, rfl⟩
    obtain ⟨trees, rfl⟩ := exists_trees_of_derivable hwords
    rw [List.length_map] at hcount
    refine ⟨trees.length - 2, stackHeight?_eq_some_iff.2 ⟨trees, by omega, ?_⟩⟩
    exact (List.flatMap_def ..).symm
  · rintro ⟨n, hheight⟩
    obtain ⟨trees, hcount, rfl⟩ := stackHeight?_eq_some_iff.1 hheight
    refine ⟨trees.map Tree.tokens, by simp [hcount], ?_, (List.flatMap_def ..)⟩
    intro v hv
    obtain ⟨t, _, rfl⟩ := List.mem_map.1 hv
    exact derivable_tokens t

theorem eq_nil_iff_stackHeight? : w = [] ↔ stackHeight? w = some 0 := by
  constructor
  · rintro rfl
    rfl
  · intro hheight
    obtain ⟨trees, hcount, rfl⟩ := stackHeight?_eq_some_iff.1 hheight
    rw [List.length_eq_zero_iff.1 hcount]
    rfl

end Word

theorem Value.eq_tooDeep_of_apply_none {depth n stop : Nat} {f x : Value}
    {fault : Fault} (happly : apply none depth f x n = .error fault stop) :
    fault = .tooDeep := by
  rw [apply_none_eq_counted, History.counted] at happly
  split at happly
  · cases happly
    rfl
  · contradiction

namespace Machine

variable {o : Options} {m : Machine}

/-- From the start the machine comes to a stack of the given height with the
given tokens left to read, or, if no height is given, fails for want of
operands. -/
def ComesTo (o : Options) (start : Machine) (rest : List Token) :
    Option Nat → Prop
  | some n =>
      ∃ last, Reaches o start last ∧ last.pending = rest ∧ last.stack.length = n
  | none => ∃ left, run o start = .error (.formula .notEnoughAtoms) left

theorem ComesTo.atom {start : Machine} {a : Atom} {rest : List Token}
    {height? : Option Nat} (h : ComesTo o start (.atom a :: rest) height?) :
    ComesTo o start rest (height?.map (· + 1)) := by
  cases height? with
  | none => exact h
  | some n =>
      obtain ⟨last, hreach, hpending, hlength⟩ := h
      refine ⟨_, hreach.tail (advances_of_step hpending rfl), rfl, ?_⟩
      simp [push, hlength]

/-- A mark takes two values and leaves one, if the application of the one to the
other does not nest too deeply. -/
theorem ComesTo.apply {start : Machine} {rest : List Token}
    {height? : Option Nat} (hmode : o.mode = .direct) (hlimit : o.limit = none)
    (h : ComesTo o start (.apply :: rest) height?) :
    (∃ left, run o start = .error (.fault .tooDeep) left) ∨
      ComesTo o start rest (Word.afterMark? height?) := by
  cases height? with
  | none => exact Or.inr h
  | some n =>
      obtain ⟨last, hreach, hpending, rfl⟩ := h
      rcases last.stack_cases with hshort | ⟨f, x, below, hstack⟩
      · have hfail := run_of_next_error
          (next_of_step_error (o := o) hpending (step_apply_of_short hshort))
        rw [← run_eq_of_reaches hreach] at hfail
        rw [Word.afterMark?_of_lt hshort]
        exact Or.inr ⟨_, hfail⟩
      · rw [hstack]
        cases happly : Value.apply o.limit o.depth f x last.steps with
        | error fault n =>
            have hdeep := Value.eq_tooDeep_of_apply_none (hlimit ▸ happly)
            subst hdeep
            refine Or.inl
              ⟨{ last with pending := rest, stack := below, steps := n }, ?_⟩
            rw [run_eq_of_reaches hreach]
            exact run_of_next_error
              (next_of_step_error hpending (step_apply_of_error hstack happly))
        | ok v n =>
            have hlast :=
              advances_of_step hpending (step_apply_of_ok hstack happly)
            rw [deliver_eq_push (held_of_direct hmode f)] at hlast
            exact Or.inr ⟨_, hreach.tail hlast, by simp [push], by simp [push]⟩

/-- Read over an empty stack in direct mode, a word leaves the stack as high as
foretold, or stops at a mark without operands, unless an application nests too
deeply on the way. -/
theorem comesTo_join (hmode : o.mode = .direct)
    (hlimit : o.limit = none) (w : Word) (hempty : m.stack = []) :
    (∃ left, run o (m.join w) = .error (.fault .tooDeep) left) ∨
      ComesTo o (m.join w) m.pending w.stackHeight? := by
  induction w generalizing m with
  | nil => exact Or.inr ⟨m, .refl, rfl, by rw [hempty]; rfl⟩
  | cons t w ih =>
      -- The word is read from its end, so its first token is what is left to
      -- read after the rest.
      have hjoin : m.join (t :: w) = (m.join [t]).join w := join_append m [t] w
      rw [hjoin]
      rcases ih (m := m.join [t]) hempty with hdeep | hread
      · exact Or.inl hdeep
      · cases t with
        | atom a => exact Or.inr hread.atom
        | apply => exact hread.apply hmode hlimit

/-- What an evaluation of a word from an empty stack comes to without a step
allowance. -/
def unlimitedOutcome (o : Options) (w : Word) : Except RunError Word :=
  ((ofWord w).eval { o with limit := none }).shown.1

theorem unlimitedOutcome_direct (o : Options) (w : Word) :
    unlimitedOutcome o w = unlimitedOutcome { o with mode := .direct } w := by
  obtain ⟨mode, limit, trace, depth⟩ := o
  cases mode with
  | direct => rfl
  | requeue =>
      exact congrArg Prod.fst (shown_conclude
        (shown_run_requeue ⟨.requeue, limit, trace, depth⟩ (ofWord w)))

/-- In both modes the height that the stack comes to decides the outcome. -/
theorem unlimitedOutcome_cases (o : Options) (w : Word)
    (hfits : unlimitedOutcome o w ≠ .error (.fault .tooDeep)) :
    (w.stackHeight? = some 1 ∧ ∃ result, unlimitedOutcome o w = .ok result) ∨
      ((∃ n, w.stackHeight? = some (n + 2)) ∧
        unlimitedOutcome o w = .error (.formula .surplusTokens)) ∨
      (w.stackHeight? = some 0 ∨ w.stackHeight? = none) ∧
        unlimitedOutcome o w = .error (.formula .notEnoughAtoms) := by
  rw [unlimitedOutcome_direct] at hfits ⊢
  have hread :=
    comesTo_join (o := { o with mode := .direct, limit := none }) rfl rfl w
    (m := { pending := [] }) rfl
  rw [← ofWord_eq_join] at hread
  unfold unlimitedOutcome at hfits ⊢
  rcases hread with ⟨left, hdeep⟩ | hread
  · rw [eval_of_run_error hdeep] at hfits
    exact absurd rfl hfits
  · cases hheight : w.stackHeight? with
    | none =>
        rw [hheight] at hread
        obtain ⟨left, hshort⟩ := hread
        rw [eval_of_run_error hshort]
        exact Or.inr (Or.inr ⟨Or.inr rfl, rfl⟩)
    | some n =>
        rw [hheight] at hread
        obtain ⟨last, hreach, hempty, rfl⟩ := hread
        rw [eval, run_eq_of_reaches hreach,
          run_of_pending_nil _ hempty, conclude]
        rcases hstack : last.stack with _ | ⟨v, _ | ⟨u, below⟩⟩
        · exact Or.inr (Or.inr ⟨Or.inl rfl, rfl⟩)
        · exact Or.inl ⟨rfl, v.word, rfl⟩
        · exact Or.inr (Or.inl ⟨⟨below.length, rfl⟩, rfl⟩)

end Machine

namespace Word

variable {w : Word}

theorem validate_of_several (hw : w.Several) :
    w.validate = .error .surplusTokens := by
  have hoverfull : w.Overfull := by
    obtain ⟨words, hcount, hwords, rfl⟩ := hw
    match words with
    | u :: v :: words =>
        refine ⟨u, (v :: words).flatten, rfl, ?_, hwords u List.mem_cons_self⟩
        have hv := hwords v (List.mem_cons_of_mem u List.mem_cons_self)
        simp [List.length_pos_iff.1 hv.length_pos]
  obtain ⟨point, hclosing, hmore⟩ := overfull_iff_closing?.1 hoverfull
  simp only [validate, hclosing, if_pos hmore]

theorem validate_eq_ok_iff_derivable : w.validate = .ok () ↔ w.Derivable :=
  validate_eq_ok_iff.trans derivable_iff.symm

end Word

/-- What the machine makes of an arbitrary word, from an empty stack, without a
step allowance and in both modes, if no application nests too deeply.  It
answers exactly if the word is a formula, finds surplus tokens exactly if the
word is two or more formulas one after the other, and not enough atoms in every
other case: the word is empty, or some part at its end has no more atoms than
marks.  So the machine answers exactly if validation accepts the word; it finds
not enough atoms wherever validation does, and surplus tokens only where
validation does. -/
theorem Machine.outcome_classifies_words (o : Options) (w : Word)
    (hfits : unlimitedOutcome o w ≠ .error (.fault .tooDeep)) :
    ((∃ result, unlimitedOutcome o w = .ok result) ↔ w.Derivable) ∧
    (unlimitedOutcome o w = .error (.formula .surplusTokens) ↔ w.Several) ∧
    (unlimitedOutcome o w = .error (.formula .notEnoughAtoms) ↔
      ¬ w.Derivable ∧ ¬ w.Several) ∧
    (¬ w.Derivable ∧ ¬ w.Several ↔
      w = [] ∨ ∃ v, v <:+ w ∧ v ≠ [] ∧ v.countP (· ≠ .apply) ≤ v.count .apply) ∧
    ((∃ result, unlimitedOutcome o w = .ok result) ↔ w.validate = .ok ()) ∧
    (w.validate = .error .notEnoughAtoms →
      unlimitedOutcome o w = .error (.formula .notEnoughAtoms)) ∧
    (unlimitedOutcome o w = .error (.formula .surplusTokens) →
      w.validate = .error .surplusTokens) := by
  have hclasses := unlimitedOutcome_cases o w hfits
  have hanswers : (∃ result, unlimitedOutcome o w = .ok result) ↔
      w.Derivable := by
    rw [Word.derivable_iff_stackHeight?]
    rcases hclasses with ⟨hheight, result, hout⟩ | ⟨⟨n, hheight⟩, hout⟩
      | ⟨hheight | hheight, hout⟩
    all_goals simp [hheight, hout]
  have hsurplus : unlimitedOutcome o w = .error (.formula .surplusTokens) ↔
      w.Several := by
    rw [Word.several_iff_stackHeight?]
    rcases hclasses with ⟨hheight, result, hout⟩ | ⟨⟨n, hheight⟩, hout⟩
      | ⟨hheight | hheight, hout⟩
    all_goals simp [hheight, hout]
  have hshort : unlimitedOutcome o w = .error (.formula .notEnoughAtoms) ↔
      ¬ w.Derivable ∧ ¬ w.Several := by
    rw [← hanswers, ← hsurplus]
    rcases hclasses with ⟨_, result, hout⟩ | ⟨_, hout⟩ | ⟨_, hout⟩
    all_goals simp [hout]
  have hbare : ¬ w.Derivable ∧ ¬ w.Several ↔
      w = [] ∨ ∃ v, v <:+ w ∧ v ≠ [] ∧
        v.countP (· ≠ .apply) ≤ v.count .apply := by
    rw [← Word.stackHeight?_eq_none_iff, Word.eq_nil_iff_stackHeight?,
      Word.derivable_iff_stackHeight?, Word.several_iff_stackHeight?]
    rcases w.stackHeight? with _ | _ | _ | n
    all_goals simp
  have hvalid : (∃ result, unlimitedOutcome o w = .ok result) ↔
      w.validate = .ok () := by
    rw [hanswers, Word.validate_eq_ok_iff_derivable]
  refine ⟨hanswers, hsurplus, hshort, hbare, hvalid, ?_, ?_⟩
  · intro hinvalid
    rw [hshort, ← hanswers, hvalid]
    constructor
    · simp [hinvalid]
    · intro hseveral
      simp [Word.validate_of_several hseveral] at hinvalid
  · intro hout
    exact Word.validate_of_several (hsurplus.1 hout)

/-- On the first word validation finds surplus tokens behind the first atom, and
the machine a mark without operands at the end.  The second is two formulas, and
requeueing does not hide that. -/
theorem Machine.outcome_classifies_words_ik :
    ∃ v w o, Word.lex "ik`" = .ok v ∧ Word.lex "``kii`ii" = .ok w ∧
      o = ({ mode := .requeue } : Options) ∧
      unlimitedOutcome o v ≠ .error (.fault .tooDeep) ∧
      unlimitedOutcome o v = .error (.formula .notEnoughAtoms) ∧
      v.validate = .error .surplusTokens ∧ ¬ v.Derivable ∧ ¬ v.Several ∧
      unlimitedOutcome o w ≠ .error (.fault .tooDeep) ∧
      w.Several ∧ w.validate = .error .surplusTokens := by
  let v : Word := [.atom .i, .atom .k, .apply]
  let w : Word := [.apply, .apply, .atom .k, .atom .i, .atom .i, .apply,
    .atom .i, .atom .i]
  let o : Options := { mode := .requeue }
  have hv : unlimitedOutcome o v = .error (.formula .notEnoughAtoms) := by cbv
  have hw : unlimitedOutcome o w = .error (.formula .surplusTokens) := by cbv
  have hfits : unlimitedOutcome o v ≠ .error (.fault .tooDeep) := by simp [hv]
  have hfits' : unlimitedOutcome o w ≠ .error (.fault .tooDeep) := by simp [hw]
  obtain ⟨_, _, hshort, _⟩ := outcome_classifies_words o v hfits
  obtain ⟨_, hsurplus, _, _, _, _, hinvalid⟩ :=
    outcome_classifies_words o w hfits'
  obtain ⟨hderivable, hseveral⟩ := hshort.1 hv
  exact ⟨v, w, o, rfl, rfl, rfl, hfits, hv, rfl, hderivable, hseveral, hfits',
    hsurplus.1 hw, hinvalid hw⟩

end Combinatory
