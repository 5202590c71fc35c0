/-
The grammar of formulas, F ::= s | k | i | ` F F, and the counter that decides
it.  Where the counter first meets zero, a formula ends; no formula is the
beginning of another one.  A counter that never meets zero changes by one at a
time and so stays above it, and as many atoms as it then stands at complete the
word.  Hence every word is a formula, goes on behind one, or is the beginning of
one, and the first zero tells which.
-/
import Combinatory.Proofs.Formula

namespace Combinatory.Word

variable {u v w : Word}

/-- The words of the grammar. -/
inductive Derivable : Word → Prop where
  | atom (a : Atom) : Derivable [.atom a]
  | apply {f x : Word} : Derivable f → Derivable x →
      Derivable (.apply :: (f ++ x))

/-- A formula stands at the front of the word, and more tokens behind it. -/
def Overfull (w : Word) : Prop :=
  ∃ v rest : Word, w = v ++ rest ∧ rest ≠ [] ∧ v.Derivable

/-- The word is the beginning of a formula, and not the whole of it. -/
def Unfinished (w : Word) : Prop :=
  ∃ rest : Word, rest ≠ [] ∧ Derivable (w ++ rest)

theorem derivable_tokens (t : Tree) : Derivable t.tokens := by
  induction t with
  | leaf a => exact .atom a
  | app f x ihf ihx => exact .apply ihf ihx

/-- The derivations of a word are the trees that are written as the word. -/
theorem derivable_iff : w.Derivable ↔ ∃ t : Tree, w = t.tokens := by
  constructor
  · intro hw
    induction hw with
    | atom a => exact ⟨.leaf a, rfl⟩
    | apply _ _ ihf ihx =>
        obtain ⟨f, rfl⟩ := ihf
        obtain ⟨x, rfl⟩ := ihx
        exact ⟨.app f x, rfl⟩
  · rintro ⟨t, rfl⟩
    exact derivable_tokens t

theorem Derivable.length_pos (hw : w.Derivable) : 0 < w.length := by
  cases hw <;> simp

theorem Derivable.closing?_append (hv : v.Derivable) (rest : Word) :
    closing? (v ++ rest) = some (v.length - 1) := by
  obtain ⟨t, rfl⟩ := derivable_iff.1 hv
  rw [closing?_tokens_append, Tree.length_tokens]

/-- Two formulas at the front of one word are the same. -/
theorem Derivable.eq_of_front (hu : u.Derivable) (hv : v.Derivable)
    (huw : u <+: w) (hvw : v <+: w) : u = v := by
  have hlength : u.length = v.length := by
    obtain ⟨ru, hru⟩ := huw
    obtain ⟨rv, hrv⟩ := hvw
    have hclosing := hu.closing?_append ru
    rw [hru, ← hrv, hv.closing?_append rv, Option.some.injEq] at hclosing
    have := hu.length_pos
    have := hv.length_pos
    omega
  exact (List.prefix_of_prefix_length_le huw hvw
    (Nat.le_of_eq hlength)).eq_of_length hlength

/-- The counter first meets zero at the last token of the formula at the
front. -/
theorem derivable_of_closing? {point : Nat}
    (hclosing : w.closing? = some point) :
    point < w.length ∧ Derivable (w.take (point + 1)) := by
  obtain ⟨t, rest, rfl, hnodes⟩ := exists_tree_of_closing? hclosing
  have hlength : t.tokens.length = point + 1 := by
    rw [Tree.length_tokens, hnodes]
  constructor
  · rw [List.length_append]
    omega
  · rw [← hlength, List.take_left]
    exact derivable_tokens t

/-- What the tokens of a word do to the counter. -/
def balance : Word → Int
  | [] => 0
  | t :: w => t.balance + balance w

@[simp] theorem balance_nil : balance [] = 0 := rfl

@[simp] theorem balance_cons (t : Token) (w : Word) :
    balance (t :: w) = t.balance + w.balance := rfl

@[simp] theorem balance_append (v w : Word) :
    balance (v ++ w) = v.balance + w.balance := by
  induction v with
  | nil => simp
  | cons t v ih =>
      rw [List.cons_append, balance_cons, balance_cons, ih, Int.add_assoc]

@[simp] theorem balance_reverse (w : Word) : balance w.reverse = w.balance := by
  induction w with
  | nil => rfl
  | cons t w ih =>
      rw [List.reverse_cons, balance_append, balance_cons, balance_cons,
        balance_nil, ih]
      omega

theorem balance_replicate_atom (n : Nat) (a : Atom) :
    balance (List.replicate n (.atom a)) = -(n : Int) := by
  induction n with
  | zero => rfl
  | succ n ih =>
      rw [List.replicate_succ, balance_cons, ih, Token.balance]
      omega

@[simp] theorem balance_tokens (t : Tree) : t.tokens.balance = -1 := by
  induction t with
  | leaf a => rfl
  | app f x ihf ihx => simp [Tree.tokens, Token.balance, ihf, ihx]

theorem balance_flatMap_tokens (trees : List Tree) :
    balance (trees.flatMap Tree.tokens) = -(trees.length : Int) := by
  induction trees with
  | nil => rfl
  | cons t trees ih =>
      rw [List.flatMap_cons, balance_append, balance_tokens, ih,
        List.length_cons]
      omega

theorem getLastD_countersFrom (counter : Int) (w : Word) :
    (countersFrom counter w).getLastD counter = counter + w.balance := by
  induction w generalizing counter with
  | nil => simp [countersFrom]
  | cons t w ih =>
      rw [countersFrom, List.getLastD_cons, ih, balance_cons, Int.add_assoc]

theorem finalCounter_eq (w : Word) : w.finalCounter = 1 + w.balance :=
  getLastD_countersFrom 1 w

/-- A word at which a counter of `n + 1` never meets zero lacks nothing but
atoms to be the words of `n + 1` trees. -/
theorem exists_atoms_of_not_closing {n : Nat}
    (hopen : closingFrom? (n + 1) w = none) :
    ∃ k : Nat, ∃ trees : List Tree, trees.length = n + 1 ∧
      w ++ List.replicate (k + 1) (.atom .i) = trees.flatMap Tree.tokens := by
  induction w generalizing n with
  | nil =>
      refine ⟨n, List.replicate (n + 1) (.leaf .i), List.length_replicate, ?_⟩
      simp [List.flatMap_replicate, Tree.tokens]
  | cons t w ih =>
      cases t with
      | atom a =>
          rw [closingFrom?_atom_cons] at hopen
          cases n with
          | zero => simp at hopen
          | succ n =>
              rw [if_neg (Nat.succ_ne_zero n), Option.map_eq_none_iff] at hopen
              obtain ⟨k, trees, hcount, hword⟩ := ih hopen
              refine ⟨k, .leaf a :: trees, by simp [hcount], ?_⟩
              simp [hword, Tree.tokens]
      | apply =>
          rw [closingFrom?_apply_cons, Option.map_eq_none_iff] at hopen
          obtain ⟨k, trees, hcount, hword⟩ := ih hopen
          rcases trees with _ | ⟨f, _ | ⟨x, trees⟩⟩
          · simp at hcount
          · simp at hcount
          · refine ⟨k, .app f x :: trees, by simpa using hcount, ?_⟩
            simpa [Tree.tokens] using hword

/-- A counter that never meets zero does not fall below it either. -/
theorem finalCounter_pos_of_closing?_eq_none (hopen : w.closing? = none) :
    0 < w.finalCounter := by
  obtain ⟨k, trees, hcount, hword⟩ := exists_atoms_of_not_closing (n := 0) hopen
  have hbalance := congrArg balance hword
  rw [balance_append, balance_replicate_atom, balance_flatMap_tokens,
    hcount] at hbalance
  rw [finalCounter_eq]
  omega

theorem ofCounter_of_closing?_eq_none (hopen : w.closing? = none) :
    FormulaError.ofCounter w.finalCounter = .notEnoughAtoms :=
  if_pos (finalCounter_pos_of_closing?_eq_none hopen)

theorem derivable_iff_closing? :
    w.Derivable ↔ ∃ point, w.closing? = some point ∧ point + 1 = w.length := by
  constructor
  · intro hw
    have hclosing := hw.closing?_append []
    rw [List.append_nil] at hclosing
    exact ⟨w.length - 1, hclosing, Nat.sub_add_cancel hw.length_pos⟩
  · rintro ⟨point, hclosing, hend⟩
    have hfront := (derivable_of_closing? hclosing).2
    rwa [hend, List.take_length] at hfront

theorem overfull_iff_closing? :
    w.Overfull ↔ ∃ point, w.closing? = some point ∧ point + 1 < w.length := by
  constructor
  · rintro ⟨v, rest, rfl, hrest, hv⟩
    have hpos := List.length_pos_iff.2 hrest
    refine ⟨v.length - 1, hv.closing?_append rest, ?_⟩
    rw [Nat.sub_add_cancel hv.length_pos, List.length_append]
    omega
  · rintro ⟨point, hclosing, hmore⟩
    refine ⟨w.take (point + 1), w.drop (point + 1),
      (List.take_append_drop _ w).symm, ?_, (derivable_of_closing? hclosing).2⟩
    exact List.ne_nil_of_length_pos (by rw [List.length_drop]; omega)

/-- The unfinished words are those at which the counter never meets zero: a
formula inside the word would be a proper beginning of the formula that
completes it. -/
theorem unfinished_iff_closing? : w.Unfinished ↔ w.closing? = none := by
  constructor
  · rintro ⟨rest, hrest, hwhole⟩
    cases hclosing : w.closing? with
    | none => rfl
    | some point =>
        have hfront := (derivable_of_closing? hclosing).2
        have heq := hfront.eq_of_front hwhole
          ((List.take_prefix _ w).trans (List.prefix_append w rest))
            (List.prefix_refl _)
        have hlength := congrArg List.length heq
        have hpos := List.length_pos_iff.2 hrest
        rw [List.length_take, List.length_append] at hlength
        omega
  · intro hopen
    obtain ⟨k, trees, hcount, hword⟩ :=
      exists_atoms_of_not_closing (n := 0) hopen
    obtain ⟨t, rfl⟩ := List.length_eq_one_iff.1 hcount
    refine ⟨List.replicate (k + 1) (.atom .i), by simp, ?_⟩
    rw [hword, List.flatMap_singleton]
    exact derivable_tokens t

/-- The formula that the counter finds at the front is the only one there. -/
theorem prefix_derivable_iff {point : Nat} (hclosing : w.closing? = some point)
    (v : Word) :
    v <+: w ∧ v.Derivable ↔ v = w.take (point + 1) := by
  have hfront := (derivable_of_closing? hclosing).2
  constructor
  · rintro ⟨hbegins, hv⟩
    exact hv.eq_of_front hfront hbegins (List.take_prefix _ w)
  · rintro rfl
    exact ⟨List.take_prefix _ w, hfront⟩

/-- Every word is in exactly one of three classes, and the counter tells which.
A formula is accepted and closed by its last token.  A word that goes on behind
a formula has surplus tokens, and the closing point is the end of that formula,
the only one at the front of the word.  The beginning of a formula has not
enough atoms.  So no search for a closing point finds surplus tokens, and
validation finds them nowhere but behind a closing point. -/
theorem counter_decides_grammar (w : Word) :
    (w.Derivable ∧ ¬ w.Overfull ∧ ¬ w.Unfinished ∧
        w.validate = .ok () ∧ w.closingPoint = .ok (w.length - 1) ∨
      w.Overfull ∧ ¬ w.Derivable ∧ ¬ w.Unfinished ∧
        w.validate = .error .surplusTokens ∧
        (∃ point, w.closingPoint = .ok point ∧ point + 1 < w.length ∧
          ∀ v : Word, v <+: w ∧ v.Derivable ↔ v = w.take (point + 1)) ∨
      w.Unfinished ∧ ¬ w.Derivable ∧ ¬ w.Overfull ∧
        w.validate = .error .notEnoughAtoms ∧
        w.closingPoint = .error .notEnoughAtoms) ∧
    w.closingPoint ≠ .error .surplusTokens ∧
    (w.closing? ≠ none ∨
      FormulaError.ofCounter w.finalCounter = .notEnoughAtoms) := by
  rw [derivable_iff_closing?, overfull_iff_closing?, unfinished_iff_closing?,
    validate, closingPoint]
  cases hclosing : w.closing? with
  | none =>
      have herror := ofCounter_of_closing?_eq_none hclosing
      simp [herror]
  | some point =>
      have hpoint := (derivable_of_closing? hclosing).1
      by_cases hmore : point + 1 < w.length
      · have hend : ¬ point + 1 = w.length := by omega
        simpa [hmore, hend] using prefix_derivable_iff hclosing
      · have hend : point + 1 = w.length := by omega
        have hlast : w.length - 1 = point := by omega
        simp [hend, hlast]

end Combinatory.Word
