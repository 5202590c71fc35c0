/-
Words that are formulas.  From a counter of `n + 1` the tokens of a tree lower
the counter to `n` and stay above `n` on the way, so the formula at the front of
a word is closed by its last token.  Conversely a word whose counter comes down
to zero starts with as many trees as the counter counts.  Hence validation
accepts the words of trees and no others, and reading such a word gives the tree
back: reading and writing are inverse to each other.
-/
import Combinatory.Tree.Parse

namespace Combinatory

theorem Tree.nodes_pos (t : Tree) : 0 < t.nodes := by
  cases t <;> simp [Tree.nodes]

namespace Word

/-- The index of the token that brings the counter from `counter` down to
zero. -/
def closingFrom? (counter : Int) (w : Word) : Option Nat :=
  (countersFrom counter w).findIdx? (· == 0)

theorem closing?_eq (w : Word) : w.closing? = w.closingFrom? 1 := rfl

theorem closingFrom?_cons (counter : Int) (t : Token) (w : Word) :
    closingFrom? counter (t :: w) =
      if counter + t.balance = 0 then some 0
      else (closingFrom? (counter + t.balance) w).map (· + 1) := by
  simp only [closingFrom?, countersFrom, List.findIdx?_cons, beq_iff_eq]

theorem closingFrom?_atom_cons (n : Nat) (a : Atom) (w : Word) :
    closingFrom? (n + 1) (.atom a :: w) =
      if n = 0 then some 0 else (closingFrom? n w).map (· + 1) := by
  have hcounter : (n : Int) + 1 + (Token.atom a).balance = n := by
    simp only [Token.balance]
    omega
  simp only [closingFrom?_cons, hcounter, Int.natCast_eq_zero]

theorem closingFrom?_apply_cons (n : Nat) (w : Word) :
    closingFrom? (n + 1) (.apply :: w) =
      (closingFrom? ((n + 1 : Nat) + 1) w).map (· + 1) := by
  have hcounter : (n : Int) + 1 + Token.apply.balance = (n + 1 : Nat) + 1 := by
    simp [Token.balance]
  rw [closingFrom?_cons, hcounter, if_neg (by omega)]

/-- The tokens of a tree are passed over, unless they are the last ones that the
counter asks for. -/
theorem closingFrom?_tokens_append (t : Tree) (n : Nat) (w : Word) :
    closingFrom? (n + 1) (t.tokens ++ w) =
      if n = 0 then some (t.nodes - 1)
      else (closingFrom? n w).map (· + t.nodes) := by
  induction t generalizing n w with
  | leaf a =>
      rw [Tree.tokens, List.singleton_append, closingFrom?_atom_cons]
      by_cases hn : n = 0
      · simp [hn, Tree.nodes]
      · simp [hn, Tree.nodes]
  | app f x ihf ihx =>
      rw [Tree.tokens, List.cons_append, List.append_assoc,
        closingFrom?_apply_cons, ihf (n + 1), if_neg (Nat.succ_ne_zero n),
        Int.natCast_succ, ihx n]
      by_cases hn : n = 0
      · simp only [hn, if_true, Option.map_some, Tree.nodes, Option.some.injEq]
        have := x.nodes_pos
        omega
      · simp only [hn, if_false, Option.map_map, Tree.nodes]
        congr 1
        funext point
        simp only [Function.comp_apply]
        omega

/-- A counter that comes down to zero has counted the trees at the front of the
word. -/
theorem exists_trees_of_closingFrom? {n point : Nat} {w : Word}
    (hclosing : closingFrom? (n + 1) w = some point) :
    ∃ trees : List Tree, ∃ rest : Word, trees.length = n + 1 ∧
      w = trees.flatMap Tree.tokens ++ rest ∧
      (trees.flatMap Tree.tokens).length = point + 1 := by
  induction w generalizing n point with
  | nil => cases hclosing
  | cons t w ih =>
      cases t with
      | atom a =>
          rw [closingFrom?_atom_cons] at hclosing
          cases n with
          | zero =>
              cases hclosing
              exact ⟨[.leaf a], w, rfl, rfl, rfl⟩
          | succ n =>
              rw [if_neg (Nat.succ_ne_zero n)] at hclosing
              obtain ⟨point, hpoint, rfl⟩ := Option.map_eq_some_iff.1 hclosing
              obtain ⟨trees, rest, hcount, rfl, hlength⟩ := ih hpoint
              refine ⟨.leaf a :: trees, rest, by simp [hcount], rfl, ?_⟩
              simp [Tree.tokens, hlength]
      | apply =>
          rw [closingFrom?_apply_cons] at hclosing
          obtain ⟨point, hpoint, rfl⟩ := Option.map_eq_some_iff.1 hclosing
          obtain ⟨trees, rest, hcount, rfl, hlength⟩ := ih hpoint
          rcases trees with _ | ⟨f, _ | ⟨x, trees⟩⟩
          · simp at hcount
          · simp at hcount
          · refine ⟨.app f x :: trees, rest, by simpa using hcount, ?_, ?_⟩
            · simp [Tree.tokens]
            · simpa [Tree.tokens] using hlength

theorem closing?_tokens_append (t : Tree) (w : Word) :
    closing? (t.tokens ++ w) = some (t.nodes - 1) :=
  closingFrom?_tokens_append t 0 w

theorem exists_tree_of_closing? {w : Word} {point : Nat}
    (hclosing : w.closing? = some point) :
    ∃ t : Tree, ∃ rest : Word, w = t.tokens ++ rest ∧ t.nodes = point + 1 := by
  obtain ⟨trees, rest, hcount, rfl, hlength⟩ :=
    exists_trees_of_closingFrom? (n := 0) hclosing
  obtain ⟨t, rfl⟩ := List.length_eq_one_iff.1 hcount
  exact ⟨t, rest, by simp, by simpa using hlength⟩

theorem closingPoint_tokens_append (t : Tree) (w : Word) :
    closingPoint (t.tokens ++ w) = .ok (t.nodes - 1) := by
  rw [closingPoint, closing?_tokens_append]

@[simp] theorem validate_tokens (t : Tree) : validate t.tokens = .ok () := by
  have hclosing := closing?_tokens_append t []
  rw [List.append_nil] at hclosing
  have hend : ¬ t.nodes - 1 + 1 < t.tokens.length := by
    have := t.nodes_pos
    rw [Tree.length_tokens]
    omega
  rw [validate, hclosing]
  exact if_neg hend

/-- Validation accepts the words of trees and no others. -/
theorem validate_eq_ok_iff {w : Word} :
    validate w = .ok () ↔ ∃ t : Tree, w = t.tokens := by
  constructor
  · intro hvalid
    unfold validate at hvalid
    split at hvalid
    · next point hclosing =>
      obtain ⟨t, rest, rfl, hnodes⟩ := exists_tree_of_closing? hclosing
      split at hvalid
      · cases hvalid
      · next hend =>
        rw [List.length_append, Tree.length_tokens] at hend
        have hrest : rest = [] := List.length_eq_zero_iff.1 (by omega)
        exact ⟨t, by rw [hrest, List.append_nil]⟩
    · cases hvalid
  · rintro ⟨t, rfl⟩
    exact validate_tokens t

end Word

namespace Tree

/-- Reading the word of a tree puts the tree on top of what is built.  The mark
is followed by the words of the function and of the argument, and the cut falls
between them. -/
theorem parseLoop_read_tokens (t : Tree) (todo : List ParseTask)
    (built : List Tree) :
    parseLoop (.read t.tokens :: todo) built = parseLoop todo (t :: built) := by
  induction t generalizing todo built with
  | leaf a => rw [tokens, parseLoop]
  | app f x ihf ihx =>
      have hcut : f.nodes - 1 + 1 = f.tokens.length := by
        have := f.nodes_pos
        rw [length_tokens]
        omega
      rw [tokens, parseLoop, Word.closingPoint_tokens_append]
      simp only [hcut, List.take_left, List.drop_left]
      rw [ihf, ihx, parseLoop]

@[simp] theorem parse_tokens (t : Tree) : parse t.tokens = .ok t := by
  simp [parse, parseLoop_read_tokens, parseLoop]

theorem text_eq (t : Tree) : t.text = Word.text t.tokens := by
  rw [text, serialize_eq]

/-- The text of a tree is read as the tree. -/
@[simp] theorem ofText_text (t : Tree) : ofText t.text = .ok t := by
  simp [ofText, text_eq]

theorem text_injective {t u : Tree} (h : t.text = u.text) : t = u := by
  have hread := ofText_text t
  rw [h, ofText_text] at hread
  cases hread
  rfl

theorem parse_of_validate_error {w : Word} {e : FormulaError}
    (hinvalid : w.validate = .error e) :
    parse w = .error (.formula e) := by
  simp only [parse, hinvalid]

/-- A word is read as a tree exactly if it is what the tree is written as. -/
theorem parse_eq_ok_iff {w : Word} {t : Tree} :
    parse w = .ok t ↔ t.serialize = w := by
  rw [serialize_eq]
  constructor
  · intro hparse
    cases hvalid : w.validate with
    | error e =>
        rw [parse_of_validate_error hvalid] at hparse
        cases hparse
    | ok _ =>
        obtain ⟨u, rfl⟩ := Word.validate_eq_ok_iff.1 hvalid
        rw [parse_tokens] at hparse
        cases hparse
        rfl
  · rintro rfl
    exact parse_tokens t

theorem ofText_eq_ok_iff {text : String} {t : Tree} :
    ofText text = .ok t ↔ t.text = text := by
  constructor
  · intro hread
    unfold ofText at hread
    split at hread
    · contradiction
    · next w hlex =>
      split at hread
      · contradiction
      · next u hparse =>
        cases hread
        rw [Tree.text, parse_eq_ok_iff.1 hparse, Word.text_of_lex hlex]
  · rintro rfl
    exact ofText_text t

/-- Reading and writing are inverse to each other.  A valid word is read as the
tree that is written as the word, and any other word is refused with the error
of its validation.  A part without tokens or without a closing point and a join
without two trees would be errors of the loop, so that on a valid word the loop
meets none of them and leaves exactly one tree.  The word of every tree is valid
and read as the tree, and a text is the text of at most one tree. -/
theorem parse_inverts_serialize :
    (∀ w : Word,
      match w.validate with
      | .ok () =>
          ∃ t, parseLoop [.read w] [] = .ok [t] ∧ parse w = .ok t ∧
            t.serialize = w
      | .error e => parse w = .error (.formula e)) ∧
    (∀ t : Tree, t.serialize.validate = .ok () ∧ parse t.serialize = .ok t) ∧
    (∀ (text : String) (t : Tree), ofText text = .ok t ↔ t.text = text) ∧
    ∀ t u : Tree, t.text = u.text ↔ t = u := by
  refine ⟨?_, ?_, fun _ _ => ofText_eq_ok_iff, ?_⟩
  · intro w
    cases hvalid : w.validate with
    | error e => exact parse_of_validate_error hvalid
    | ok _ =>
        obtain ⟨t, rfl⟩ := Word.validate_eq_ok_iff.1 hvalid
        have hloop : parseLoop [.read t.tokens] [] = .ok [t] := by
          rw [parseLoop_read_tokens, parseLoop]
        exact ⟨t, hloop, parse_tokens t, serialize_eq t⟩
  · intro t
    rw [serialize_eq]
    exact ⟨Word.validate_tokens t, parse_tokens t⟩
  · intro t u
    exact ⟨text_injective, congrArg text⟩

end Tree

@[simp] theorem Word.ofFormula_text (t : Tree) :
    Word.ofFormula t.text = .ok t.tokens := by
  simp [Word.ofFormula, Tree.text_eq]

def IsFormula (text : String) : Prop := ∃ w, Word.ofFormula text = .ok w

/-- A text that validation accepts is the text of a tree. -/
theorem IsFormula.exists_tree {text : String} (h : IsFormula text) :
    ∃ t : Tree, text = t.text := by
  obtain ⟨w, hw⟩ := h
  unfold Word.ofFormula at hw
  split at hw
  · contradiction
  · next v hlex =>
    split at hw
    · contradiction
    · next hvalid =>
      obtain ⟨t, rfl⟩ := Word.validate_eq_ok_iff.1 hvalid
      exact ⟨t, by rw [Tree.text_eq, Word.text_of_lex hlex]⟩

end Combinatory
