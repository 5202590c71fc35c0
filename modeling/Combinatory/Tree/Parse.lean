/-
Reading a word as a tree.  The loop keeps the parts of the word that are still
to be read, and the trees that are built and wait to be joined.
-/
import Combinatory.Word.Balance
import Combinatory.Tree.Basic

namespace Combinatory

/-- Why a word gives no tree: it is not a formula, or the loop finds no tree
where it needs one. -/
inductive ParseError where
  | formula (error : FormulaError)
  | missingTree
  deriving DecidableEq

namespace Tree

/-- A pending piece of work: read a part of the word, or join the last two
trees. -/
inductive ParseTask where
  | read (part : Word)
  | join

/-- An upper bound on the rounds a task takes, its subtasks included. -/
def ParseTask.cost : ParseTask → Nat
  | .read part => 3 * part.length + 1
  | .join => 1

/-- Work off the tasks.  A part that starts with an application mark is cut
behind the formula that follows the mark: the first piece is the function, the
second the argument. -/
def parseLoop : List ParseTask → List Tree → Except ParseError (List Tree)
  | [], built => .ok built
  | .join :: todo, argument :: function :: built =>
    parseLoop todo (.app function argument :: built)
  | .join :: _, _ => .error .missingTree
  | .read (.atom a :: _) :: todo, built => parseLoop todo (.leaf a :: built)
  | .read [] :: _, _ => .error (.formula .notEnoughAtoms)
  | .read (.apply :: rest) :: todo, built =>
    match Word.closingPoint rest with
    | .error e => .error (.formula e)
    | .ok point =>
      parseLoop (.read (rest.take (point + 1)) ::
        .read (rest.drop (point + 1)) :: .join :: todo) built
termination_by todo => todo.foldr (fun task rounds => task.cost + rounds) 0
decreasing_by
  · simp only [List.foldr_cons, ParseTask.cost]
    omega
  · simp only [List.foldr_cons, ParseTask.cost]
    omega
  · simp only [List.foldr_cons, ParseTask.cost, List.length_cons,
      List.length_take, List.length_drop]
    omega

section

variable {part front back left : Word} {a : Atom} {todo : List ParseTask}
  {built : List Tree}

theorem parseLoop_read_atom (hfirst : part.dequeue.1 = some (.atom a)) :
    parseLoop (.read part :: todo) built =
      parseLoop todo (.leaf a :: built) := by
  match part with
  | .atom b :: rest =>
    cases hfirst
    rw [parseLoop]

theorem parseLoop_read_error {e : FormulaError}
    (hfirst : ∀ a, part.dequeue.1 ≠ some (.atom a))
    (hpoint : part.dequeue.2.closingPoint = .error e) :
    parseLoop (.read part :: todo) built = .error (.formula e) := by
  match part with
  | [] =>
    cases hpoint
    rw [parseLoop]
    rfl
  | .atom b :: rest => exact absurd rfl (hfirst b)
  | .apply :: rest =>
    change Word.closingPoint rest = .error e at hpoint
    rw [parseLoop, hpoint]

/-- A part that starts with no atom is cut behind the formula that follows its
first token. -/
theorem parseLoop_read_split {point : Nat}
    (hfirst : ∀ a, part.dequeue.1 ≠ some (.atom a))
    (hpoint : part.dequeue.2.closingPoint = .ok point)
    (hcut : part.dequeue.2.split (point + 1) = .ok (front, back) left) :
    parseLoop (.read part :: todo) built =
      parseLoop (.read front :: .read back :: .join :: todo) built := by
  obtain ⟨rfl, rfl⟩ := Word.eq_of_split hcut
  clear hcut
  match part with
  | [] => cases hpoint
  | .atom b :: rest => exact absurd rfl (hfirst b)
  | .apply :: rest =>
    change Word.closingPoint rest = .ok point at hpoint
    rw [parseLoop, hpoint]
    rfl

end

def parse (w : Word) : Except ParseError Tree :=
  match w.validate with
  | .error e => .error (.formula e)
  | .ok () =>
    match parseLoop [.read w] [] with
    | .error e => .error e
    | .ok (t :: _) => .ok t
    | .ok [] => .error .missingTree

/-- Why a text gives no tree. -/
inductive ReadError where
  | lex (error : LexError)
  | parse (error : ParseError)
  deriving DecidableEq

def ofText (text : String) : Except ReadError Tree :=
  match Word.lex text with
  | .error e => .error (.lex e)
  | .ok w =>
    match parse w with
    | .error e => .error (.parse e)
    | .ok t => .ok t

end Tree

end Combinatory
