/-
The running counter of a word.  It starts at one formula still to be read; an
application mark asks for one more and an atom delivers one.  The formula at the
front of a word ends where the counter first reaches zero.
-/
import Combinatory.Word.Basic

namespace Combinatory

/-- What a token does to the number of formulas still to be read. -/
def Token.balance : Token → Int
  | .apply => 1
  | .atom _ => -1

/-- The error of a word whose counter never reaches zero, by the value at which
it ends. -/
def FormulaError.ofCounter (counter : Int) : FormulaError :=
  if 0 < counter then .notEnoughAtoms else .surplusTokens

namespace Word

/-- The counter after each token, from a given start. -/
def countersFrom (counter : Int) : Word → List Int
  | [] => []
  | t :: w => (counter + t.balance) :: countersFrom (counter + t.balance) w

def counters (w : Word) : List Int := countersFrom 1 w

def finalCounter (w : Word) : Int := w.counters.getLastD 1

/-- The place of the first counter with a given value. -/
def firstIndex? (value : Int) (counters : List Int) : Option Nat :=
  counters.findIdx? (· == value)

/-- The index of the token that closes the formula at the front, if one does. -/
def closing? (w : Word) : Option Nat := firstIndex? 0 w.counters

def validate (w : Word) : Except FormulaError Unit :=
  match w.closing? with
  | some point => if point + 1 < w.length then .error .surplusTokens else .ok ()
  | none => .error (.ofCounter w.finalCounter)

/-- The index of the token that closes the formula at the front. -/
def closingPoint (w : Word) : Except FormulaError Nat :=
  match w.closing? with
  | some point => .ok point
  | none => .error (.ofCounter w.finalCounter)

@[simp] theorem length_countersFrom (counter : Int) (w : Word) :
    (countersFrom counter w).length = w.length := by
  induction w generalizing counter with
  | nil => rfl
  | cons t w ih => simp [countersFrom, ih]

theorem lt_length_of_closingPoint {w : Word} {point : Nat}
    (h : w.closingPoint = .ok point) : point < w.length := by
  unfold closingPoint at h
  split at h
  · next hclosing =>
    cases h
    have hfound := (List.findIdx?_eq_some_iff_getElem.1 hclosing).1
    rw [counters, length_countersFrom] at hfound
    exact hfound
  · cases h

/-- No word of less than `indexBound` tokens refuses to be cut behind the
formula at its front. -/
theorem split_of_closingPoint {w : Word} {point : Nat}
    (hword : w.length < indexBound) (h : w.closingPoint = .ok point) :
    w.split (point + 1) = .ok (w.take (point + 1), w.drop (point + 1)) [] :=
  split_of_lt w (Nat.lt_of_le_of_lt (lt_length_of_closingPoint h) hword)

def ofFormula (text : String) : Except InputError Word :=
  match lex text with
  | .error e => .error (.lex e)
  | .ok w =>
    match w.validate with
    | .error e => .error (.formula e)
    | .ok () => .ok w

end Word

end Combinatory
