/-
What can be wrong with an input or a reduction, and how it is worded.
-/
import Combinatory.Text.Quoted

namespace Combinatory

/-- Why a word of tokens is not one formula. -/
inductive FormulaError where
  | notEnoughAtoms
  | surplusTokens
  deriving DecidableEq

/-- The first character of a text that is outside the alphabet. -/
structure LexError where
  position : Nat
  char : Char
  deriving DecidableEq

/-- Why a text is not a formula. -/
inductive InputError where
  | lex (error : LexError)
  | formula (error : FormulaError)
  deriving DecidableEq

/-- Why a reduction was abandoned: its step allowance is used up, or its
applications nest too deeply. -/
inductive Fault where
  | stepLimit (limit : Int)
  | tooDeep
  deriving DecidableEq

/-- A name that belongs to no atom. -/
structure UnknownAtom where
  name : String
  deriving DecidableEq

def characterMessage (position : Int) (found : String) : String :=
  s!"unexpected {Text.quoted found} at position {position}"

def stepLimitMessage (limit : Int) : String :=
  s!"gave up after {limit} reduction steps"

namespace FormulaError

def message : FormulaError → String
  | .notEnoughAtoms =>
    "not enough atoms: an application is missing its function or argument"
  | .surplusTokens => "surplus tokens: left over after the formula is complete"

end FormulaError

namespace LexError

def message (e : LexError) : String :=
  characterMessage e.position (String.singleton e.char)

end LexError

namespace InputError

def message : InputError → String
  | .lex e => e.message
  | .formula e => e.message

end InputError

namespace UnknownAtom

def message (e : UnknownAtom) : String :=
  s!"{Text.quoted e.name} is not one of s, k, i"

end UnknownAtom

/-- The groups of complaints that a caller can ask for as a whole. -/
inductive Family where
  | invalidFormula
  | formulaError
  | badValue
  | failedRun
  deriving DecidableEq

/-- A complaint put together by hand.  The shape complaints take a wording of
their own; without one, or with an empty one, the standard wording stands. -/
inductive Complaint where
  | invalid (text : String)
  | character (position : Int) (found : String)
  | malformed (wording : Option String)
  | unbalanced (error : FormulaError) (wording : Option String)
  | stepLimit (limit : Int)
  deriving DecidableEq

namespace Complaint

/-- A wording if there is one to speak of, and the standard one otherwise. -/
def wordingOr (standard : String) : Option String → String
  | some wording => if wording.isEmpty then standard else wording
  | none => standard

def message : Complaint → String
  | .invalid text => text
  | .character position found => characterMessage position found
  | .malformed wording => wordingOr "malformed formula" wording
  | .unbalanced e wording => wordingOr e.message wording
  | .stepLimit limit => stepLimitMessage limit

def families : Complaint → List Family
  | .invalid _ | .character _ _ => [.invalidFormula, .badValue]
  | .malformed _ | .unbalanced _ _ =>
    [.invalidFormula, .formulaError, .badValue]
  | .stepLimit _ => [.failedRun]

end Complaint

end Combinatory
