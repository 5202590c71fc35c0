/-
Combinator values: the primitive combinators together with the arguments they
hold while they wait for more.  No value contains anything left to reduce.
-/
import Combinatory.Token

namespace Combinatory

/-- A combinator and the arguments it holds.  The index counts the held
arguments. -/
inductive Value where
  | s
  | k
  | i
  | s₁ (x : Value)
  | k₁ (x : Value)
  | s₂ (x y : Value)
  deriving DecidableEq

namespace Value

def ofAtom : Atom → Value
  | .s => .s
  | .k => .k
  | .i => .i

/-- Whether one more argument makes a rule fire; otherwise the value only takes
hold of it. -/
def fires : Value → Bool
  | .i | .k₁ _ | .s₂ _ _ => true
  | .s | .k | .s₁ _ => false

def length : Value → Nat
  | .s | .k | .i => 1
  | .s₁ x | .k₁ x => 1 + x.length
  | .s₂ x y => 1 + x.length + y.length

/-- The formula of a value, written out directly. -/
def text : Value → String
  | .s => "s"
  | .k => "k"
  | .i => "i"
  | .s₁ x => "`s" ++ x.text
  | .k₁ x => "`k" ++ x.text
  | .s₂ x y => "``s" ++ x.text ++ y.text

end Value

end Combinatory
