/-
A quick check of the rules on a handful of values: identity, constant,
substitution, the written form, the atom count and the step count.
-/
import Combinatory.Value.Apply

namespace Combinatory.Value

/-- The outcome of an application nested no deeper than a thousand levels. -/
def outcome? (f x : Value) : Option Value :=
  match apply none 1000 f x 0 with
  | .ok v _ => some v
  | .error _ _ => none

def samples : List Value :=
  [.s, .k, .i, .s₁ .i, .k₁ .s, .s₂ .k (.s₁ .k), .s₂ (.k₁ .i) .i]

/-- Values that never copy their argument, so that every S step on them ends. -/
def simpleSamples : List Value := [.s, .k, .i, .k₁ .s]

/-- Both sides of the substitution rule are defined and agree. -/
def substitutes (x y z : Value) : Bool :=
  let whole := do (outcome? · z) (← (outcome? · y) (← outcome? .s x))
  let parts := do
    let left ← outcome? x z
    let right ← outcome? y z
    outcome? left right
  whole.isSome && whole == parts

def selfCheck : Bool :=
  (samples.all fun x => outcome? .i x == some x) &&
  (samples.all fun x => samples.all fun y =>
    (outcome? .k x).bind (outcome? · y) == some x) &&
  (simpleSamples.all fun x => simpleSamples.all fun y =>
    (samples.take 3).all fun z => substitutes x y z) &&
  text (.s₂ .i (.k₁ .s)) == "``si`ks" &&
  ((outcome? .s .i).bind (outcome? · .i)).bind (outcome? · .i) == some .i &&
  length (.s₂ (.s₁ .k) .i) == 4 &&
  (match apply none 1000 (.s₂ .i .i) .k 0 with
    | .ok _ steps => steps == 4
    | .error _ _ => false)

end Combinatory.Value
