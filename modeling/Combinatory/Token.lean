/-
The alphabet of the calculus.  A formula is written in prefix order with four
characters: a mark for application and one letter for each primitive combinator.
-/

namespace Combinatory

inductive Atom where
  | s
  | k
  | i
  deriving DecidableEq

/-- One character of a formula: an atom, or the mark that joins the function and
the argument written after it. -/
inductive Token where
  | apply
  | atom (a : Atom)
  deriving DecidableEq

namespace Atom

def all : List Atom := [.s, .k, .i]

def char : Atom → Char
  | .s => 's'
  | .k => 'k'
  | .i => 'i'

def name (a : Atom) : String := String.singleton a.char

def ofName? (name : String) : Option Atom :=
  all.find? fun a => a.name = name

theorem char_injective {a b : Atom} (h : a.char = b.char) : a = b := by
  cases a <;> cases b <;> simp_all [char]

end Atom

namespace Token

def char : Token → Char
  | .apply => '\x60'
  | .atom a => a.char

def ofChar? (c : Char) : Option Token :=
  if c = '\x60' then some .apply
  else (Atom.all.find? fun a => a.char = c).map .atom

def ofText? (text : String) : Option Token :=
  match text.toList with
  | [c] => ofChar? c
  | _ => none

/-- How many formulas have to follow a token to complete it. -/
def arity : Token → Nat
  | .apply => 2
  | .atom _ => 0

@[simp] theorem ofChar?_char (t : Token) : ofChar? t.char = some t := by
  cases t with
  | apply => rfl
  | atom a => cases a <;> rfl

/-- A character is read as a token exactly when it is that token's character. -/
theorem ofChar?_eq_some_iff {c : Char} {t : Token} :
    ofChar? c = some t ↔ c = t.char := by
  constructor
  · intro h
    unfold ofChar? at h
    split at h
    · next hc => cases h; exact hc
    · obtain ⟨a, ha, rfl⟩ := Option.map_eq_some_iff.1 h
      have := List.find?_some ha
      exact (of_decide_eq_true this).symm
  · rintro rfl
    exact ofChar?_char t

theorem char_injective {t u : Token} (h : t.char = u.char) : t = u := by
  have := ofChar?_char t
  rw [h, ofChar?_char] at this
  exact (Option.some.inj this).symm

end Token

end Combinatory
