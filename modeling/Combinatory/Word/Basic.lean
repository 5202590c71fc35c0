/-
Words: sequences of tokens in prefix order, not necessarily formulas.  Reading a
text and writing a word are inverse to each other, character by character.
-/
import Combinatory.Token
import Combinatory.Complaint

namespace Combinatory

/-- The tokens of a text, in reading order. -/
abbrev Word := List Token

/-- The atom of a given name, or a complaint about the name. -/
def Atom.ofName (name : String) : Except UnknownAtom Atom :=
  match Atom.ofName? name with
  | some a => .ok a
  | none => .error ⟨name⟩

/-- Why no token can be fetched at an index. -/
inductive IndexError where
  | outOfRange
  | tooWide
  deriving DecidableEq

/-- Why a word cannot be cut at an index: the index is no end for the front
part, or no pair of bounds for the two parts. -/
inductive CutError where
  | stop
  | bounds
  deriving DecidableEq

def IndexError.message : IndexError → String
  | .outOfRange => "deque index out of range"
  | .tooWide => "cannot fit 'int' into an index-sized integer"

def CutError.message : CutError → String
  | .stop =>
    "Stop argument for islice() must be None or an integer: " ++
      "0 <= x <= sys.maxsize."
  | .bounds =>
    "Indices for islice() must be None or an integer: 0 <= x <= sys.maxsize."

/-- Indices have 64 bits and a sign. -/
def indexBound : Nat := 0x8000000000000000

def isIndex (n : Int) : Bool := -indexBound ≤ n && n < indexBound

namespace Word

/-- Read characters as tokens, the first of them standing at `position`. -/
def lexFrom (position : Nat) : List Char → Except LexError Word
  | [] => .ok []
  | c :: cs =>
    match Token.ofChar? c with
    | none => .error ⟨position, c⟩
    | some t =>
      match lexFrom (position + 1) cs with
      | .error e => .error e
      | .ok w => .ok (t :: w)

def lex (text : String) : Except LexError Word := lexFrom 0 text.toList

def chars (w : Word) : List Char := w.map Token.char

def text (w : Word) : String := String.ofList w.chars

/-- A word as it is shown among other values. -/
def display (w : Word) : String := s!"Sequence({Text.quoted w.text})"

def arities (w : Word) : List Nat := w.map Token.arity

/-- Cut a word in two and leave nothing of it.  The first part has `index`
tokens, or all when there are fewer.  A negative index or one that is no index
is refused, and the word is left as it is. -/
def split (w : Word) (index : Int) :
    EStateM.Result CutError Word (Word × Word) :=
  if !isIndex index || index = -1 then .error .stop w
  else if index < 0 then .error .bounds w
  else .ok (w.take index.toNat, w.drop index.toNat) []

theorem eq_of_split {w front back left : Word} {index : Int}
    (h : w.split index = .ok (front, back) left) :
    front = w.take index.toNat ∧ back = w.drop index.toNat := by
  unfold split at h
  split at h
  · cases h
  · split at h
    · cases h
    · cases h
      exact ⟨rfl, rfl⟩

theorem split_of_lt (w : Word) {index : Nat} (h : index < indexBound) :
    w.split index = .ok (w.take index, w.drop index) [] := by
  have hindex : isIndex index = true := by
    simp only [isIndex, Bool.and_eq_true, decide_eq_true_eq]
    omega
  have hsign : ¬ (index : Int) < 0 := by omega
  have hlast : (index : Int) ≠ -1 := by omega
  simp [split, hindex, hsign, hlast]

/-- The token at an index; negative indices count from the end. -/
def get (w : Word) (index : Int) : Except IndexError Token :=
  if !isIndex index then .error .tooWide
  else
    let place := if index < 0 then index + w.length else index
    if place < 0 then .error .outOfRange
    else
      match w[place.toNat]? with
      | some t => .ok t
      | none => .error .outOfRange

/-- Compare a word with another one, or with a text, which never equals it. -/
def equals (w : Word) : Word ⊕ String → Bool
  | .inl v => w = v
  | .inr _ => false

def dequeue : Word → Option Token × Word
  | [] => (none, [])
  | t :: w => (some t, w)

def pop (w : Word) : Option Token × Word := (w.getLast?, w.dropLast)

@[simp] theorem lexFrom_chars (position : Nat) (w : Word) :
    lexFrom position w.chars = .ok w := by
  induction w generalizing position with
  | nil => rfl
  | cons t w ih =>
    change lexFrom position (t.char :: chars w) = _
    simp [lexFrom, ih]

/-- Reading what was written gives the word back. -/
@[simp] theorem lex_text (w : Word) : lex w.text = .ok w := by
  simp [lex, text]

theorem chars_of_lexFrom {position : Nat} {cs : List Char} {w : Word}
    (h : lexFrom position cs = .ok w) : w.chars = cs := by
  induction cs generalizing position w with
  | nil => cases h; rfl
  | cons c cs ih =>
    unfold lexFrom at h
    split at h
    · cases h
    · next t ht =>
      split at h
      · cases h
      · next v hv =>
        cases h
        have hc := Token.ofChar?_eq_some_iff.1 ht
        change t.char :: chars v = c :: cs
        rw [ih hv, hc]

/-- A word that was read is written as the text it was read from. -/
theorem text_of_lex {s : String} {w : Word} (h : lex s = .ok w) :
    w.text = s := by
  rw [text, chars_of_lexFrom h, String.ofList_toList]

theorem text_append (v w : Word) : text (v ++ w) = v.text ++ w.text := by
  simp [text, chars]

end Word

end Combinatory
