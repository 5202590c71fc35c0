/-
Strings, numbers, truth values and dates of a configuration file.  A reader
takes what it reads off the front of the text and gives the rest, or nothing
when the text does not fit.
-/
import Combinatory.Toml.Datum

namespace Combinatory.Toml

/-- Whether a character may not stand in a string or a comment: a control other
than the tab. -/
def isControl (c : Char) : Bool :=
  (c.toNat < 0x20 && c != '\t') || c.toNat == 0x7F

def digitOf? (base : Nat) (c : Char) : Option Nat :=
  let value :=
    if '0' ≤ c ∧ c ≤ '9' then some (c.toNat - '0'.toNat)
    else if 'a' ≤ c ∧ c ≤ 'f' then some (c.toNat - 'a'.toNat + 10)
    else if 'A' ≤ c ∧ c ≤ 'F' then some (c.toNat - 'A'.toNat + 10)
    else none
  value.filter (· < base)

def ofDigits (base : Nat) (digits : List Nat) : Nat :=
  digits.foldl (fun n d => base * n + d) 0

/-- The digits of a text, in which one underscore may stand between two
digits. -/
def groupedDigits? (base : Nat) :
    (afterDigit : Bool) → List Char → Option (List Nat)
  | afterDigit, [] => if afterDigit then some [] else none
  | afterDigit, c :: cs =>
    if c = '_' then if afterDigit then groupedDigits? base false cs else none
    else do
      let d ← digitOf? base c
      let ds ← groupedDigits? base true cs
      return d :: ds

def digits? (base : Nat) (cs : List Char) : Option (List Nat) :=
  groupedDigits? base false cs

def codePoint? (digits : List Char) : Option Char := do
  let ds ← digits.mapM (digitOf? 16)
  let n := ofDigits 16 ds
  if n.isValidChar then some (Char.ofNat n) else none

def letterEscape? (c : Char) : Option Char :=
  [('b', '\x08'), ('t', '\t'), ('n', '\n'), ('f', '\x0c'), ('r', '\r'),
    ('\x22', '\x22'), ('\\', '\\')].lookup c

/-- The character behind a backslash, and the text after it. -/
def escaped? : List Char → Option (Char × List Char)
  | 'u' :: cs =>
    if 4 ≤ cs.length then (codePoint? (cs.take 4)).map (·, cs.drop 4) else none
  | 'U' :: cs =>
    if 8 ≤ cs.length then (codePoint? (cs.take 8)).map (·, cs.drop 8) else none
  | c :: cs => (letterEscape? c).map (·, cs)
  | [] => none

/-- What is left of a text after a line break that a backslash hides: the break
and all blank space that follows.  Only blanks may stand before the break. -/
def hiddenBreak? (cs : List Char) : Option (List Char) :=
  match cs.dropWhile fun c => c = ' ' || c = '\t' with
  | '\n' :: rest =>
    some (rest.dropWhile fun c => c = ' ' || c = '\t' || c = '\n')
  | _ => none

/-- How a string is written: which mark closes it, whether it may hold line
breaks (its mark is then written three times), and whether a backslash starts an
escape. -/
structure Quotation where
  mark : Char
  long : Bool
  escapes : Bool

/-- The text after the closing marks, if they stand in front; the marks that
still belong to a long string, at most two, come with it. -/
def Quotation.close? (q : Quotation) (cs : List Char) :
    Option (List Char × List Char) :=
  if q.long then
    let run := (cs.takeWhile (· = q.mark)).length
    if 3 ≤ run then
      let inside := min (run - 3) 2
      some (List.replicate inside q.mark, cs.drop (inside + 3))
    else none
  else
    match cs with
    | c :: rest => if c = q.mark then some ([], rest) else none
    | [] => none

/-- Read the inside of a string up to its closing mark.  Every round takes at
least one character, so the length of the text is fuel enough. -/
def Quotation.body (q : Quotation) :
    (fuel : Nat) → List Char → Option (List Char × List Char)
  | 0, _ => none
  | fuel + 1, cs =>
    match q.close? cs with
    | some result => some result
    | none =>
      match cs with
      | [] => none
      | c :: rest =>
        if c = '\\' && q.escapes then
          match escaped? rest with
          | some (d, rest) =>
            (q.body fuel rest).map fun (ds, rest) => (d :: ds, rest)
          | none =>
            if q.long then (hiddenBreak? rest).bind (q.body fuel) else none
        else if isControl c && !(q.long && c = '\n') then none
        else (q.body fuel rest).map fun (ds, rest) => (c :: ds, rest)

/-- A long string does not hold a line break right after its opening marks. -/
def dropBreak : List Char → List Char
  | '\n' :: rest => rest
  | cs => cs

/-- The opening of a string in front of a text: how the string is written, and
the text inside. -/
def opening? : List Char → Option (Quotation × List Char)
  | '\x22' :: '\x22' :: '\x22' :: rest =>
    some (⟨'\x22', true, true⟩, dropBreak rest)
  | '\x27' :: '\x27' :: '\x27' :: rest =>
    some (⟨'\x27', true, false⟩, dropBreak rest)
  | '\x22' :: rest => some (⟨'\x22', false, true⟩, rest)
  | '\x27' :: rest => some (⟨'\x27', false, false⟩, rest)
  | _ => none

def string? (cs : List Char) : Option (String × List Char) := do
  let (q, inside) ← opening? cs
  let (text, rest) ← q.body (inside.length + 1) inside
  return (String.ofList text, rest)

/-- Split a text at the first character of a kind; that character is left
out. -/
def splitFirst? (p : Char → Bool) (cs : List Char) :
    Option (List Char × List Char) :=
  match cs.dropWhile fun c => !p c with
  | _ :: rest => some (cs.takeWhile fun c => !p c, rest)
  | [] => none

def signed : List Char → Bool × List Char
  | '-' :: cs => (true, cs)
  | '+' :: cs => (false, cs)
  | cs => (false, cs)

/-- The digits of a whole part: no zero in front of another digit. -/
def wholeDigits? (cs : List Char) : Option (List Nat) := do
  let ds ← digits? 10 cs
  match ds with
  | 0 :: _ :: _ => none
  | _ => some ds

def decimal? (cs : List Char) : Option Int := do
  let (negative, cs) := signed cs
  let ds ← wholeDigits? cs
  if mostDigits < ds.length then none
  else
    let n := ofDigits 10 ds
    return if negative then -n else n

/-- A whole number in another base, marked by a zero and a letter. -/
def based? : List Char → Option Int
  | '0' :: 'x' :: cs => (digits? 16 cs).map fun ds => ofDigits 16 ds
  | '0' :: 'o' :: cs => (digits? 8 cs).map fun ds => ofDigits 8 ds
  | '0' :: 'b' :: cs => (digits? 2 cs).map fun ds => ofDigits 2 ds
  | _ => none

def exponent? (cs : List Char) : Option Int := do
  let (negative, cs) := signed cs
  let n := ofDigits 10 (← digits? 10 cs)
  return if negative then -n else n

/-- The magnitude of a number with a fraction or an exponent. -/
def magnitude? (cs : List Char) : Option Decimal := do
  let power := splitFirst? (fun c => c = 'e' || c = 'E') cs
  let (plain, exponent) ← match power with
    | some (plain, e) => (exponent? e).map fun e => (plain, e)
    | none => if cs.contains '.' then some (cs, 0) else none
  match splitFirst? (· = '.') plain with
  | some (whole, fraction) =>
    let ds ← wholeDigits? whole
    let fs ← digits? 10 fraction
    return ⟨ofDigits 10 (ds ++ fs), exponent - fs.length⟩
  | none =>
    let ds ← wholeDigits? plain
    return ⟨ofDigits 10 ds, exponent⟩

/-- A number with a fraction or an exponent, an infinity, or no number at all.
A minus sign takes the number from zero, so no zero is negative. -/
def float? (cs : List Char) : Option Float := do
  let (negative, cs) := signed cs
  let x ←
    if cs = ['i', 'n', 'f'] then some (1.0 / 0.0)
    else if cs = ['n', 'a', 'n'] then some (0.0 / 0.0)
    else (magnitude? cs).map Decimal.nearest
  return if negative then 0.0 - x else x

def daysIn (year month : Nat) : Nat :=
  if month = 2 then
    if year % 4 = 0 ∧ (year % 100 ≠ 0 ∨ year % 400 = 0) then 29 else 28
  else if month = 4 ∨ month = 6 ∨ month = 9 ∨ month = 11 then 30
  else 31

/-- The number written by exactly two digits, at most `bound`. -/
def twoDigits? (bound : Nat) (a b : Char) : Option Nat := do
  let n := ofDigits 10 [← digitOf? 10 a, ← digitOf? 10 b]
  if n ≤ bound then some n else none

def date? : List Char → Option Date
  | [a, b, c, d, '-', m, n, '-', x, y] => do
    let year := ofDigits 10 (← [a, b, c, d].mapM (digitOf? 10))
    let month ← twoDigits? 12 m n
    let day ← twoDigits? (daysIn year month) x y
    if year = 0 ∨ month = 0 ∨ day = 0 then none else some ⟨year, month, day⟩
  | _ => none

/-- Hour, minute and second in front of a text, and the text after them. -/
def clock? : List Char → Option (Time × List Char)
  | a :: b :: ':' :: c :: d :: ':' :: e :: f :: rest => do
    return (⟨← twoDigits? 23 a b, ← twoDigits? 59 c d, ← twoDigits? 59 e f, 0⟩,
      rest)
  | _ => none

/-- The digits of a fraction in front of a text, none if there is no fraction,
and the text after them. -/
def fraction? : List Char → Option (List Nat × List Char)
  | '.' :: rest => do
    let word := rest.takeWhile Char.isDigit
    if word.isEmpty then none
    else return (← word.mapM (digitOf? 10), rest.drop word.length)
  | rest => some ([], rest)

/-- A time of day.  A fraction of at least three digits is taken as a count of
microseconds, of which six digits are read; a shorter one is passed over. -/
def time? (cs : List Char) : Option Time := do
  let (time, rest) ← clock? cs
  let (digits, rest) ← fraction? rest
  if rest.isEmpty then
    return { time with
      microsecond := if digits.length < 3 then 0
        else ofDigits 10 (digits.take 6) }
  else none

/-- A distance from universal time, in minutes. -/
def offset? : List Char → Option (Option Int)
  | [] => some none
  | ['Z'] | ['z'] => some (some 0)
  | [sign, a, b, ':', c, d] => do
    let minutes : Int := 60 * (← twoDigits? 23 a b) + (← twoDigits? 59 c d)
    if sign = '+' then some (some minutes)
    else if sign = '-' then some (some (-minutes))
    else none
  | _ => none

/-- A date with a time of day, joined by the letter T or a blank.  Its fraction
is read to six places. -/
def moment? (cs : List Char) : Option Moment := do
  let date ← date? (cs.take 10)
  match cs.drop 10 with
  | joint :: rest =>
    if joint = 'T' ∨ joint = 't' ∨ joint = ' ' then
      let (time, rest) ← clock? rest
      let (digits, rest) ← fraction? rest
      let offset ← offset? rest
      let places := digits.take 6 ++ List.replicate (6 - digits.length) 0
      return ⟨date, { time with microsecond := ofDigits 10 places }, offset⟩
    else none
  | [] => none

/-- Whether a character can belong to a value that is written without quotes. -/
def isBareValue (c : Char) : Bool :=
  c.isAlphanum || c = '_' || c = '+' || c = '-' || c = '.' || c = ':'

/-- The text in front of which a value without quotes is read.  A blank belongs
to it between a date and a time of day. -/
def bareWord (cs : List Char) : List Char :=
  let word := cs.takeWhile isBareValue
  match cs.drop word.length with
  | ' ' :: rest =>
    if (date? word).isSome && (clock? rest).isSome then
      word ++ ' ' :: rest.takeWhile isBareValue
    else word
  | _ => word

def bareValue? (cs : List Char) : Option Datum :=
  if cs = ['t', 'r', 'u', 'e'] then some (.bool true)
  else if cs = ['f', 'a', 'l', 's', 'e'] then some (.bool false)
  else
    (decimal? cs).map .int <|> (based? cs).map .int <|>
      (float? cs).map .float <|>
      (date? cs).map .date <|> (time? cs).map .time <|> (moment? cs).map .moment

end Combinatory.Toml
