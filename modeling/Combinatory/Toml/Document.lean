/-
A decoder of configuration files by the rules of TOML 1.0.  A file is a sequence
of lines: headers, which choose the table that is filled from there on, and keys
with their values.
-/
import Combinatory.Toml.Scalar
import Combinatory.Toml.Table

namespace Combinatory.Toml

/-- A reader of the text in front of it. -/
abbrev Reader := StateT (List Char) Option

def skipBlanks : Reader Unit :=
  modify fun cs => cs.dropWhile fun c => c = ' ' || c = '\t'

/-- Take the next character if it is `c`, and say whether it was. -/
def accept (c : Char) : Reader Bool := do
  match ← get with
  | d :: rest =>
    if d = c then
      set rest
      return true
    else return false
  | [] => return false

def expect (c : Char) : Reader Unit := do
  unless ← accept c do failure

def skipComment : Reader Unit := do
  if ← accept '#' then
    let cs ← get
    let comment := cs.takeWhile (· != '\n')
    if comment.any isControl then failure
    set (cs.drop comment.length)

/-- Skip blanks and a comment, and take the end of the line or of the text. -/
def endOfLine : Reader Unit := do
  skipBlanks
  skipComment
  unless (← get).isEmpty do expect '\n'

/-- Skip blanks, comments and line ends inside brackets. -/
def skipLines : (fuel : Nat) → Reader Unit
  | 0 => return
  | fuel + 1 => do
    skipBlanks
    skipComment
    if ← accept '\n' then skipLines fuel

def isBareKey (c : Char) : Bool := c.isAlphanum || c = '_' || c = '-'

/-- Read one part of a key: a short string or a bare word. -/
def keyPart : Reader String := do
  let cs ← get
  match opening? cs with
  | some (q, _) =>
    if q.long then failure
    let (text, rest) ← string? cs
    set rest
    return text
  | none =>
    let word := cs.takeWhile isBareKey
    if word.isEmpty then failure
    set (cs.drop word.length)
    return String.ofList word

/-- Read a key, its parts joined by dots, and the blanks after it. -/
def key : (fuel : Nat) → Reader (List String)
  | 0 => failure
  | fuel + 1 => do
    skipBlanks
    let part ← keyPart
    skipBlanks
    if ← accept '.' then return part :: (← key fuel)
    else return [part]

/-- Read a value without quotes. -/
def bareValue : Reader Datum := do
  let cs ← get
  let word := bareWord cs
  let d ← bareValue? word
  set (cs.drop word.length)
  return d

mutual

def value : (fuel : Nat) → Reader Datum
  | 0 => failure
  | fuel + 1 => do
    if ← accept '[' then
      return .list (← items fuel)
    else if ← accept '\x7b' then
      skipBlanks
      if ← accept '\x7d' then return .table []
      return .table (Node.finishEntries (← fields fuel []))
    else
      let cs ← get
      if (opening? cs).isSome then
        let (text, rest) ← string? cs
        set rest
        return .text text
      else bareValue

/-- Read the items of a list up to its closing bracket; a comma may follow the
last one. -/
def items : (fuel : Nat) → Reader (List Datum)
  | 0 => failure
  | fuel + 1 => do
    skipLines fuel
    if ← accept ']' then return []
    let item ← value fuel
    skipLines fuel
    if ← accept ',' then return item :: (← items fuel)
    expect ']'
    return [item]

/-- Read the fields of a table in braces up to its closing brace; no comma
follows the last one. -/
def fields : (fuel : Nat) → Entries → Reader Entries
  | 0, _ => failure
  | fuel + 1, entries => do
    let path ← key fuel
    expect '='
    skipBlanks
    let d ← value fuel
    let entries ← Entries.define d path entries
    skipBlanks
    if ← accept ',' then fields fuel entries
    else
      expect '\x7d'
      return entries

end

/-- A file read so far: its entries, and the header that is filled. -/
structure Draft where
  entries : Entries := []
  header : List String := []

/-- Add a header to a draft: declare its table, or start the next table of its
array. -/
def Draft.openHeader (d : Draft) (array : Bool) (path : List String) :
    Option Draft := do
  let last ← path.getLast?
  let change := if array then Entries.extend last else Entries.declare last
  let entries ← d.entries.within change path.dropLast
  return { entries, header := path }

/-- Add a key and its value to the table that is filled. -/
def Draft.put (d : Draft) (path : List String) (v : Datum) : Option Draft := do
  let entries ← d.entries.within (Entries.define v path) d.header
  return { d with entries }

/-- Read one line into a draft. -/
def line (fuel : Nat) (d : Draft) : Reader Draft := do
  skipBlanks
  match (← get).head? with
  | none | some '\n' | some '#' =>
    endOfLine
    return d
  | some '[' =>
    expect '['
    let array ← accept '['
    let path ← key fuel
    expect ']'
    if array then expect ']'
    let d ← d.openHeader array path
    endOfLine
    return d
  | some _ =>
    let path ← key fuel
    expect '='
    skipBlanks
    let v ← value fuel
    let d ← d.put path v
    endOfLine
    return d

def linesLoop : (fuel : Nat) → Draft → Reader Draft
  | 0, _ => failure
  | fuel + 1, d => do
    if (← get).isEmpty then return d
    linesLoop fuel (← line (fuel + 1) d)

def unifyBreaks : List Char → List Char
  | '\r' :: '\n' :: cs => '\n' :: unifyBreaks cs
  | '\r' :: cs => '\n' :: unifyBreaks cs
  | c :: cs => c :: unifyBreaks cs
  | [] => []

/-- The entries of a text with line feeds, in the order in which they are
written.  Every line and every nested value takes at least one character, so the
length of the text is fuel enough. -/
def document (cs : List Char) : Option (List (String × Datum)) := do
  let (d, _) ← (linesLoop (cs.length + 1) {}).run cs
  return Node.finishEntries d.entries

def parse (text : String) : Option (List (String × Datum)) :=
  document (unifyBreaks text.toList)

def decode : Decoder := fun content =>
  match String.fromUTF8? content with
  | none => .error (.badEncoding "not a text in UTF-8")
  | some text =>
    match parse text with
    | none => .error (.badSyntax "no configuration by TOML 1.0")
    | some entries => .ok entries

end Combinatory.Toml
