/-
Messages on the console.  The console reads square brackets as markup where they
enclose a style, leaves out the controls that would move the cursor back, and
sets tabs at every eighth column.
-/
import Combinatory.Text.Columns

namespace Combinatory.Console

/-- Whether an opening bracket followed by this text would start a style: its
first character is one that styles start with, and the bracket is closed before
another one opens. -/
def opensStyle : List Char → Bool
  | [] => false
  | c :: rest =>
    (('a' ≤ c && c ≤ 'z') || c = '#' || c = '/' || c = '@') &&
      rest.find? (fun d => d = '[' || d = ']') == some ']'

/-- The brackets of a style are shown as they are written; any other opening
bracket takes up one backslash before it. -/
def showBrackets : List Char → List Char
  | '\\' :: '[' :: rest =>
    if opensStyle rest then '\\' :: '[' :: showBrackets rest
    else '[' :: showBrackets rest
  | c :: rest => c :: showBrackets rest
  | [] => []

/-- A single backslash at the end is written twice. -/
def closeBackslash (cs : List Char) : List Char :=
  if (cs.reverse.takeWhile (· = '\\')).length = 1 then cs ++ ['\\'] else cs

/-- Whether the console leaves a character out: bell, backspace, vertical tab,
form feed and carriage return. -/
def isLeftOut (c : Char) : Bool :=
  [0x07, 0x08, 0x0B, 0x0C, 0x0D].contains c.toNat

def tabWidth : Nat := 8

/-- The number of blanks that bring a column to the next tab stop, none at a tab
stop. -/
def padding (column : Nat) : Nat := (tabWidth - column % tabWidth) % tabWidth

/-- Replace every tab by a blank and the padding after it.  Text is measured
afresh after each tab and on each line. -/
def expandTabs (extent : Text.Extent) : List Char → List Char
  | [] => []
  | '\t' :: rest =>
    let column := (extent.push ' ').width
    let gap := padding column
    ' ' :: (List.replicate gap ' ' ++ expandTabs { width := column + gap } rest)
  | '\n' :: rest => '\n' :: expandTabs {} rest
  | c :: rest => c :: expandTabs (extent.push c) rest

def line (message : String) : String :=
  let shown := showBrackets (closeBackslash message.toList)
  String.ofList (expandTabs {} (shown.filter fun c => !isLeftOut c)) ++ "\n"

end Combinatory.Console
