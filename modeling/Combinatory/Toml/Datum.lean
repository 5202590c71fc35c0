/-
The values of a configuration file, and how messages show them.
-/
import Combinatory.Decimal.Layout
import Combinatory.Text.Quoted

namespace Combinatory.Toml

structure Date where
  year : Nat
  month : Nat
  day : Nat
  deriving DecidableEq

structure Time where
  hour : Nat
  minute : Nat
  second : Nat
  microsecond : Nat
  deriving DecidableEq

/-- A date with a time of day and, if it is given, the distance from universal
time in minutes. -/
structure Moment where
  date : Date
  time : Time
  offset : Option Int
  deriving DecidableEq

/-- A value of a configuration file.  No file holds `nothing`; it is what a
setting without a value is checked as.  The entries of a table keep the order of
the file. -/
inductive Datum where
  | nothing
  | bool (b : Bool)
  | int (n : Int)
  | float (x : Float)
  | text (s : String)
  | date (d : Date)
  | time (t : Time)
  | moment (m : Moment)
  | list (items : List Datum)
  | table (entries : List (String × Datum))

/-- Numbers from a ten-thousandth up to below 10 ^ 16 are shown positionally,
others with an exponent of at least two digits. -/
def Datum.numbers : Decimal.Layout where
  positionalFrom := -4
  positionalBelow := 16
  exponentPlaces := 2

def Date.parts (d : Date) : List Nat := [d.year, d.month, d.day]

/-- The parts of a time of day that are shown: seconds and microseconds only up
to the last one that is not zero. -/
def Time.parts (t : Time) : List Nat :=
  [t.hour, t.minute] ++
    (if t.microsecond ≠ 0 then [t.second, t.microsecond]
      else if t.second ≠ 0 then [t.second] else [])

/-- The text of a distance from universal time; one to the west is a day back
and the rest of it forward. -/
def offsetText (minutes : Int) : String :=
  if minutes = 0 then "datetime.timezone.utc"
  else if minutes < 0 then
    let rest := 86400 + 60 * minutes
    s!"datetime.timezone(datetime.timedelta(days=-1, seconds={rest}))"
  else s!"datetime.timezone(datetime.timedelta(seconds={60 * minutes}))"

def callText (name : String) (arguments : List String) : String :=
  name ++ "(" ++ ", ".intercalate arguments ++ ")"

def Date.display (d : Date) : String :=
  callText "datetime.date" (d.parts.map toString)

def Time.display (t : Time) : String :=
  callText "datetime.time" (t.parts.map toString)

def Moment.display (m : Moment) : String :=
  callText "datetime.datetime" <|
    (m.date.parts ++ m.time.parts).map toString ++
      m.offset.toList.map fun minutes => "tzinfo=" ++ offsetText minutes

mutual

def Datum.display : Datum → String
  | .nothing => "None"
  | .bool true => "True"
  | .bool false => "False"
  | .int n => toString n
  | .float x => Datum.numbers.text x
  | .text s => Text.quoted s
  | .date d => d.display
  | .time t => t.display
  | .moment m => m.display
  | .list items => "[" ++ ", ".intercalate (Datum.displayItems items) ++ "]"
  | .table entries =>
    "\x7b" ++ ", ".intercalate (Datum.displayEntries entries) ++ "\x7d"

def Datum.displayItems : List Datum → List String
  | [] => []
  | item :: items => item.display :: Datum.displayItems items

def Datum.displayEntries : List (String × Datum) → List String
  | [] => []
  | (key, value) :: entries =>
    (Text.quoted key ++ ": " ++ value.display) :: Datum.displayEntries entries

end

/-- The number of digits that a decimal whole number can have at most, both in a
file and in a message. -/
def mostDigits : Nat := 4300

/-- What can keep a value from being shown: a whole number of too many digits,
or values nested more deeply than the stack has room for. -/
inductive Hindrance where
  | longNumber
  | deepNesting
  deriving DecidableEq

mutual

/-- The first thing that keeps a value from being shown, if there is one, where
at most `room` values can be shown one within another. -/
def Datum.hindrance? : (room : Nat) → Datum → Option Hindrance
  | 0, _ => some .deepNesting
  | _ + 1, .int n =>
    if n.natAbs < 10 ^ mostDigits then none else some .longNumber
  | room + 1, .list items => Datum.itemsHindrance? room items
  | room + 1, .table entries => Datum.entriesHindrance? room entries
  | _ + 1, .nothing | _ + 1, .bool _ | _ + 1, .float _ | _ + 1, .text _
  | _ + 1, .date _ | _ + 1, .time _ | _ + 1, .moment _ => none

def Datum.itemsHindrance? (room : Nat) : List Datum → Option Hindrance
  | [] => none
  | item :: items =>
    (item.hindrance? room).or (Datum.itemsHindrance? room items)

def Datum.entriesHindrance? (room : Nat) :
    List (String × Datum) → Option Hindrance
  | [] => none
  | (_, value) :: entries =>
    (value.hindrance? room).or (Datum.entriesHindrance? room entries)

end

def longNumberMessage : String :=
  s!"Exceeds the limit ({mostDigits} digits) for integer string conversion; " ++
    "use sys.set_int_max_str_digits() to increase the limit"

def Hindrance.message : Hindrance → String
  | .longNumber => longNumberMessage
  | .deepNesting =>
    "maximum recursion depth exceeded while getting the repr of an object"

/-- The name messages have for the kind of a value. -/
def Datum.kind : Datum → String
  | .nothing => "NoneType"
  | .bool _ => "bool"
  | .int _ => "int"
  | .float _ => "float"
  | .text _ => "str"
  | .date _ => "datetime.date"
  | .time _ => "datetime.time"
  | .moment _ => "datetime.datetime"
  | .list _ => "list"
  | .table _ => "dict"

/-- Why a decoder gives no entries.  It finds the file wrong and says what is
wrong with it, or it breaks down without a verdict on the file. -/
inductive DecodeError where
  | badEncoding (message : String)
  | badSyntax (message : String)
  | failed (message : String)

def DecodeError.message : DecodeError → String
  | .badEncoding message | .badSyntax message | .failed message => message

/-- A reader of configuration files.  It gives the entries of a file in the
order in which they are written, each key once. -/
abbrev Decoder := ByteArray → Except DecodeError (List (String × Datum))

end Combinatory.Toml
