/-
Tables under construction.  A header, a dotted key and an array header may each
add to tables that are already there, but none may define again what another has
defined; how a table came about decides who may still add to it.
-/
import Combinatory.Toml.Datum

namespace Combinatory.Toml

/-- How a table came about: only named on the way to another table, declared by
a header of its own, or made by a dotted key. -/
inductive Origin where
  | implied
  | declared
  | dotted
  deriving DecidableEq

/-- What stands under a key: a finished value, a table, or an array of tables
that may grow. -/
inductive Node where
  | value (d : Datum)
  | table (origin : Origin) (entries : List (String × Node))
  | array (elements : List (List (String × Node)))

/-- The entries of a table under construction, in the order of the file. -/
abbrev Entries := List (String × Node)

namespace Entries

/-- Replace what stands under a key; a new key goes to the end. -/
def alter? (key : String) (change : Option Node → Option Node) :
    Entries → Option Entries
  | [] => (change none).map fun node => [(key, node)]
  | (k, node) :: rest =>
    if k = key then (change (some node)).map fun node => (k, node) :: rest
    else (alter? key change rest).map ((k, node) :: ·)

/-- Change the table under a key that is on the way of a header: the last one of
an array, and a new one where there is none. -/
def through (change : Entries → Option Entries) : Option Node → Option Node
  | none => (change []).map (.table .implied)
  | some (.table origin entries) => (change entries).map (.table origin)
  | some (.array elements) =>
    match elements.reverse with
    | [] => none
    | last :: before =>
      (change last).map fun last => .array (before.reverse ++ [last])
  | some (.value _) => none

/-- Change the table that the header `path` leads to. -/
def within (change : Entries → Option Entries) :
    (path : List String) → Entries → Option Entries
  | [], entries => change entries
  | key :: path, entries => alter? key (through (within change path)) entries

/-- Give a key without a value the value `d`. -/
def assign? (key : String) (d : Datum) : Entries → Option Entries :=
  alter? key fun
    | none => some (.value d)
    | some _ => none

/-- Define a dotted key.  The tables on its way must not be declared by a
header. -/
def define (d : Datum) : (path : List String) → Entries → Option Entries
  | [], _ => none
  | [key], entries => assign? key d entries
  | key :: path, entries =>
    alter? key (fun
      | none => (define d path []).map (.table .dotted)
      | some (.table .declared _) => none
      | some (.table _ inner) => (define d path inner).map (.table .dotted)
      | some _ => none) entries

/-- Declare the table `key`, which may so far only be implied. -/
def declare (key : String) : Entries → Option Entries :=
  alter? key fun
    | none => some (.table .declared [])
    | some (.table .implied entries) => some (.table .declared entries)
    | some _ => none

/-- Start the next table of the array `key`. -/
def extend (key : String) : Entries → Option Entries :=
  alter? key fun
    | none => some (.array [[]])
    | some (.array elements) => some (.array (elements ++ [[]]))
    | some _ => none

end Entries

mutual

def Node.finish : Node → Datum
  | .value d => d
  | .table _ entries => .table (Node.finishEntries entries)
  | .array elements => .list (Node.finishElements elements)

def Node.finishEntries : List (String × Node) → List (String × Datum)
  | [] => []
  | (key, node) :: rest => (key, node.finish) :: Node.finishEntries rest

def Node.finishElements : List (List (String × Node)) → List Datum
  | [] => []
  | entries :: rest =>
    .table (Node.finishEntries entries) :: Node.finishElements rest

end

end Combinatory.Toml
