/-
A snapshot of a file system around a working directory, and the walk along a
path in it.  Outside the working directory only the places are known that every
system has.
-/
import Combinatory.Settings.Load

namespace Combinatory

/-- Files and directories by their places: the names on the way from the
root. -/
structure FileTree where
  files : List (List String × ByteArray)
  directories : List (List String)

namespace FileTree

/-- The place of the working directory, which stands among the temporary files
under a name that no path can mention. -/
def home : List String := ["tmp", ""]

def rootNames : List String :=
  ["bin", "boot", "dev", "etc", "home", "lib", "media", "mnt", "opt", "proc",
    "root", "run", "sbin", "srv", "sys", "tmp", "usr", "var"]

/-- A file system with an empty working directory.  The null device reads as an
empty file. -/
def empty : FileTree where
  files := [(["dev", "null"], .empty)]
  directories := [] :: home :: rootNames.map fun name => [name]

/-- The place from which the names of a path are followed. -/
def start (path : String) : List String :=
  if path.startsWith "/" then [] else home

/-- The place that one more name leads to. -/
def advance (place : List String) (name : String) : List String :=
  if name = "" ∨ name = "." then place
  else if name = ".." then place.dropLast
  else place ++ [name]

/-- Make the directories on the way along names, and give the place they lead
to. -/
def enter (tree : FileTree) (place : List String) :
    List String → FileTree × List String
  | [] => (tree, place)
  | name :: rest =>
    let place := advance place name
    enter { tree with directories := place :: tree.directories } place rest

def addFile (tree : FileTree) (path : String) (content : ByteArray) :
    FileTree :=
  let names := path.splitOn "/"
  let (tree, place) := tree.enter (start path) names.dropLast
  { tree with files := (place ++ names.getLast?.toList, content) :: tree.files }

def addDirectory (tree : FileTree) (path : String) : FileTree :=
  (tree.enter (start path) (path.splitOn "/")).1

def find (tree : FileTree) (place : List String) : Found :=
  match tree.files.lookup place with
  | some content => .file content
  | none => if tree.directories.contains place then .directory else .nothing

/-- Follow names from a place; every name has to be looked up in a directory. -/
def walk (tree : FileTree) (place : List String) : List String → Found
  | [] => tree.find place
  | name :: rest =>
    match tree.find place with
    | .directory => walk tree (advance place name) rest
    | _ => .nothing

def longestPath : Nat := 4095

/-- What stands at a path of the snapshot; nothing stands at one that is empty
or too long. -/
def look (tree : FileTree) (path : String) : Found :=
  if path.isEmpty ∨ longestPath < path.utf8ByteSize then .nothing
  else tree.walk (start path) (path.splitOn "/")

end FileTree

end Combinatory
