/-! # Files that are opened for writing -/
namespace TruthTables.CommandLine

inductive OpenError
  | missing
  | notDirectory
  | isDirectory
  | nameTooLong
  deriving DecidableEq

def OpenError.message : OpenError → String
  | missing => "No such file or directory (os error 2)"
  | notDirectory => "Not a directory (os error 20)"
  | isDirectory => "Is a directory (os error 21)"
  | nameTooLong => "File name too long (os error 36)"

/-- What a path leads to: a place for a new file, a file, or a device that takes everything, that is full or
that shows what it takes. -/
inductive File
  | absent
  | regular (text : String)
  | sink
  | full
  | standardOutput
  | standardError
  | unavailable (reason : String)
  deriving DecidableEq

/-- An opened file starts out empty. -/
def File.opened : File → File
  | absent | regular _ => regular ""
  | f => f

abbrev Disk := String → File

def Disk.put (disk : Disk) (path : String) (f : File) : Disk :=
  fun other => if other = path then f else disk other

inductive Node
  | directory
  | file (f : File)
  deriving DecidableEq

/-- Directories and files with the names on the way to them from the root, and the directory in which relative
paths start. -/
structure Tree where
  nodes : List (List String × Node)
  working : List String

namespace Tree

def maxName : Nat := 255

def maxPath : Nat := 4095

def node? (t : Tree) (place : List String) : Option Node :=
  if place = [] then some .directory else t.nodes.lookup place

def enter (t : Tree) (place : List String) (name : String) : Except OpenError (List String) :=
  if name = "." then .ok place
  else if name = ".." then .ok place.dropLast
  else if maxName < name.utf8ByteSize then .error .nameTooLong
  else match t.node? (place ++ [name]) with
    | some .directory => .ok (place ++ [name])
    | some (.file _) => .error .notDirectory
    | none => .error .missing

def fileIn (t : Tree) (place : List String) (name : String) : Except OpenError File :=
  if maxName < name.utf8ByteSize then .error .nameTooLong
  else match t.node? (place ++ [name]) with
    | some .directory => .error .isDirectory
    | some (.file f) => .ok f
    | none => .ok .absent

/-- The names in a path. Slashes side by side are one. -/
def names (path : String) : List String :=
  ((path.toList.splitOn '/').filter (· ≠ [])).map String.ofList

def start (t : Tree) (path : String) : List String := if path.toList.head? = some '/' then [] else t.working

/-- Walks along a path. What ends in a slash or a dot can be a directory only. -/
def find (t : Tree) (path : String) : Except OpenError File :=
  if maxPath < path.utf8ByteSize then .error .nameTooLong
  else do
    let place ← (names path).dropLast.foldlM t.enter (t.start path)
    match (names path).getLast? with
    | none => .error .isDirectory
    | some name =>
      if path.toList.getLast? = some '/' || name = "." || name = ".." then .error .isDirectory
      else t.fileIn place name

def disk (t : Tree) : Disk := fun path =>
  match t.find path with
  | .error e => .unavailable e.message
  | .ok f => f

end Tree

end TruthTables.CommandLine
