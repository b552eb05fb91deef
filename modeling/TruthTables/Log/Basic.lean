/-! # Log entries -/
namespace TruthTables.Log

inductive Level
  | off | error | warn | info | debug | trace
  deriving DecidableEq

namespace Level

def rank : Level → Nat
  | off => 0
  | error => 1
  | warn => 2
  | info => 3
  | debug => 4
  | trace => 5

def name : Level → String
  | off => "OFF"
  | error => "ERROR"
  | warn => "WARN"
  | info => "INFO"
  | debug => "DEBUG"
  | trace => "TRACE"

end Level

/-- The part of the program that an entry is about. -/
inductive Target
  | program | parser | evaluation | symbols | enumeration | table
  deriving DecidableEq

def Target.path : Target → String
  | program => "rstruth"
  | parser => "rstruth::parser"
  | evaluation => "rstruth::eval"
  | symbols => "rstruth::symbols"
  | enumeration => "rstruth::enumerate"
  | table => "rstruth::truth_table"

structure Entry where
  level : Level
  target : Target
  message : String
  deriving DecidableEq

def Entry.text (e : Entry) : String :=
  e.level.name ++ " " ++ e.target.path ++ ": " ++ e.message

def upTo (level : Level) (entries : List Entry) : List Entry :=
  entries.filter (·.level.rank ≤ level.rank)

end TruthTables.Log
