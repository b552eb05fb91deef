import TruthTables.Table.Basic

/-! # Tables as comma separated values -/
namespace TruthTables.Table

/-- A record with another number of fields than the one before it. -/
structure RaggedRecord where
  found : Nat
  previous : Nat
  deriving DecidableEq

def RaggedRecord.message (e : RaggedRecord) : String :=
  "CSV error: found record with " ++ toString e.found ++
    " fields, but the previous record has " ++ toString e.previous ++ " fields"

namespace Csv

def isSpecial (c : Char) : Bool := c = ',' || c = '\x22' || c = '\r' || c = '\n'

def doubleQuote (c : Char) : List Char := if c = '\x22' then [c, c] else [c]

def field (s : String) : String :=
  if s.toList.any isSpecial then "\x22" ++ String.ofList (s.toList.flatMap doubleQuote) ++ "\x22"
  else s

/-- A line must not be empty, since no record could be told from it. -/
def record (fields : List String) : String :=
  let line := String.intercalate "," (fields.map field)
  if line = "" then "\x22\x22\n" else line ++ "\n"

end Csv

def csvRecords (t : Table) : List (List String) :=
  t.valueColumns.map (·.label) :: t.rows.map fun r => r.values.map Cell.digit

/-- All records must be as long as the first. -/
def toCsv (t : Table) : Except RaggedRecord String :=
  match t.csvRecords.find? (·.length ≠ t.valueColumns.length) with
  | some record => .error ⟨record.length, t.valueColumns.length⟩
  | none => .ok (String.join (t.csvRecords.map Csv.record))

end TruthTables.Table
