import TruthTables.Valuation

/-! # The variables of a table and the bits of its row numbers -/
namespace TruthTables

/-- Distinct names. The first of them belongs to the highest bit of a row number and the last to the lowest,
so that the first column of a table changes least often. -/
structure Variables where
  names : List String
  deriving DecidableEq

namespace Variables

/-- How many variables a row number of 128 bits can serve without a gap. -/
def maxCount : Nat := 127

def ofList (names : List String) : Variables := ⟨names.eraseDups⟩

def size (vs : Variables) : Nat := vs.names.length

def isEmpty (vs : Variables) : Bool := vs.names.isEmpty

def bit (vs : Variables) (place : Nat) : Nat := vs.size - 1 - place

/-- One row for every choice of values, as far as 128 bits can count them. -/
def rowCount (vs : Variables) : Nat := min (1 <<< vs.size) (1 <<< 128 - 1)

def valuation (vs : Variables) (row : Nat) : Valuation :=
  .ofList (vs.names.zipIdx.map fun (name, place) => (name, row.testBit (vs.bit place)))

def text (vs : Variables) : String :=
  String.intercalate ", " (vs.names.zipIdx.map fun (name, place) =>
    name ++ "=bit" ++ toString (vs.bit place))

end Variables

end TruthTables
