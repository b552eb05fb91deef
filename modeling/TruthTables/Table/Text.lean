import TruthTables.Table.Basic
import TruthTables.Text.Blank

/-! # Tables as aligned text -/
namespace TruthTables.Table

/-- A column is as wide as its label, and never without width. -/
def width (c : Column) : Nat := max 1 c.label.length

/-- Fields side by side. What is blank at the end of a line is left out. -/
def textLine (fields : List String) : String := Text.trimEnd (String.intercalate "  " fields)

def rule (c : Column) : String :=
  String.ofList (List.replicate (width c) (if c.isSeparator then ' ' else '-'))

def headerLine (t : Table) : String :=
  textLine (t.columns.map fun c => Text.justify .center (width c) c.label)

def ruleLine (t : Table) : String := textLine (t.columns.map rule)

def rowLine (t : Table) (r : Row) : String :=
  textLine (List.zipWith (fun cell c => Text.justify .center (width c) cell.text) r t.columns)

def hasFields (t : Table) : Bool := t.columns.all (width · ≤ Text.maxWidth)

def textLines (t : Table) : List String :=
  ("Truth table for " ++ t.title) :: "" :: t.headerLine :: t.ruleLine :: t.rows.map t.rowLine

def toText (t : Table) : String := String.join (t.textLines.map (· ++ "\n"))

def textHeading (t : Table) : String := "Truth table for " ++ t.title ++ "\n\n"

end TruthTables.Table
