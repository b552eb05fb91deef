import TruthTables.Text.Justify

/-! # Truth tables -/
namespace TruthTables

inductive Cell
  | value (b : Bool)
  | blank
  deriving DecidableEq

namespace Cell

def isBlank (c : Cell) : Bool := c = .blank

def value? : Cell → Option Bool
  | value b => some b
  | blank => none

def digit (b : Bool) : String := if b then "1" else "0"

def text : Cell → String
  | value b => digit b
  | blank => ""

end Cell

inductive ColumnKind
  | primitive | separator | derived
  deriving DecidableEq

structure Column where
  label : String
  kind : ColumnKind
  deriving DecidableEq

def Column.isSeparator (c : Column) : Bool := c.kind = .separator

abbrev Row := List Cell

def Row.values (r : Row) : List Bool := r.filterMap Cell.value?

structure Table where
  title : String
  columns : List Column
  rows : List Row
  deriving DecidableEq

/-- A row that ends before the column that is asked for. -/
structure ShortRow where
  row : Row
  column : Nat
  deriving DecidableEq

namespace Table

def primitiveCount (t : Table) : Nat := t.columns.countP (·.kind = .primitive)

def derivedCount (t : Table) : Nat := t.columns.countP (·.kind = .derived)

/-- The first column with the given label. A separator is not looked at. -/
def columnIndex? (t : Table) (label : String) : Option Nat :=
  t.columns.findIdx? fun c => !c.isSeparator && c.label = label

/-- The values of a column, from the first row to the last. The first row that has no value there decides
what is wrong: it is too short, or it is blank and there are no values. -/
def valuesAt (rows : List Row) (i : Nat) : Except ShortRow (Option (List Bool)) :=
  match rows.find? fun r => (r[i]?.bind Cell.value?).isNone with
  | none => .ok (some (rows.filterMap fun r => r[i]?.bind Cell.value?))
  | some r => if r.length ≤ i then .error ⟨r, i⟩ else .ok none

def columnValues (t : Table) (label : String) : Except ShortRow (Option (List Bool)) :=
  match t.columnIndex? label with
  | none => .ok none
  | some i => valuesAt t.rows i

def valueColumns (t : Table) : List Column := t.columns.filter (!·.isSeparator)

theorem valuesAt_map (rows : List Row) (i : Nat) (v : Row → Bool)
    (h : ∀ r ∈ rows, r[i]? = some (.value (v r))) : valuesAt rows i = .ok (some (rows.map v)) := by
  have hf : rows.find? (fun r => (r[i]?.bind Cell.value?).isNone) = none := by
    simp only [List.find?_eq_none]
    intro r hr
    simp [h r hr, Cell.value?]
  have hm : rows.filterMap (fun r => r[i]?.bind Cell.value?) = rows.map v := by
    clear hf
    induction rows with
    | nil => rfl
    | cons r rows ih =>
      rw [List.filterMap_cons, h r (by simp)]
      simp [Cell.value?, ih fun r hr => h r (by simp [hr])]
  rw [valuesAt, hf, hm]

end Table

end TruthTables
