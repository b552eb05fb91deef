import TruthTables.Enumeration.Basic
import TruthTables.Table.Basic

/-! # The truth table of a formula -/
namespace TruthTables

/-- The cells of a row, with a blank between the variables and the rest. -/
def Row.ofValues (r : RowValues) : Row := r.primitives.map .value ++ .blank :: r.derived.map .value

namespace Table

def header (e : Enumeration) (separator : String) : List Column :=
  e.vars.names.map (⟨·, .primitive⟩) ++ ⟨separator, .separator⟩ ::
    e.derivedLabels.map (⟨·, .derived⟩)

/-- The table of all rows to come. The storage that is reserved for them is left out: at 24 bytes for each row there
is room for the rows of 58 variables at most, and a program that asks for more breaks down before the first row. -/
def ofEnumeration (e : Enumeration) (separator : String) : Table :=
  { title := e.title
    columns := header e separator
    rows := (e.take e.remaining).map Row.ofValues }

def ofFormula (φ : Formula) (separator : String) : Table := ofEnumeration (.ofFormula φ) separator

section BuildUntil

variable {σ : Type}

/-- Whether the row to come is declined. Where no row is left, there is no question about one. -/
def declinesNext (proceed : Nat → StateM σ Bool) (e : Enumeration) : StateM σ Bool :=
  if 0 < e.remaining then (!·) <$> proceed (e.rowCount - e.remaining) else pure false

/-- Adds the rows to come, one in each round, unless one of them is declined. The last round finds that no row
is left, so one round more than there are rows is enough. -/
def addRows (proceed : Nat → StateM σ Bool) :
    (rounds : Nat) → Enumeration → Array Row → StateM σ (Option (Array Row))
  | 0, _, _ => pure none
  | rounds + 1, e, rows => do
    if ← declinesNext proceed e then pure none
    else match e.next? with
      | none => pure (some rows)
      | some (r, e) => addRows proceed rounds e (rows.push (.ofValues r))

def buildUntil (φ : Formula) (separator : String) (proceed : Nat → StateM σ Bool) : StateM σ (Option Table) := do
  let e := Enumeration.ofFormula φ
  let rows ← addRows proceed (e.remaining + 1) e #[]
  pure (rows.map fun rows => ⟨e.title, header e separator, rows.toList⟩)

end BuildUntil

end Table

end TruthTables
