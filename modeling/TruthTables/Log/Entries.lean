import TruthTables.Formula.Read
import TruthTables.Log.Basic
import TruthTables.Table.Build

/-! # What the parts of the program log -/
namespace TruthTables.Log

def ofLexemes (ls : List Lexeme) : List Entry :=
  [⟨.trace, .parser, "tokens: " ++ String.intercalate " " (ls.map (·.token.text))⟩]

/-- The log of reading a text. The tokens are logged whether or not they make a formula. -/
def ofReading (level : Level) (src : String) : List Entry :=
  match Lexeme.ofString src with
  | .error _ => []
  | .ok ls => upTo level (ofLexemes ls)

def ofElement (e : Element) : Entry :=
  ⟨.trace, .evaluation, "#" ++ toString e.order ++ " " ++ e.label ++ " = " ++ toString e.value⟩

def ofEvaluation (ev : Evaluation) : List Entry := ev.elements.map ofElement

def ofVariables (vs : Variables) : List Entry :=
  ⟨.debug, .symbols, "registered " ++ toString vs.size ++ " variable(s): " ++ vs.text⟩ ::
    if vs.size ≤ Variables.maxCount then []
    else [⟨.warn, .symbols, toString vs.size ++ " variables exceed the " ++
      toString Variables.maxCount ++ "-variable row index, the table is incomplete"⟩]

/-- The start of an enumeration, with the pass that it is based on. -/
def ofEnumeration (e : Enumeration) : List Entry :=
  ofEvaluation (.run e.formula .empty) ++ ofVariables e.vars ++
    [⟨.debug, .enumeration, e.title ++ ": " ++ toString e.vars.size ++ " variable(s), " ++
      toString e.derivedLabels.length ++ " derived column(s), " ++ toString e.rowCount ++ " row(s)"⟩]

def valueList (bs : List Bool) : String := "[" ++ String.intercalate ", " (bs.map toString) ++ "]"

def ofRow (e : Enumeration) (index : Nat) : List Entry :=
  let r := e.row index
  ofEvaluation (.run e.formula (e.vars.valuation index)) ++
    [⟨.trace, .enumeration, "row " ++ toString index ++ ": " ++ valueList r.primitives ++ " | " ++
      valueList r.derived⟩]

/-- The log of a table that is given up before the row `stop`, if there is such a row. Entries on rows are
made only for a log that holds them. -/
def ofBuild (level : Level) (φ : Formula) (separator : String) (stop : Option Nat) : List Entry :=
  let e := Enumeration.ofFormula φ
  let columns := (Table.header e separator).length
  let aborted := stop.filter (· < e.rowCount)
  let rows := if level = .trace then (List.range (aborted.getD e.rowCount)).flatMap (ofRow e) else []
  let ending := match aborted with
    | some index => "enumeration aborted before row " ++ toString index
    | none => e.title ++ ": " ++ toString columns ++ " column(s) x " ++ toString e.rowCount ++ " row(s)"
  upTo level (ofEnumeration e ++ rows ++ [⟨.debug, .table, ending⟩])

end TruthTables.Log
