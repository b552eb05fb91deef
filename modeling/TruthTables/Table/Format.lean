import TruthTables.Table.Csv
import TruthTables.Table.Html
import TruthTables.Table.Latex
import TruthTables.Table.Text

/-! # The formats of a table -/
namespace TruthTables

inductive Format
  | text | html | latex | csv
  deriving DecidableEq

namespace Format

def ofName? : String → Option Format
  | "text" => some text
  | "html" => some html
  | "latex" => some latex
  | "csv" => some csv
  | _ => none

end Format

/-- Why a table has no form in some format. -/
inductive RenderError
  | ragged (e : Table.RaggedRecord)
  | tooWide
  deriving DecidableEq

def RenderError.message : RenderError → String
  | ragged e => e.message
  | tooWide => "Formatting argument out of range"

def Table.render (t : Table) : Format → Except RenderError String
  | .text => if t.hasFields then .ok t.toText else .error .tooWide
  | .html => .ok t.toHtml
  | .latex => .ok t.toLatex
  | .csv =>
    match t.toCsv with
    | .error e => .error (.ragged e)
    | .ok s => .ok s

end TruthTables
