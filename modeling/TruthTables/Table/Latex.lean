import TruthTables.Table.Basic

/-! # Tables as LaTeX environments -/
namespace TruthTables.Table

namespace Latex

/-- The command for a sign. The one for negation ends in a space, because a name may follow it. -/
def command : Char → List Char
  | '∧' => ['\\', 'l', 'a', 'n', 'd']
  | '∨' => ['\\', 'l', 'o', 'r']
  | '⊕' => ['\\', 'o', 'p', 'l', 'u', 's']
  | '→' => ['\\', 'r', 'i', 'g', 'h', 't', 'a', 'r', 'r', 'o', 'w']
  | '≡' => ['\\', 'e', 'q', 'u', 'i', 'v']
  | '¬' => ['\\', 'l', 'n', 'o', 't', ' ']
  | c => [c]

def label (s : String) : String := String.ofList (s.toList.flatMap command)

/-- A letter for every column and a bar for every separator. -/
def alignment (t : Table) : String :=
  String.ofList (t.columns.map fun c => if c.isSeparator then '|' else 'c')

def line (fields : List String) : String := String.intercalate " & " fields ++ " \\\\"

def headerLine (t : Table) : String := line (t.valueColumns.map fun c => "$" ++ label c.label ++ "$")

def rowLine (r : Row) : String := line (r.values.map Cell.digit)

end Latex

def latexLines (t : Table) : List String :=
  ("% truth table for " ++ t.title) ::
    ("\\begin\x7btabular\x7d\x7b" ++ Latex.alignment t ++ "\x7d") ::
    Latex.headerLine t :: "\\hline" :: t.rows.map Latex.rowLine ++ ["\\end\x7btabular\x7d"]

def toLatex (t : Table) : String := String.join (t.latexLines.map (· ++ "\n"))

end TruthTables.Table
