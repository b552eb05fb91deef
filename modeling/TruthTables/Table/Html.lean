import TruthTables.Table.Basic

/-! # Tables as HTML documents -/
namespace TruthTables.Table

namespace Html

def escapeChar : Char → List Char
  | '&' => ['&', 'a', 'm', 'p', ';']
  | '<' => ['&', 'l', 't', ';']
  | '>' => ['&', 'g', 't', ';']
  | '\x22' => ['&', 'q', 'u', 'o', 't', ';']
  | c => [c]

def escape (s : String) : String := String.ofList (s.toList.flatMap escapeChar)

def style : String :=
  "*\x7bmargin:0; padding:0;\x7d" ++
  "body\x7bfont-family:\x22Helvetica Neue\x22, sans-serif; padding:20px;\x7d" ++
  "h1\x7bmargin:10px 0px;font-weight:normal;\x7d" ++
  "table\x7btext-align:center;border-collapse:collapse;\x7d" ++
  "tr:nth-child(odd)\x7bbackground:#eee\x7d" ++
  "td,th\x7bpadding:2px 5px;border:1px solid #ccc;\x7d"

def headerRow (t : Table) : String :=
  "<tr><th>" ++ String.intercalate "</th><th>" (t.columns.map (escape ·.label)) ++ "</th></tr>"

def row (r : Row) : String :=
  "<tr><td>" ++ String.intercalate "</td><td>" (r.map Cell.text) ++ "</td></tr>"

end Html

def toHtml (t : Table) : String :=
  "<!DOCTYPE html>\n<h1>Truth table for " ++ Html.escape t.title ++ "</h1><style>" ++ Html.style ++
    "</style><table>" ++ Html.headerRow t ++ String.join (t.rows.map Html.row) ++ "</table>\n"

end TruthTables.Table
