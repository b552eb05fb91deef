import TruthTables.Graph.Basic
import TruthTables.Text.Quoted

/-! # Graphs in the language of GraphViz -/
namespace TruthTables

def Connective.name : Connective → String
  | and => "And"
  | or => "Or"
  | xor => "Xor"
  | implies => "Implies"
  | iff => "Iff"
  | join => "Join"

namespace Graph

def nodeLabel : Formula → String
  | .symbol name => "Var " ++ name
  | .not _ => "Not"
  | .binary c _ _ => c.name

/-- A character in a label. All but the printed ones of ASCII are written as escapes. -/
def escapeChar (c : Char) : List Char :=
  if c = '\t' then ['\\', 't']
  else if c = '\r' then ['\\', 'r']
  else if c = '\n' then ['\\', 'n']
  else if c = '\x27' || c = '\x22' || c = '\\' then ['\\', c]
  else if ' ' ≤ c && c ≤ '~' then [c]
  else Text.codePoint c

def labelAttribute (label : String) : String :=
  "[label=\x22" ++ String.ofList (label.toList.flatMap escapeChar) ++ "\x22];"

def nodeId (n : Nat) : String := "n_" ++ toString n

def nodeLine (φ : Formula) (n : Nat) : String :=
  "    " ++ nodeId n ++ labelAttribute (nodeLabel φ)

def edgeLine (e : Edge) : String :=
  "    " ++ nodeId e.source ++ " -> " ++ nodeId e.target ++ labelAttribute e.label

def dotLines (g : Graph) : List String :=
  "digraph parse_tree \x7b" ::
    (g.nodes.zipIdx.map fun (φ, n) => nodeLine φ n) ++ g.edges.map edgeLine ++ ["\x7d"]

def toDot (g : Graph) : String := String.join (g.dotLines.map (· ++ "\n"))

end Graph

end TruthTables
