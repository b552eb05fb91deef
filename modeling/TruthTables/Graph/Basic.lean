import TruthTables.Formula.Basic

/-! # The graph of a formula, in which equal subformulas are one node -/
namespace TruthTables

/-- All subformulas, each before those that it is made of. -/
def Formula.subformulas : Formula → List Formula
  | .symbol name => [.symbol name]
  | .not φ => .not φ :: φ.subformulas
  | .binary c φ ψ => .binary c φ ψ :: (φ.subformulas ++ ψ.subformulas)

/-- An edge to an operand, with `L` and `R` for the operands of a connective. -/
structure Edge where
  source : Nat
  label : String
  target : Nat
  deriving DecidableEq

/-- A node is known by its place in the list. -/
structure Graph where
  nodes : List Formula
  deriving DecidableEq

namespace Graph

def ofFormula (φ : Formula) : Graph := ⟨φ.subformulas.eraseDups⟩

def operands : Formula → List (String × Formula)
  | .symbol _ => []
  | .not φ => [("", φ)]
  | .binary _ φ ψ => [("L", φ), ("R", ψ)]

def edgesFrom (g : Graph) (φ : Formula) (source : Nat) : List Edge :=
  (operands φ).filterMap fun (label, ψ) => (g.nodes.idxOf? ψ).map fun target => ⟨source, label, target⟩

def operandEdges (g : Graph) : List Edge :=
  g.nodes.zipIdx.flatMap fun (φ, source) => g.edgesFrom φ source

def edges (g : Graph) : List Edge := g.operandEdges.eraseDups

end Graph

end TruthTables
