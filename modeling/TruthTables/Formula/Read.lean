import TruthTables.Formula.Parser
import TruthTables.Token.Lexer

/-! # Formulas in text -/
namespace TruthTables

def Formula.ofString (s : String) : Except ReadError Formula :=
  match Lexeme.ofString s with
  | .error e => .error (.lexical e)
  | .ok ls =>
    match Formula.ofLexemes ls with
    | .error e => .error (.syntactic e)
    | .ok φ => .ok φ

theorem Formula.ofString_eq_ok_iff {s : String} {φ : Formula} :
    ofString s = .ok φ ↔ ∃ ls, Lexeme.ofString s = .ok ls ∧ ofLexemes ls = .ok φ := by
  unfold ofString
  cases Lexeme.ofString s with
  | error e => simp
  | ok ls => cases hφ : ofLexemes ls <;> simp [hφ]

end TruthTables
