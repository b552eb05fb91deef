import TruthTables.Proofs.MaximalMunch
import TruthTables.Proofs.PrintedFormulas
import TruthTables.Proofs.TableShape

/-! # The variables of a text -/
namespace TruthTables

namespace Token

def name? : Token → Option String
  | symbol name => some name
  | _ => none

def names (ts : List Token) : List String := (ts.filterMap name?).eraseDups

end Token

theorem Grammar.Derives.leaves_eq {k : Category} {ts : List Token} {φ : Formula} (h : Derives k ts φ) :
    φ.leaves = ts.filterMap Token.name? := by
  induction h with
  | symbol name => rfl
  | not _ ih => exact ih
  | bracket _ ih =>
    rw [List.cons_append, List.filterMap_cons, List.filterMap_append, ← ih]
    exact (List.append_nil _).symm
  | ofIff _ ih | ofImplies _ ih | ofOr _ ih | ofAnd _ ih | ofUnary _ ih => exact ih
  | join _ _ ih ih' | iff _ _ ih ih' | implies _ _ ih ih' | or _ _ ih ih' | xor _ _ ih ih'
  | and _ _ ih ih' =>
    rw [List.filterMap_append, List.filterMap_cons, ← ih, ← ih']
    rfl

theorem Lexeme.eq_content_append_eof {s : String} {ls : List Lexeme} (h : ofString s = .ok ls) :
    ∃ pos, ls = Parser.content ls ++ [⟨.eof, pos⟩] := by
  obtain ⟨ps, hm, rfl⟩ := munches_of_ofString h
  have hlast := (partition_ofPieces hm).only_last
  rw [List.dropLast_concat] at hlast
  exact ⟨_, by rw [Parser.content_append_eof hlast]⟩

namespace Formula

/-- The names of a formula are those of the symbols in the text that it is read from. -/
theorem symbols_eq_names {s : String} {ls : List Lexeme} {φ : Formula} (hls : Lexeme.ofString s = .ok ls)
    (hφ : ofString s = .ok φ) : φ.symbols = Token.names (ls.map (·.token)) := by
  obtain ⟨ls', hls', hparse⟩ := ofString_eq_ok_iff.1 hφ
  obtain rfl := Except.ok.inj (hls'.symm.trans hls)
  obtain ⟨pos, hcontent⟩ := Lexeme.eq_content_append_eof hls
  have hnames : (ls'.map (·.token)).filterMap Token.name? =
      ((Parser.content ls').map (·.token)).filterMap Token.name? := by
    conv_lhs => rw [hcontent, List.map_append, List.filterMap_append]
    exact List.append_nil _
  rw [symbols, (parsed_of_ofLexemesWithin hparse).derives.leaves_eq, Token.names, hnames]

/-- The tree, the enumeration and every pass have the names of the text. -/
theorem names_agree {s : String} {ls : List Lexeme} {φ : Formula} (hls : Lexeme.ofString s = .ok ls)
    (hφ : ofString s = .ok φ) :
    let names := Token.names (ls.map (·.token))
    φ.symbols = names ∧ (Enumeration.ofFormula φ).vars.names = names ∧
      ∀ ν, (Evaluation.run φ ν).primitives.map (·.label) = names := by
  intro names
  have hsymbols : φ.symbols = names := symbols_eq_names hls hφ
  have hplain := (proper_of_ofString hφ).1.plain
  refine ⟨hsymbols, ?_, fun ν => (Evaluation.labels_primitives hplain ν).trans hsymbols⟩
  rw [Enumeration.ofFormula_eq hplain]
  exact hsymbols

end Formula

end TruthTables
