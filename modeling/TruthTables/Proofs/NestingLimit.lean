import TruthTables.Proofs.ParserCompleteness
import TruthTables.Proofs.ParserRuns

/-! # Parsing under a limit -/
namespace TruthTables

namespace Outcome

/-- `x` is `y`, or the limit has been met. -/
def EqUnlessDeep {α : Type} (x y : Outcome α) : Prop := x = y ∨ ∃ pos, x = .failed (.tooDeep pos)

theorem EqUnlessDeep.refl {α : Type} (x : Outcome α) : x.EqUnlessDeep x := .inl rfl

theorem EqUnlessDeep.bind {α β : Type} {x y : Outcome α} {f g : α → Outcome β} (h : x.EqUnlessDeep y)
    (hf : ∀ a, (f a).EqUnlessDeep (g a)) : (x.bind f).EqUnlessDeep (y.bind g) := by
  rcases h with rfl | ⟨pos, rfl⟩
  · cases x with
    | done a => exact hf a
    | failed e => exact .inl rfl
    | exhausted => exact .inl rfl
  · exact .inr ⟨pos, rfl⟩

theorem respected_eqUnlessDeep : Respected fun _ x y => x.EqUnlessDeep y := ⟨.refl, .bind⟩

end Outcome

namespace Parser

theorem nest_eqUnlessDeep (limit : Option Nat) (depth pos : Nat) :
    (nest limit depth pos).EqUnlessDeep (nest none depth pos) := by
  unfold nest
  split
  · exact .inr ⟨pos, rfl⟩
  · exact .inl rfl

theorem run_eqUnlessDeep (limit : Option Nat) (fuel : Nat) (ls : List Lexeme) :
    (run limit fuel ls).EqUnlessDeep (run none fuel ls) :=
  run_related Outcome.respected_eqUnlessDeep (nest_eqUnlessDeep limit) (.inl rfl) fuel ls

end Parser

namespace Formula

/-- A limit changes nothing unless it is met. -/
theorem ofLexemesWithin_eqUnlessDeep (limit : Option Nat) (ls : List Lexeme) :
    ofLexemesWithin limit ls = ofLexemesWithin none ls ∨
      ∃ pos, ofLexemesWithin limit ls = .error (.tooDeep pos) := by
  rcases Parser.run_eqUnlessDeep limit (Parser.enoughFuel ls) ls with h | ⟨pos, h⟩
  · left
    unfold ofLexemesWithin
    congr 1
  · exact .inr ⟨pos, Outcome.result_eq_error_iff.2 h⟩

/-- The parser accepts what the grammar derives and builds its formula, unless the formula nests too deeply.
What stands after the first end of the input does not count, and no tokens are read in two ways. -/
theorem ofLexemes_grammar :
    (∀ ls φ, ofLexemes ls = .ok φ →
      Grammar.Derives .join ((ls.takeWhile (·.token ≠ .eof)).map (·.token)) φ) ∧
    (∀ ls φ, Grammar.Derives .join ((ls.takeWhile (·.token ≠ .eof)).map (·.token)) φ →
      ofLexemes ls = .ok φ ∨ ∃ pos, ofLexemes ls = .error (.tooDeep pos)) ∧
    ∀ k ts φ ψ, Grammar.Derives k ts φ → Grammar.Derives k ts ψ → φ = ψ := by
  refine ⟨fun ls φ h => (parsed_of_ofLexemesWithin h).derives, fun ls φ h => ?_,
    fun k ts φ ψ hφ hψ => hφ.unique hψ⟩
  rcases ofLexemesWithin_eqUnlessDeep (some maxDepth) ls with he | hdeep
  · exact .inl (he.trans (ofLexemesWithin_none h))
  · exact .inr hdeep

/-- A mixture of connectives of two levels, with a bracket after the end that does not count. -/
theorem ofLexemes_grammar_mixture :
    let ls : List Lexeme := [⟨.symbol "p", 7⟩, ⟨.connective .or, 0⟩, ⟨.symbol "q", 3⟩,
      ⟨.connective .and, 4⟩, ⟨.symbol "r", 5⟩, ⟨.connective .xor, 9⟩, ⟨.symbol "s", 1⟩, ⟨.eof, 2⟩,
      ⟨.closing, 8⟩]
    let φ : Formula := .binary .xor
      (.binary .or (.symbol "p") (.binary .and (.symbol "q") (.symbol "r"))) (.symbol "s")
    ofLexemes ls = .ok φ ∧
      Grammar.Derives .join ((ls.takeWhile (·.token ≠ .eof)).map (·.token)) φ ∧
      (ofLexemes ls = .ok φ ∨ ∃ pos, ofLexemes ls = .error (.tooDeep pos)) ∧ φ = φ := by
  intro ls φ
  have h : ofLexemes ls = .ok φ := by rfl
  have hd := ofLexemes_grammar.1 ls φ h
  exact ⟨h, hd, ofLexemes_grammar.2.1 ls φ hd, ofLexemes_grammar.2.2 _ _ φ φ hd hd⟩

end Formula

end TruthTables
