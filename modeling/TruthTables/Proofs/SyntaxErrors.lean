import Mathlib.Data.List.Nodup
import TruthTables.Proofs.NestingLimit
import TruthTables.Proofs.Viability

/-! # Where a syntax error is reported -/
namespace TruthTables

namespace Grammar

/-- A bracket that is opened before these tokens is not closed by any of them: none of them closes more brackets
than have been opened since. -/
def LeftOpen (ts : List Token) : Prop := ∀ us, us <+: ts → us.count .closing ≤ us.count .opening

/-- The tokens of a formula close every bracket that they open, and no other. -/
theorem Derives.leftOpen {k : Category} {ts : List Token} {φ : Formula} (h : Derives k ts φ) :
    LeftOpen ts := by
  rintro us ⟨vs, rfl⟩
  obtain ⟨d, hd, -⟩ := Due.after?_append_eq_some.1 (h.after? 0)
  have hcount := Due.opened_after? hd
  simp only [Due.opened] at hcount
  omega

theorem Derives.not_leftOpen {k : Category} {ts us vs : List Token} {φ : Formula} (h : Derives k ts φ)
    (hts : ts = us ++ .opening :: vs) : ¬LeftOpen vs := by
  intro hvs
  subst hts
  have hbefore := h.leftOpen us (List.prefix_append us _)
  have hafter := hvs vs (List.prefix_refl vs)
  have hall := Due.opened_after? (h.after? 0)
  simp only [Due.opened, List.count_append, List.count_cons_self,
    List.count_cons_of_ne (show Token.opening ≠ .closing by decide)] at hall
  omega

end Grammar

namespace SyntaxError

open Grammar

def FirstBad (ls : List Lexeme) (l : Lexeme) : Prop :=
  ∃ us vs, ls = us ++ l :: vs ∧ Viable (Lexeme.tokens us) ∧ ¬Viable (Lexeme.tokens (us ++ [l]))

def Incomplete (ls : List Lexeme) : Prop :=
  Viable (Lexeme.tokens ls) ∧ ¬∃ φ, Derives .join (Lexeme.tokens ls) φ

def LastOpen (ls : List Lexeme) (l : Lexeme) : Prop :=
  ∃ us vs, ls = us ++ l :: vs ∧ l.token = .opening ∧ LeftOpen (Lexeme.tokens vs) ∧
    ∀ us' l' vs', vs = us' ++ l' :: vs' → l'.token = .opening → ¬LeftOpen (Lexeme.tokens vs')

/-- What an error says about the tokens it is about. The limit on nesting is another matter. -/
def Accurate (ls : List Lexeme) : SyntaxError → Prop
  | unexpectedToken pos found _ | trailingInput pos found => FirstBad ls ⟨found, pos⟩
  | unmatchedBracket pos => ∃ l ∈ ls, l.pos = pos ∧ (∀ l' ∈ ls, l'.pos = pos → l' = l) ∧
    (l.token = .closing ∧ FirstBad ls l ∨ l.token = .opening ∧ Incomplete ls ∧ LastOpen ls l)
  | unexpectedEnd _ | emptyExpression => Incomplete ls
  | tooDeep _ => False

theorem firstBad_of_notDue {ls : List Lexeme} {l : Lexeme} (h : Parser.NotDue (.operand 0) ls l) :
    FirstBad ls l := by
  obtain ⟨us, vs, d, rfl, hus, hl⟩ := h
  refine ⟨us, vs, rfl, viable_iff.2 ⟨d, hus⟩, fun hviable => ?_⟩
  obtain ⟨d', hd'⟩ := viable_iff.1 hviable
  rw [Lexeme.tokens, List.map_append] at hd'
  obtain ⟨m, hm, hlast⟩ := Due.after?_append_eq_some.1 hd'
  obtain rfl := Option.some.inj (hus.symm.trans hm)
  simp [Due.after?, hl] at hlast

theorem incomplete_of_after? {ls : List Lexeme} {d : Due}
    (h : (Due.operand 0).after? (Lexeme.tokens ls) = some d) (hd : d ≠ .operator 0) : Incomplete ls := by
  refine ⟨viable_iff.2 ⟨d, h⟩, fun hformula => hd ?_⟩
  exact Option.some.inj (h.symm.trans (exists_derives_iff.1 hformula))

/-- What explains an error is what the error says, if it can be told which token it names. -/
theorem accurate_of_explains {ls : List Lexeme} {e : SyntaxError} (hpos : (ls.map (·.pos)).Nodup)
    (h : Parser.Explains (.operand 0) ls e) : Accurate ls e := by
  have only : ∀ l ∈ ls, ∀ l' ∈ ls, l'.pos = l.pos → l' = l := fun l hl l' hl' he =>
    List.inj_on_of_nodup_map hpos hl' hl he
  cases e with
  | unexpectedToken pos t _ => exact firstBad_of_notDue h
  | trailingInput pos t => exact firstBad_of_notDue h
  | unexpectedEnd _ =>
    obtain ⟨n, hn⟩ := h
    exact incomplete_of_after? hn (by simp)
  | emptyExpression =>
    obtain ⟨n, hn⟩ := h
    exact incomplete_of_after? hn (by simp)
  | unmatchedBracket pos =>
    rcases h with h | ⟨us, vs, n, φ, rfl, hus, hvs⟩
    · obtain ⟨us, vs, d, rfl, hus, hl⟩ := id h
      have hmem : (⟨.closing, pos⟩ : Lexeme) ∈ us ++ ⟨.closing, pos⟩ :: vs := by simp
      exact ⟨_, hmem, rfl, only _ hmem, .inl ⟨rfl, firstBad_of_notDue h⟩⟩
    · have hmem : (⟨.opening, pos⟩ : Lexeme) ∈ us ++ ⟨.opening, pos⟩ :: vs := by simp
      have hafter : (Due.operand 0).after? (Lexeme.tokens (us ++ ⟨.opening, pos⟩ :: vs)) =
          some (.operator (n + 1)) := by
        rw [Lexeme.tokens, List.map_append]
        exact Due.after?_append_eq_some.2 ⟨_, hus, hvs.after? (n + 1)⟩
      have hlast : LastOpen (us ++ ⟨.opening, pos⟩ :: vs) ⟨.opening, pos⟩ := by
        refine ⟨us, vs, rfl, rfl, hvs.leftOpen, fun us' l' vs' hvs' hl' => ?_⟩
        have hsplit : Lexeme.tokens vs = Lexeme.tokens us' ++ .opening :: Lexeme.tokens vs' := by
          rw [hvs', Lexeme.tokens, List.map_append, List.map_cons, hl']
        exact hvs.not_leftOpen hsplit
      exact ⟨_, hmem, rfl, only _ hmem, .inr ⟨rfl, incomplete_of_after? hafter (by simp), hlast⟩⟩
  | tooDeep pos => exact h.elim

/-- Every syntax error but the one about nesting names the first token that no formula goes on with, or is
about the end of tokens that could go on. -/
theorem accurate_of_ofLexemes :
    ∀ ls, ((Parser.content ls).map (·.pos)).Nodup → ∀ e, Formula.ofLexemes ls = .error e →
      (∀ pos, e ≠ .tooDeep pos) → Accurate (Parser.content ls) e := by
  intro ls hpos e h hdeep
  rcases Formula.ofLexemesWithin_eqUnlessDeep (some Formula.maxDepth) ls with he | ⟨pos, he⟩
  · have hnone : Formula.ofLexemesWithin none ls = .error e := he.symm.trans h
    exact accurate_of_explains hpos (Parser.run_explains (Outcome.result_eq_error_iff.1 hnone))
  · exact absurd (Except.error.inj (h.symm.trans he)) (hdeep pos)

/-- Of two open brackets the last one is named, and what stands after the end does not count. -/
theorem accurate_of_ofLexemes_open_bracket :
    let ls : List Lexeme := [⟨.opening, 4⟩, ⟨.symbol "p", 9⟩, ⟨.connective .and, 2⟩, ⟨.opening, 7⟩,
      ⟨.opening, 3⟩, ⟨.symbol "q", 6⟩, ⟨.closing, 0⟩, ⟨.eof, 5⟩, ⟨.closing, 1⟩]
    (((Parser.content ls).map (·.pos)).Nodup ∧ Formula.ofLexemes ls = .error (.unmatchedBracket 7)) ∧
      Accurate (Parser.content ls) (.unmatchedBracket 7) := by
  intro ls
  have hpos : ((Parser.content ls).map (·.pos)).Nodup := by decide
  have h : Formula.ofLexemes ls = .error (.unmatchedBracket 7) := by rfl
  exact ⟨⟨hpos, h⟩, accurate_of_ofLexemes ls hpos _ h (by simp)⟩

end SyntaxError

end TruthTables
