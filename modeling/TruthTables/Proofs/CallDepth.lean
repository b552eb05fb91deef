import TruthTables.Proofs.ParserCompleteness
import TruthTables.Proofs.ParserRuns

/-! # How many calls of the parser are active at a time -/
namespace TruthTables

namespace Outcome

theorem Below.follow {α β : Type} {x y : Outcome α} {f g : α → Outcome β} (h : x.Below y)
    (hf : ∀ a, (f a).Below (g a)) : (x.bind f).Below (y.bind g) := by
  rcases h with rfl | rfl
  · exact .inl rfl
  · cases x with
    | done a => exact hf a
    | failed e => exact .inr rfl
    | exhausted => exact .inl rfl

theorem respected_below : Respected fun _ x y => x.Below y := ⟨fun _ => .inr rfl, .follow⟩

end Outcome

namespace Parser

/-- An answer does not change when more calls may be made. -/
theorem run_below (limit : Option Nat) {fuel fuel' : Nat} (h : fuel ≤ fuel') (ls : List Lexeme) :
    (run limit fuel ls).Below (run limit fuel' ls) := by
  obtain ⟨extra, rfl⟩ := Nat.exists_eq_add_of_le h
  exact run_related Outcome.respected_below (fun _ _ => .inr rfl) (.inr fun _ _ => .inl rfl) fuel ls

theorem run_eq_of_ne_exhausted {limit : Option Nat} {fuel fuel' : Nat} {ls : List Lexeme}
    (h : run limit fuel ls ≠ .exhausted) (h' : run limit fuel' ls ≠ .exhausted) :
    run limit fuel ls = run limit fuel' ls := by
  rcases Nat.le_total fuel fuel' with hle | hle
  · exact (run_below limit hle ls).eq h
  · exact ((run_below limit hle ls).eq h').symm

theorem lt_of_nest_eq_done {L depth pos d : Nat} (h : nest (some L) depth pos = .done d) :
    d = depth + 1 ∧ depth < L := by
  obtain ⟨hd, hlt⟩ := nest_eq_done_iff.1 h
  exact ⟨hd, hlt L rfl⟩

/-- Inside of `depth` brackets and negations there are at most eight calls for each one that may still come. An
operand needs one more, and a subformula one for each level from its own to that of the tightest connective. -/
theorem ne_exhausted_of_limit (L fuel : Nat) :
    (∀ min depth ls, depth ≤ L → min ≤ 6 → 8 * (L - depth) + 8 ≤ fuel + max 1 min →
      subformula (some L) fuel min depth ls ≠ .exhausted) ∧
    (∀ depth ls, depth ≤ L → 8 * (L - depth) + 1 ≤ fuel → operand (some L) fuel depth ls ≠ .exhausted) ∧
    ∀ pos depth ls, depth ≤ L → 8 * (L - depth) + 8 ≤ fuel →
      bracketed (some L) fuel pos depth ls ≠ .exhausted := by
  induction fuel with
  | zero => refine ⟨?_, ?_, ?_⟩ <;> intros <;> omega
  | succ fuel ih =>
    obtain ⟨ihs, iho, ihb⟩ := ih
    refine ⟨fun min depth ls hdepth hmin h => ?_, fun depth ls hdepth h => ?_, fun pos depth ls hdepth h => ?_⟩
    · refine subformula_ne_exhausted (iho depth ls hdepth (by omega)) fun c ls' hc _ => ?_
      -- the depth is the same, but the level is higher
      obtain ⟨hone, hfive⟩ := c.precedence_bounds
      exact ihs (c.precedence + 1) depth ls' hdepth (Nat.succ_le_succ hfive) (by omega)
    · refine operand_ne_exhausted (fun pos ls' d _ hd => ?_) (fun pos ls' d _ hd => ?_)
      · obtain ⟨rfl, hlt⟩ := lt_of_nest_eq_done hd
        exact iho (depth + 1) ls' hlt (by omega)
      · obtain ⟨rfl, hlt⟩ := lt_of_nest_eq_done hd
        exact ihb pos (depth + 1) ls' hlt (by omega)
    · exact bracketed_ne_exhausted (ihs 0 depth ls hdepth (Nat.zero_le 6) (by omega))

theorem run_ne_exhausted_of_limit {L fuel : Nat} (h : 8 * (L + 1) ≤ fuel) (ls : List Lexeme) :
    run (some L) fuel ls ≠ .exhausted :=
  run_ne_exhausted_of_subformula
    ((ne_exhausted_of_limit L fuel).1 0 0 ls (Nat.zero_le L) (Nat.zero_le 6) (by omega))

end Parser

namespace Formula

/-- However many tokens there are, and whether or not they are a formula, eight calls for each level of the limit
and eight more are all that the parser ever has active at a time: with so many it comes to its answer. -/
theorem ofLexemes_calls (ls : List Lexeme) :
    ∃ h : Parser.run (some maxDepth) (8 * (maxDepth + 1)) ls ≠ .exhausted,
      (Parser.run (some maxDepth) (8 * (maxDepth + 1)) ls).result h = ofLexemes ls := by
  have h := Parser.run_ne_exhausted_of_limit (Nat.le_refl (8 * (maxDepth + 1))) ls
  refine ⟨h, ?_⟩
  have heq := Parser.run_eq_of_ne_exhausted h (Parser.run_ne_exhausted (some maxDepth) ls)
  unfold ofLexemes ofLexemesWithin
  congr 1

end Formula

end TruthTables
