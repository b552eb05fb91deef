import TruthTables.Formula.Read
import TruthTables.Proofs.NestingLimit

/-! # Where the limit is met -/
namespace TruthTables

namespace Outcome

def IsDeep {α : Type} (x : Outcome α) : Prop := x = .exhausted ∨ ∃ pos, x = .failed (.tooDeep pos)

theorem IsDeep.bind {α β : Type} {x : Outcome α} (h : x.IsDeep) (f : α → Outcome β) : (x.bind f).IsDeep := by
  rcases h with rfl | ⟨pos, rfl⟩
  · exact .inl rfl
  · exact .inr ⟨pos, rfl⟩

theorem Below.isDeep {α : Type} {x y : Outcome α} (h : x.Below y) (hy : y.IsDeep) : x.IsDeep := by
  rcases h with h | rfl
  · exact .inl h
  · exact hy

theorem Below.bind_isDeep {α β : Type} {x : Outcome α} {a : α} {f : α → Outcome β} (h : x.Below (.done a))
    (hf : (f a).IsDeep) : (x.bind f).IsDeep := by
  rcases h with rfl | rfl
  · exact .inl rfl
  · exact hf

end Outcome

namespace Parser

open Grammar

variable {L d e p : Nat} {us vs : List Lexeme} {φ ψ : Formula}

/-- An operand meets the limit if its formula is too high or its own operands have too many enclosures. -/
def OverrunsOperand (L d : Nat) (us : List Lexeme) (φ : Formula) : Prop :=
  ∀ fuel depth rest, depth ≤ L → (L < φ.height ∨ L < depth + d) →
    (operand (some L) fuel depth (us ++ rest)).IsDeep

def Overruns (L d p : Nat) (us : List Lexeme) (φ : Formula) : Prop :=
  ∀ fuel min depth rest, depth ≤ L → (L < φ.height ∨ L < depth + d) → min ≤ p →
    connective? (p + 1) rest = none → (subformula (some L) fuel min depth (us ++ rest)).IsDeep

theorem nest_eq_failed {depth : Nat} (h : L ≤ depth) (pos : Nat) :
    nest (some L) depth pos = .failed (.tooDeep pos) := if_pos (by simpa using h)

theorem nest_eq_done {depth : Nat} (h : depth < L) (pos : Nat) : nest (some L) depth pos = .done (depth + 1) :=
  nest_eq_done_iff.2 ⟨rfl, by simpa using h⟩

theorem OverrunsOperand.overruns (h : OverrunsOperand L d us φ) : Overruns L d 6 us φ := by
  intro fuel min depth rest hdepth hover _ _
  cases fuel with
  | zero => exact .inl rfl
  | succ fuel =>
    rw [subformula]
    exact (h fuel depth rest hdepth hover).bind _

theorem Overruns.lower {q : Nat} (h : Overruns L d p us φ) (hqp : q ≤ p) : Overruns L d q us φ :=
  fun fuel min depth rest hdepth hover hmin hrest =>
    h fuel min depth rest hdepth hover (Nat.le_trans hmin hqp)
      (connective?_eq_none_mono (Nat.succ_le_succ hqp) hrest)

theorem OverrunsOperand.not (h : OverrunsOperand L d us φ)
    (hφ : (∀ M ∈ some L, φ.height ≤ M) → ReadsOperand (some L) d us φ) (pos : Nat) :
    OverrunsOperand L (d + 1) (⟨.not, pos⟩ :: us) (.not φ) := by
  intro fuel depth rest hdepth hover
  cases fuel with
  | zero => exact .inl rfl
  | succ fuel =>
    rw [List.cons_append, operand]
    rcases Nat.lt_or_ge depth L with hlt | hge
    · rw [nest_eq_done hlt, Outcome.done_bind]
      by_cases hinside : L < φ.height ∨ L < depth + 1 + d
      · exact (h fuel (depth + 1) rest hlt hinside).bind _
      · -- the operand is read, so the negation is what makes its formula too high
        obtain ⟨hheight, hroom⟩ := not_or.1 hinside
        refine (hφ (by simpa using hheight) fuel (depth + 1) rest (by simpa using hroom)).bind_isDeep ?_
        have htop : L ≤ φ.height := by
          simp only [Formula.height] at hover
          omega
        exact .inr ⟨pos, by simp only [nest_eq_failed htop, Outcome.failed_bind]⟩
    · rw [nest_eq_failed hge]
      exact .inr ⟨pos, rfl⟩

theorem Overruns.bracket (h : Overruns L d 1 us φ) (pos pos' : Nat) :
    OverrunsOperand L (d + 1) (⟨.opening, pos⟩ :: us ++ [⟨.closing, pos'⟩]) φ := by
  intro fuel depth rest hdepth hover
  cases fuel with
  | zero => exact .inl rfl
  | succ fuel =>
    rw [List.cons_append, List.cons_append, List.append_assoc, operand]
    rcases Nat.lt_or_ge depth L with hlt | hge
    · rw [nest_eq_done hlt, Outcome.done_bind]
      cases fuel with
      | zero => exact .inl rfl
      | succ fuel =>
        have hc : connective? 2 (⟨.closing, pos'⟩ :: rest) = none :=
          connective?_eq_none_iff.2 fun _ _ _ h => by cases h
        have hinside : L < φ.height ∨ L < depth + 1 + d := by omega
        rw [bracketed]
        exact (h fuel 0 (depth + 1) _ hlt hinside (Nat.zero_le 1) hc).bind _
    · rw [nest_eq_failed hge]
      exact .inr ⟨pos, rfl⟩

theorem Overruns.binary {c : Connective} (hφ : Overruns L d c.precedence us φ)
    (hφ' : (∀ M ∈ some L, φ.height ≤ M) → Reads (some L) d c.precedence us φ)
    (hψ : Overruns L e (c.precedence + 1) vs ψ)
    (hψ' : (∀ M ∈ some L, ψ.height ≤ M) → Reads (some L) e (c.precedence + 1) vs ψ) (pos : Nat) :
    Overruns L (max d e) c.precedence (us ++ ⟨.connective c, pos⟩ :: vs) (.binary c φ ψ) := by
  intro fuel min depth rest hdepth hover hmin hrest
  have hc : connective? (c.precedence + 1) (⟨.connective c, pos⟩ :: (vs ++ rest)) = none :=
    connective?_eq_none_iff.2 fun _ _ _ h => by cases h; exact Nat.lt_succ_self _
  rw [List.append_assoc, List.cons_append]
  by_cases hleft : L < φ.height ∨ L < depth + d
  · exact hφ fuel min depth _ hdepth hleft hmin hc
  · obtain ⟨hheight, hroom⟩ := not_or.1 hleft
    cases fuel with
    | zero => exact .inl rfl
    | succ fuel =>
      obtain ⟨rounds, hloop⟩ := hφ' (by simpa using hheight) fuel min depth _ (by simpa using hroom) hmin hc
      refine hloop.isDeep ?_
      cases rounds with
      | zero => exact .inl rfl
      | succ rounds =>
        rw [climb, connective?_eq_some_iff.2 ⟨rfl, hmin⟩]
        by_cases hright : L < ψ.height ∨ L < depth + e
        · have hrest' := connective?_eq_none_mono (Nat.le_succ (c.precedence + 1)) hrest
          exact (hψ fuel _ depth rest hdepth hright (Nat.le_refl _) hrest').bind _
        · obtain ⟨hheight', hroom'⟩ := not_or.1 hright
          have hread := hψ' (by simpa using hheight')
          refine (hread.below_done fuel depth (by simpa using hroom') (Nat.le_refl _) hrest).bind_isDeep ?_
          have htop : L ≤ max φ.height ψ.height := by
            simp only [Formula.height] at hover
            omega
          exact .inr ⟨pos, by simp only [nest_eq_failed htop, Outcome.failed_bind]⟩

/-- The height of a formula and the enclosures of its operands are all that meets the limit, so a derivation
that has too much of one of them is followed until it is met. -/
theorem followed_overruns (L : Nat) :
    Followed
      (fun d us φ => OverrunsOperand L d us φ ∧ ((∀ M ∈ some L, φ.height ≤ M) → ReadsOperand (some L) d us φ))
      (fun d p us φ => Overruns L d p us φ ∧ ((∀ M ∈ some L, φ.height ≤ M) → Reads (some L) d p us φ)) where
  symbol name pos := by
    refine ⟨fun fuel depth rest hdepth hover => ?_, (followed_reads (some L)).symbol name pos⟩
    have hfits : ¬(L < Formula.height (.symbol name) ∨ L < depth + 0) :=
      not_or.2 ⟨Nat.not_lt_zero L, Nat.not_lt.2 hdepth⟩
    exact absurd hover hfits
  not pos h := ⟨h.1.not h.2 pos, (followed_reads (some L)).not pos h.2⟩
  bracket pos pos' h := ⟨h.1.bracket pos pos', (followed_reads (some L)).bracket pos pos' h.2⟩
  binary c pos hφ hψ :=
    ⟨hφ.1.binary hφ.2 hψ.1 hψ.2 pos, (followed_reads (some L)).binary c pos hφ.2 hψ.2⟩
  operand h := ⟨h.1.overruns, (followed_reads (some L)).operand h.2⟩
  lower hqp h := ⟨h.1.lower hqp, (followed_reads (some L)).lower hqp h.2⟩

end Parser

namespace Formula

open Grammar TruthTables.Parser

theorem ofLexemesWithin_of_derives {ls : List Lexeme} {φ : Formula} (L : Nat)
    (h : Derives .join ((content ls).map (·.token)) φ) :
    (φ.height ≤ L ∧ nesting ((content ls).map (·.token)) ≤ L → ofLexemesWithin (some L) ls = .ok φ) ∧
      (¬(φ.height ≤ L ∧ nesting ((content ls).map (·.token)) ≤ L) →
        ∃ pos, ofLexemesWithin (some L) ls = .error (.tooDeep pos)) := by
  have hne : content ls ≠ [] := fun hnil => h.ne_nil (by rw [hnil, List.map_nil])
  obtain ⟨hoverruns, hreads⟩ := ((followed_overruns L).of_derives h).1 _ rfl
  constructor
  · rintro ⟨hheight, hnesting⟩
    exact Outcome.result_eq_ok_iff.2
      (run_of_reads (hreads (by simpa using hheight)) hne (by simpa using hnesting))
  · intro hover
    obtain ⟨rest, hls, hrest⟩ := content_append_rest ls
    have hfails := hoverruns (enoughFuel ls) 0 0 rest (Nat.zero_le L) (by omega) (Nat.zero_le _)
      (connective?_end hrest _)
    rw [← hls] at hfails
    have hrun : (run (some L) (enoughFuel ls) ls).IsDeep := by
      rw [run_of_content_ne_nil hne]
      exact hfails.bind _
    obtain ⟨pos, hpos⟩ := hrun.resolve_left (run_ne_exhausted (some L) ls)
    exact ⟨pos, Outcome.result_eq_error_iff.2 hpos⟩

/-- What is no formula without a limit is none with it, and the error is the same unless the limit is met
first. -/
theorem ofLexemesWithin_of_not_derives {ls : List Lexeme} (limit : Option Nat)
    (h : ∀ φ, ¬Derives .join ((content ls).map (·.token)) φ) :
    ∃ e, ofLexemesWithin none ls = .error e ∧
      (ofLexemesWithin limit ls = .error e ∨ ∃ pos, ofLexemesWithin limit ls = .error (.tooDeep pos)) := by
  cases hnone : ofLexemesWithin none ls with
  | ok φ => exact absurd (parsed_of_ofLexemesWithin hnone).derives (h φ)
  | error e => exact ⟨e, rfl, hnone ▸ ofLexemesWithin_eqUnlessDeep limit ls⟩

/-- The limit is exact. A formula is parsed if neither its height nor the number of brackets and negations around
one of its operands exceeds it, and nests too deeply if one of them does. Tokens that are no formula have the
error that they have without a limit, unless the limit is met first. -/
theorem ofLexemes_limit :
    (∀ ls φ, Derives .join ((content ls).map (·.token)) φ →
      (ofLexemes ls = .ok φ ↔ φ.height ≤ 256 ∧ ∀ us t vs, (content ls).map (·.token) = us ++ t :: vs →
        t.startsOperand = true → (enclosures us).length ≤ 256) ∧
      (ofLexemes ls ≠ .ok φ → ∃ pos, ofLexemes ls = .error (.tooDeep pos))) ∧
    (∀ ls, (∀ φ, ¬Derives .join ((content ls).map (·.token)) φ) →
      ∃ e, ofLexemesWithin none ls = .error e ∧
        (ofLexemes ls = .error e ∨ ∃ pos, ofLexemes ls = .error (.tooDeep pos))) ∧
    (∀ ls φ, ofLexemes ls = .ok φ → φ.height ≤ 256) ∧
    ∀ s φ, ofString s = .ok φ → φ.height ≤ 256 := by
  have height_le : ∀ ls φ, ofLexemes ls = .ok φ → φ.height ≤ 256 :=
    fun ls φ h => (parsed_of_ofLexemesWithin h).height_le 256 rfl
  refine ⟨fun ls φ h => ?_, fun ls h => ofLexemesWithin_of_not_derives _ h, height_le, fun s φ h => ?_⟩
  · rw [← nesting_le_iff]
    obtain ⟨hparsed, hdeep⟩ := ofLexemesWithin_of_derives 256 h
    constructor
    · refine ⟨fun hok => Decidable.byContradiction fun hover => ?_, hparsed⟩
      obtain ⟨pos, hpos⟩ := hdeep hover
      exact nomatch hok.symm.trans hpos
    · exact fun hne => hdeep fun hfits => hne (hparsed hfits)
  · obtain ⟨ls, -, hφ⟩ := ofString_eq_ok_iff.1 h
    exact height_le ls φ hφ

def inBrackets (name : String) : (n : Nat) → List Token
  | 0 => [.symbol name]
  | n + 1 => .opening :: inBrackets name n ++ [.closing]

theorem derives_inBrackets (name : String) (n : Nat) :
    Derives .join (inBrackets name n) (.symbol name) ∧ nesting (inBrackets name n) = n := by
  induction n with
  | zero => exact ⟨.atLeast_mono (m := 0) (n := 6) (Nat.zero_le 6) (.symbol name), rfl⟩
  | succ n ih =>
    obtain ⟨hd, hnesting⟩ := ih
    exact ⟨.atLeast_mono (m := 0) (n := 6) (Nat.zero_le 6) (.bracket hd),
      hd.nesting_bracket.trans (congrArg (· + 1) hnesting)⟩

/-- Brackets that do nothing for the formula count like any others. -/
theorem ofLexemes_limit_brackets :
    let nested (n : Nat) : List Lexeme := (inBrackets "a" n).map (⟨·, 0⟩) ++ [⟨.eof, 0⟩]
    ofLexemes (nested 256) = .ok (.symbol "a") ∧ ∃ pos, ofLexemes (nested 257) = .error (.tooDeep pos) := by
  intro nested
  have htokens : ∀ n, (content (nested n)).map (·.token) = inBrackets "a" n := by
    intro n
    have hmap : ((inBrackets "a" n).map (Lexeme.mk · 0)).map (·.token) = inBrackets "a" n := by
      simp [Function.comp_def]
    rw [content_append_eof ?_ 0 [], hmap]
    exact fun l hl he => (derives_inBrackets "a" n).1.eof_not_mem (hmap ▸ he ▸ List.mem_map_of_mem hl)
  have exact_at : ∀ n, (ofLexemes (nested n) = .ok (.symbol "a") ↔ n ≤ 256) ∧
      (ofLexemes (nested n) ≠ .ok (.symbol "a") → ∃ pos, ofLexemes (nested n) = .error (.tooDeep pos)) := by
    intro n
    obtain ⟨hd, hnesting⟩ := derives_inBrackets "a" n
    obtain ⟨hiff, hdeep⟩ := ofLexemes_limit.1 (nested n) (.symbol "a") (htokens n ▸ hd)
    rw [← nesting_le_iff, htokens, hnesting] at hiff
    exact ⟨hiff.trans (and_iff_right (Nat.zero_le 256)), hdeep⟩
  exact ⟨(exact_at 256).1.2 (Nat.le_refl _), (exact_at 257).2 fun h => absurd ((exact_at 257).1.1 h) (by decide)⟩

end Formula

end TruthTables
