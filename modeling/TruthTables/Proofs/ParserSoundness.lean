import TruthTables.Proofs.Grammar

/-! # What is parsed is a formula of the grammar -/
namespace TruthTables.Parser

open Grammar

/-- The tokens before the first end of the input. -/
def content (ls : List Lexeme) : List Lexeme := ls.takeWhile (·.token ≠ .eof)

theorem content_cons {t : Token} (ht : t ≠ .eof) (pos : Nat) (ls : List Lexeme) :
    content (⟨t, pos⟩ :: ls) = ⟨t, pos⟩ :: content ls :=
  List.takeWhile_cons_of_pos (decide_eq_true ht)

theorem content_append {us : List Lexeme} (h : ∀ u ∈ us, u.token ≠ .eof) (ls : List Lexeme) :
    content (us ++ ls) = us ++ content ls :=
  List.takeWhile_append_of_pos fun u hu => decide_eq_true (h u hu)

theorem content_append_eof {us : List Lexeme} (h : ∀ u ∈ us, u.token ≠ .eof) (pos : Nat) (rest : List Lexeme) :
    content (us ++ ⟨.eof, pos⟩ :: rest) = us := by
  rw [content_append h]
  simp [content]

theorem content_eq_nil_iff {ls : List Lexeme} :
    content ls = [] ↔ ls = [] ∨ ∃ pos rest, ls = ⟨.eof, pos⟩ :: rest := by
  cases ls with
  | nil => simp [content]
  | cons l ls =>
    obtain ⟨t, pos⟩ := l
    by_cases ht : t = .eof
    · simp [content, ht]
    · simp [content_cons ht, ht]

theorem content_append_rest (ls : List Lexeme) : ∃ rest, ls = content ls ++ rest ∧ content rest = [] := by
  induction ls with
  | nil => exact ⟨[], rfl, rfl⟩
  | cons l ls ih =>
    obtain ⟨t, pos⟩ := l
    by_cases ht : t = .eof
    · have hnil : content (⟨t, pos⟩ :: ls) = [] := content_eq_nil_iff.2 (.inr ⟨pos, ls, by rw [ht]⟩)
      exact ⟨⟨t, pos⟩ :: ls, by rw [hnil, List.nil_append], hnil⟩
    · obtain ⟨rest, hls, hrest⟩ := ih
      exact ⟨rest, by rw [content_cons ht, List.cons_append, ← hls], hrest⟩

/-! Every reader ends at the end of the input as it does at the end of the list. -/

section

variable {ls : List Lexeme} (h : content ls = [])
include h

theorem connective?_end (min : Nat) : connective? min ls = none := by
  obtain rfl | ⟨pos, rest, rfl⟩ := content_eq_nil_iff.1 h <;> rfl

theorem operand_end (limit : Option Nat) (fuel depth : Nat) :
    operand limit (fuel + 1) depth ls = .failed (.unexpectedEnd .operand) := by
  obtain rfl | ⟨pos, rest, rfl⟩ := content_eq_nil_iff.1 h <;> rfl

theorem close_end (pos : Nat) (φ : Formula) (height : Nat) :
    close pos φ height ls = .failed (.unmatchedBracket pos) := by
  obtain rfl | ⟨pos', rest, rfl⟩ := content_eq_nil_iff.1 h <;> rfl

theorem finish_end (φ : Formula) : finish φ ls = .done φ := by
  obtain rfl | ⟨pos, rest, rfl⟩ := content_eq_nil_iff.1 h <;> rfl

theorem run_end (limit : Option Nat) (fuel : Nat) : run limit fuel ls = .failed .emptyExpression := by
  obtain rfl | ⟨pos, rest, rfl⟩ := content_eq_nil_iff.1 h <;> rfl

end

theorem run_of_content_ne_nil {ls : List Lexeme} (h : content ls ≠ []) (limit : Option Nat) (fuel : Nat) :
    run limit fuel ls = (subformula limit fuel 0 0 ls).bind fun (φ, _, rest) => finish φ rest := by
  unfold run
  split
  · exact absurd rfl h
  · exact absurd (content_eq_nil_iff.2 (.inr ⟨_, _, rfl⟩)) h
  · rfl

theorem nest_eq_done_iff {limit : Option Nat} {depth pos n : Nat} :
    nest limit depth pos = .done n ↔ n = depth + 1 ∧ ∀ L ∈ limit, depth < L := by
  cases limit with
  | none => simp [nest, eq_comm]
  | some L =>
    by_cases h : L ≤ depth
    · simp [nest, h]
    · simp [nest, h, eq_comm, Nat.not_le.1 h]

theorem connective?_eq_none_iff {min : Nat} {ls : List Lexeme} :
    connective? min ls = none ↔
      ∀ c pos rest, ls = ⟨.connective c, pos⟩ :: rest → c.precedence < min := by
  constructor
  · rintro h c pos rest rfl
    refine Nat.lt_of_not_le fun hm => ?_
    rw [connective?_eq_some_iff.2 ⟨rfl, hm⟩] at h
    simp at h
  · intro h
    cases hc : connective? min ls with
    | none => rfl
    | some r =>
      obtain ⟨c, pos, rest⟩ := r
      obtain ⟨hl, hm⟩ := connective?_eq_some_iff.1 hc
      exact absurd (h c pos rest hl) (Nat.not_lt.2 hm)

theorem connective?_eq_none_mono {m n : Nat} (hmn : m ≤ n) {ls : List Lexeme}
    (h : connective? m ls = none) : connective? n ls = none :=
  connective?_eq_none_iff.2 fun c pos rest hl =>
    Nat.lt_of_lt_of_le (connective?_eq_none_iff.1 h c pos rest hl) hmn

theorem connective?_unary {n : Nat} (hn : 6 ≤ n) (ls : List Lexeme) : connective? n ls = none :=
  connective?_eq_none_iff.2 fun c _ _ _ =>
    Nat.lt_of_lt_of_le (by cases c <;> decide : c.precedence < 6) hn

def Counts (read : List Lexeme → Parse) : Prop :=
  ∀ ls φ n rest, read ls = .done (φ, n, rest) → n = φ.height

theorem climb_counts {limit : Option Nat} {right : Nat → List Lexeme → Parse} (hr : ∀ m, Counts (right m))
    {min rounds n : Nat} {φ ψ : Formula} {ls rest : List Lexeme}
    (h : climb limit right min rounds φ φ.height ls = .done (ψ, n, rest)) : n = ψ.height := by
  induction rounds generalizing φ ls with
  | zero => simp [climb] at h
  | succ rounds ih =>
    rcases climb_eq_done h with ⟨-, rfl, rfl, -⟩ | ⟨c, pos, ls', χ, k, mid, k', -, hright, hnest, hloop⟩
    · rfl
    · obtain rfl := hr _ _ _ _ _ hright
      obtain ⟨rfl, -⟩ := nest_eq_done_iff.1 hnest
      exact ih hloop

/-- The height that is counted on the way is the height of the formula. -/
theorem parse_counts (limit : Option Nat) (fuel : Nat) :
    (∀ min depth, Counts (subformula limit fuel min depth)) ∧
      (∀ depth, Counts (operand limit fuel depth)) ∧
      ∀ pos depth, Counts (bracketed limit fuel pos depth) := by
  induction fuel with
  | zero => simp [Counts, subformula, operand, bracketed]
  | succ fuel ih =>
    obtain ⟨ihs, iho, ihb⟩ := ih
    refine ⟨fun min depth ls φ n rest h => ?_, fun depth ls φ n rest h => ?_, fun pos depth ls φ n rest h => ?_⟩
    · obtain ⟨χ, k, mid, hfirst, hloop⟩ := subformula_eq_done h
      obtain rfl := iho _ _ _ _ _ hfirst
      exact climb_counts (fun m => ihs m depth) hloop
    · rcases operand_eq_done h with
        ⟨name, pos, rfl, rfl, rfl⟩ | ⟨pos, ls', d, χ, k, rfl, hinner, hnest, rfl⟩ | ⟨pos, ls', d, rfl, hinner⟩
      · rfl
      · obtain rfl := iho _ _ _ _ _ hinner
        exact (nest_eq_done_iff.1 hnest).1
      · exact ihb _ _ _ _ _ _ hinner
    · obtain ⟨pos', hinner⟩ := bracketed_eq_done h
      exact ihs _ _ _ _ _ _ hinner

/-- A formula that is read from tokens and nests no deeper than the limit. -/
structure Parsed (limit : Option Nat) (k : Category) (us : List Lexeme) (φ : Formula) : Prop where
  derives : Derives k (us.map (·.token)) φ
  height_le : ∀ L ∈ limit, φ.height ≤ L

/-- A reader takes a formula of the category, and no connective that would continue it comes next. -/
def Sound (limit : Option Nat) (min : Nat) (read : List Lexeme → Parse) : Prop :=
  ∀ ls φ n rest, read ls = .done (φ, n, rest) →
    ∃ us, ls = us ++ rest ∧ Parsed limit (.atLeast min) us φ ∧ connective? min rest = none

theorem Parsed.content_append {limit : Option Nat} {k : Category} {us : List Lexeme} {φ : Formula}
    (h : Parsed limit k us φ) (rest : List Lexeme) : content (us ++ rest) = us ++ content rest :=
  Parser.content_append (fun _ hu he => h.derives.eof_not_mem (he ▸ List.mem_map_of_mem hu)) rest

theorem Parsed.binary {limit : Option Nat} {c : Connective} {us vs : List Lexeme} {φ ψ : Formula}
    (hφ : Parsed limit (.atLeast c.precedence) us φ)
    (hψ : Parsed limit (.atLeast (c.precedence + 1)) vs ψ) (pos : Nat)
    (hh : ∀ L ∈ limit, max φ.height ψ.height < L) :
    Parsed limit (.atLeast c.precedence) (us ++ ⟨.connective c, pos⟩ :: vs) (.binary c φ ψ) where
  derives := by
    rw [List.map_append, List.map_cons]
    exact .binary c hφ.derives hψ.derives
  height_le := hh

/-- The loop keeps that the formula so far is read from the tokens so far, at a level `q` that the next
connective does not exceed. -/
theorem climb_sound {limit : Option Nat} {right : Nat → List Lexeme → Parse}
    (hr : ∀ m, Sound limit m (right m)) (hc : ∀ m, Counts (right m)) {min q rounds n : Nat} {φ ψ : Formula}
    {us ls rest : List Lexeme} (hφ : Parsed limit (.atLeast q) us φ) (hq : min ≤ q)
    (hnext : connective? (q + 1) ls = none)
    (h : climb limit right min rounds φ φ.height ls = .done (ψ, n, rest)) :
    ∃ vs, ls = vs ++ rest ∧ Parsed limit (.atLeast min) (us ++ vs) ψ ∧
      connective? min rest = none := by
  induction rounds generalizing φ us ls q with
  | zero => simp [climb] at h
  | succ rounds ih =>
    rcases climb_eq_done h with ⟨hstop, rfl, -, rfl⟩ | ⟨c, pos, ls', χ, k, mid, k', hsome, hright, hnest, hloop⟩
    · refine ⟨[], rfl, ?_, hstop⟩
      rw [List.append_nil]
      exact ⟨hφ.derives.atLeast_mono hq, hφ.height_le⟩
    · obtain ⟨rfl, hm⟩ := connective?_eq_some_iff.1 hsome
      have hcq := connective?_eq_none_iff.1 hnext c pos ls' rfl
      obtain rfl := hc _ _ _ _ _ hright
      obtain ⟨rfl, hheight⟩ := nest_eq_done_iff.1 hnest
      obtain ⟨vs, rfl, hvs, hmid⟩ := hr _ _ _ _ _ hright
      have hleft : Parsed limit (.atLeast c.precedence) us φ :=
        ⟨hφ.derives.atLeast_mono (Nat.le_of_lt_succ hcq), hφ.height_le⟩
      obtain ⟨ws, rfl, hws, hrest⟩ := ih (hleft.binary hvs pos hheight) hm hmid hloop
      refine ⟨⟨.connective c, pos⟩ :: vs ++ ws, by simp, ?_, hrest⟩
      simpa only [List.append_assoc, List.cons_append] using hws

theorem parse_sound (limit : Option Nat) (fuel : Nat) :
    (∀ min depth, Sound limit min (subformula limit fuel min depth)) ∧
      (∀ depth ls φ n rest, operand limit fuel depth ls = .done (φ, n, rest) →
        ∃ us, ls = us ++ rest ∧ Parsed limit .unary us φ) ∧
      ∀ pos depth ls φ n rest, bracketed limit fuel pos depth ls = .done (φ, n, rest) →
        ∃ us pos', ls = us ++ ⟨.closing, pos'⟩ :: rest ∧ Parsed limit .join us φ := by
  induction fuel with
  | zero => simp [Sound, subformula, operand, bracketed]
  | succ fuel ih =>
    obtain ⟨ihs, iho, ihb⟩ := ih
    obtain ⟨hcs, hco, -⟩ := parse_counts limit fuel
    refine ⟨fun min depth ls φ n rest h => ?_, fun depth ls φ n rest h => ?_, fun pos depth ls φ n rest h => ?_⟩
    · obtain ⟨χ, k, mid, hfirst, hloop⟩ := subformula_eq_done h
      obtain rfl := hco _ _ _ _ _ hfirst
      obtain ⟨us, rfl, hus⟩ := iho _ _ _ _ _ hfirst
      have hq : Category.atLeast (max min 6) = .unary := by
        obtain ⟨k, hk⟩ := Nat.exists_eq_add_of_le' (Nat.le_max_right min 6)
        rw [hk]
        rfl
      have hnext := connective?_unary (Nat.le_succ_of_le (Nat.le_max_right min 6)) mid
      obtain ⟨vs, rfl, hvs, hrest⟩ :=
        climb_sound (fun m => ihs m depth) (fun m => hcs m depth) (hq ▸ hus) (Nat.le_max_left min 6) hnext hloop
      exact ⟨us ++ vs, by rw [List.append_assoc], hvs, hrest⟩
    · rcases operand_eq_done h with
        ⟨name, pos, rfl, rfl, -⟩ | ⟨pos, ls', d, χ, k, rfl, hinner, hnest, rfl⟩ | ⟨pos, ls', d, rfl, hinner⟩
      · exact ⟨[⟨.symbol name, pos⟩], rfl, .symbol name, by simp [Formula.height]⟩
      · obtain rfl := hco _ _ _ _ _ hinner
        obtain ⟨us, rfl, hus⟩ := iho _ _ _ _ _ hinner
        exact ⟨⟨.not, pos⟩ :: us, rfl, .not hus.derives, (nest_eq_done_iff.1 hnest).2⟩
      · obtain ⟨us, pos', rfl, hus⟩ := ihb _ _ _ _ _ _ hinner
        refine ⟨⟨.opening, pos⟩ :: us ++ [⟨.closing, pos'⟩], by simp, ?_, hus.height_le⟩
        simpa using Derives.bracket hus.derives
    · obtain ⟨pos', hinner⟩ := bracketed_eq_done h
      obtain ⟨us, rfl, hus, -⟩ := ihs _ _ _ _ _ _ hinner
      exact ⟨us, pos', rfl, hus⟩

theorem finish_eq_done_iff {φ ψ : Formula} {ls : List Lexeme} :
    finish φ ls = .done ψ ↔ content ls = [] ∧ φ = ψ := by
  constructor
  · intro h
    unfold finish at h
    split at h
    · exact ⟨rfl, Outcome.done.inj h⟩
    · exact ⟨content_eq_nil_iff.2 (.inr ⟨_, _, rfl⟩), Outcome.done.inj h⟩
    · simp at h
    · simp at h
  · rintro ⟨hls, rfl⟩
    exact finish_end hls φ

/-- What a run answers with is read from all tokens before the first end of the input. -/
theorem parsed_of_run {limit : Option Nat} {fuel : Nat} {ls : List Lexeme} {φ : Formula}
    (h : run limit fuel ls = .done φ) : Parsed limit .join (content ls) φ := by
  by_cases hnil : content ls = []
  · simp [run_end hnil] at h
  · rw [run_of_content_ne_nil hnil] at h
    obtain ⟨⟨ψ, n, rest⟩, hψ, hfinish⟩ := Outcome.bind_eq_done.1 h
    obtain ⟨hrest, rfl⟩ := finish_eq_done_iff.1 hfinish
    obtain ⟨us, rfl, hus, -⟩ := (parse_sound limit fuel).1 _ _ _ _ _ _ hψ
    rw [hus.content_append, hrest, List.append_nil]
    exact hus

end TruthTables.Parser

namespace TruthTables

theorem Outcome.result_eq_ok_iff {α : Type} {x : Outcome α} {h : x ≠ .exhausted} {a : α} :
    x.result h = .ok a ↔ x = .done a := by
  cases x with
  | done b => simp [result]
  | failed e => simp [result]
  | exhausted => exact absurd rfl h

theorem Outcome.result_eq_error_iff {α : Type} {x : Outcome α} {h : x ≠ .exhausted}
    {e : SyntaxError} : x.result h = .error e ↔ x = .failed e := by
  cases x with
  | done b => simp [result]
  | failed e => simp [result]
  | exhausted => exact absurd rfl h

theorem Formula.parsed_of_ofLexemesWithin {limit : Option Nat} {ls : List Lexeme} {φ : Formula}
    (h : ofLexemesWithin limit ls = .ok φ) : Parser.Parsed limit .join (Parser.content ls) φ :=
  Parser.parsed_of_run (Outcome.result_eq_ok_iff.1 h)

end TruthTables
