import TruthTables.Error

/-! # From tokens to formulas -/
namespace TruthTables

/-- What a call comes to that may go down a limited number of calls. -/
inductive Outcome (α : Type)
  | done (a : α)
  | failed (e : SyntaxError)
  | exhausted
  deriving DecidableEq

namespace Outcome

def bind {α β : Type} : Outcome α → (α → Outcome β) → Outcome β
  | done a, f => f a
  | failed e, _ => failed e
  | exhausted, _ => exhausted

@[simp] theorem done_bind {α β : Type} (a : α) (f : α → Outcome β) : (done a).bind f = f a := rfl

@[simp] theorem failed_bind {α β : Type} (e : SyntaxError) (f : α → Outcome β) :
    (failed e).bind f = failed e := rfl

@[simp] theorem exhausted_bind {α β : Type} (f : α → Outcome β) :
    (exhausted : Outcome α).bind f = exhausted := rfl

theorem bind_eq_done {α β : Type} {x : Outcome α} {f : α → Outcome β} {b : β} :
    x.bind f = done b ↔ ∃ a, x = done a ∧ f a = done b := by
  cases x <;> simp

theorem bind_ne_exhausted {α β : Type} {x : Outcome α} {f : α → Outcome β} (hx : x ≠ exhausted)
    (hf : ∀ a, x = done a → f a ≠ exhausted) : x.bind f ≠ exhausted := by
  cases x with
  | done a => exact hf a rfl
  | failed e => simp
  | exhausted => exact absurd rfl hx

def result {α : Type} : (x : Outcome α) → x ≠ exhausted → Except SyntaxError α
  | done a, _ => .ok a
  | failed e, _ => .error e
  | exhausted, h => absurd rfl h

end Outcome

namespace Parser

/-- A formula, how high it has been counted to be, and the tokens after it. -/
abbrev Parse := Outcome (Formula × Nat × List Lexeme)

/-- One level below `depth`, unless that would be more levels than the limit, if there is one. -/
def nest (limit : Option Nat) (depth pos : Nat) : Outcome Nat :=
  if limit.any (· ≤ depth) then .failed (.tooDeep pos) else .done (depth + 1)

def connective? (min : Nat) : List Lexeme → Option (Connective × Nat × List Lexeme)
  | ⟨.connective c, pos⟩ :: ls => if min ≤ c.precedence then some (c, pos, ls) else none
  | _ => none

/-- Joins `φ` with the operands that follow it, each read by `right` and each after a connective that binds
at least as tightly as `min`. -/
def climb (limit : Option Nat) (right : Nat → List Lexeme → Parse) (min : Nat) :
    (rounds : Nat) → (φ : Formula) → (height : Nat) → List Lexeme → Parse
  | 0, _, _, _ => .exhausted
  | rounds + 1, φ, height, ls =>
    match connective? min ls with
    | none => .done (φ, height, ls)
    | some (c, pos, ls) =>
      (right (c.precedence + 1) ls).bind fun (ψ, height', rest) =>
        (nest limit (max height height') pos).bind fun height =>
          climb limit right min rounds (.binary c φ ψ) height rest

/-- The closing bracket after the formula that the bracket at `pos` opens. -/
def close (pos : Nat) (φ : Formula) (height : Nat) : List Lexeme → Parse
  | ⟨.closing, _⟩ :: ls => .done (φ, height, ls)
  | [] | ⟨.eof, _⟩ :: _ => .failed (.unmatchedBracket pos)
  | ⟨t, pos⟩ :: _ => .failed (.unexpectedToken pos t .closingBracket)

mutual

/-- A formula whose connectives outside of brackets bind at least as tightly as `min`. -/
def subformula (limit : Option Nat) : (fuel min depth : Nat) → List Lexeme → Parse
  | 0, _, _, _ => .exhausted
  | fuel + 1, min, depth, ls =>
    (operand limit fuel depth ls).bind fun (φ, height, rest) =>
      climb limit (fun min ls => subformula limit fuel min depth ls) min (rest.length + 1) φ height rest
termination_by structural fuel => fuel

/-- A symbol, a negation or a formula in brackets, under `depth` negations and brackets. -/
def operand (limit : Option Nat) : (fuel depth : Nat) → List Lexeme → Parse
  | 0, _, _ => .exhausted
  | _ + 1, _, [] => .failed (.unexpectedEnd .operand)
  | fuel + 1, depth, ⟨t, pos⟩ :: ls =>
    match t with
    | .symbol name => .done (.symbol name, 0, ls)
    | .not =>
      (nest limit depth pos).bind fun depth =>
        (operand limit fuel depth ls).bind fun (φ, height, rest) =>
          (nest limit height pos).bind fun height => .done (.not φ, height, rest)
    | .opening => (nest limit depth pos).bind fun depth => bracketed limit fuel pos depth ls
    | .eof => .failed (.unexpectedEnd .operand)
    | t => .failed (.unexpectedToken pos t .operand)
termination_by structural fuel => fuel

def bracketed (limit : Option Nat) : (fuel pos depth : Nat) → List Lexeme → Parse
  | 0, _, _, _ => .exhausted
  | fuel + 1, pos, depth, ls =>
    (subformula limit fuel 0 depth ls).bind fun (φ, height, rest) => close pos φ height rest
termination_by structural fuel => fuel

end

def finish (φ : Formula) : List Lexeme → Outcome Formula
  | [] | ⟨.eof, _⟩ :: _ => .done φ
  | ⟨.closing, pos⟩ :: _ => .failed (.unmatchedBracket pos)
  | ⟨t, pos⟩ :: _ => .failed (.trailingInput pos t)

def run (limit : Option Nat) (fuel : Nat) : List Lexeme → Outcome Formula
  | [] | ⟨.eof, _⟩ :: _ => .failed .emptyExpression
  | ls => (subformula limit fuel 0 0 ls).bind fun (φ, _, rest) => finish φ rest

theorem nest_ne_exhausted (limit : Option Nat) (depth pos : Nat) : nest limit depth pos ≠ .exhausted := by
  unfold nest
  split <;> simp

theorem close_ne_exhausted (pos : Nat) (φ : Formula) (height : Nat) (ls : List Lexeme) :
    close pos φ height ls ≠ .exhausted := by
  unfold close
  split <;> simp

theorem finish_ne_exhausted (φ : Formula) (ls : List Lexeme) : finish φ ls ≠ .exhausted := by
  unfold finish
  split <;> simp

theorem connective?_eq_some_iff {min : Nat} {ls rest : List Lexeme} {c : Connective} {pos : Nat} :
    connective? min ls = some (c, pos, rest) ↔
      ls = ⟨.connective c, pos⟩ :: rest ∧ min ≤ c.precedence := by
  fun_cases connective? min ls with
  | case1 d p ls h =>
    simp only [Option.some.injEq, Prod.mk.injEq, List.cons.injEq, Lexeme.mk.injEq,
      Token.connective.injEq]
    constructor
    · rintro ⟨rfl, rfl, rfl⟩
      exact ⟨⟨⟨rfl, rfl⟩, rfl⟩, h⟩
    · rintro ⟨⟨⟨rfl, rfl⟩, rfl⟩, -⟩
      exact ⟨rfl, rfl, rfl⟩
  | case2 d p ls h =>
    simp only [reduceCtorEq, false_iff, List.cons.injEq, Lexeme.mk.injEq, Token.connective.injEq]
    rintro ⟨⟨⟨rfl, rfl⟩, rfl⟩, hm⟩
    exact h hm
  | case3 _ h =>
    simp only [reduceCtorEq, false_iff]
    rintro ⟨rfl, -⟩
    exact h c pos rest rfl

theorem connective?_length {min pos : Nat} {c : Connective} {ls rest : List Lexeme}
    (h : connective? min ls = some (c, pos, rest)) : rest.length < ls.length := by
  obtain ⟨rfl, -⟩ := connective?_eq_some_iff.1 h
  exact Nat.lt_succ_self _

theorem close_eq_done {pos m n : Nat} {φ ψ : Formula} {ls rest : List Lexeme}
    (h : close pos φ m ls = .done (ψ, n, rest)) : ψ = φ ∧ n = m ∧ ∃ pos', ls = ⟨.closing, pos'⟩ :: rest := by
  unfold close at h
  split at h
  · simp only [Outcome.done.injEq, Prod.mk.injEq] at h
    obtain ⟨rfl, rfl, rfl⟩ := h
    exact ⟨rfl, rfl, _, rfl⟩
  · simp at h
  · simp at h
  · simp at h

section Done

variable {limit : Option Nat} {fuel min depth pos m n : Nat} {φ ψ : Formula} {ls rest : List Lexeme}

/-- The loop is left with what it has, or it has joined one more operand. -/
theorem climb_eq_done {right : Nat → List Lexeme → Parse} {rounds : Nat}
    (h : climb limit right min (rounds + 1) φ m ls = .done (ψ, n, rest)) :
    (connective? min ls = none ∧ ψ = φ ∧ n = m ∧ rest = ls) ∨
      ∃ c pos ls' χ k mid k', connective? min ls = some (c, pos, ls') ∧
        right (c.precedence + 1) ls' = .done (χ, k, mid) ∧ nest limit (max m k) pos = .done k' ∧
          climb limit right min rounds (.binary c φ χ) k' mid = .done (ψ, n, rest) := by
  rw [climb] at h
  split at h
  · rename_i hnone
    simp only [Outcome.done.injEq, Prod.mk.injEq] at h
    obtain ⟨rfl, rfl, rfl⟩ := h
    exact .inl ⟨hnone, rfl, rfl, rfl⟩
  · rename_i c pos ls' hsome
    obtain ⟨⟨χ, k, mid⟩, hright, h⟩ := Outcome.bind_eq_done.1 h
    obtain ⟨k', hnest, h⟩ := Outcome.bind_eq_done.1 h
    exact .inr ⟨c, pos, ls', χ, k, mid, k', hsome, hright, hnest, h⟩

theorem subformula_eq_done (h : subformula limit (fuel + 1) min depth ls = .done (φ, n, rest)) :
    ∃ χ k mid, operand limit fuel depth ls = .done (χ, k, mid) ∧
      climb limit (fun min ls => subformula limit fuel min depth ls) min (mid.length + 1) χ k mid =
        .done (φ, n, rest) := by
  rw [subformula] at h
  obtain ⟨⟨χ, k, mid⟩, hoperand, h⟩ := Outcome.bind_eq_done.1 h
  exact ⟨χ, k, mid, hoperand, h⟩

/-- An operand is a symbol, a negation of another operand or a formula in brackets. -/
theorem operand_eq_done (h : operand limit (fuel + 1) depth ls = .done (φ, n, rest)) :
    (∃ name pos, ls = ⟨.symbol name, pos⟩ :: rest ∧ φ = .symbol name ∧ n = 0) ∨
      (∃ pos ls' depth' χ k, ls = ⟨.not, pos⟩ :: ls' ∧ operand limit fuel depth' ls' = .done (χ, k, rest) ∧
        nest limit k pos = .done n ∧ φ = .not χ) ∨
      ∃ pos ls' depth', ls = ⟨.opening, pos⟩ :: ls' ∧ bracketed limit fuel pos depth' ls' = .done (φ, n, rest) := by
  cases ls with
  | nil => simp [operand] at h
  | cons l ls =>
    obtain ⟨t, pos⟩ := l
    cases t with
    | symbol name =>
      simp only [operand, Outcome.done.injEq, Prod.mk.injEq] at h
      obtain ⟨rfl, rfl, rfl⟩ := h
      exact .inl ⟨name, pos, rfl, rfl, rfl⟩
    | not =>
      simp only [operand] at h
      obtain ⟨depth', _, h⟩ := Outcome.bind_eq_done.1 h
      obtain ⟨⟨χ, k, mid⟩, hinner, h⟩ := Outcome.bind_eq_done.1 h
      obtain ⟨k', hnest, h⟩ := Outcome.bind_eq_done.1 h
      simp only [Outcome.done.injEq, Prod.mk.injEq] at h
      obtain ⟨rfl, rfl, rfl⟩ := h
      exact .inr (.inl ⟨pos, ls, depth', χ, k, rfl, hinner, hnest, rfl⟩)
    | opening =>
      simp only [operand] at h
      obtain ⟨depth', _, h⟩ := Outcome.bind_eq_done.1 h
      exact .inr (.inr ⟨pos, ls, depth', rfl, h⟩)
    | connective _ | closing | eof => simp [operand] at h

theorem bracketed_eq_done (h : bracketed limit (fuel + 1) pos depth ls = .done (φ, n, rest)) :
    ∃ pos', subformula limit fuel 0 depth ls = .done (φ, n, ⟨.closing, pos'⟩ :: rest) := by
  rw [bracketed] at h
  obtain ⟨⟨χ, k, mid⟩, hinner, h⟩ := Outcome.bind_eq_done.1 h
  obtain ⟨rfl, rfl, pos', rfl⟩ := close_eq_done h
  exact ⟨pos', hinner⟩

end Done

def Consumes (read : List Lexeme → Parse) : Prop :=
  ∀ ls φ height rest, read ls = .done (φ, height, rest) → rest.length < ls.length

theorem climb_length {limit : Option Nat} {right : Nat → List Lexeme → Parse}
    (hr : ∀ min, Consumes (right min)) {min rounds m n : Nat} {φ ψ : Formula} {ls rest : List Lexeme}
    (h : climb limit right min rounds φ m ls = .done (ψ, n, rest)) : rest.length ≤ ls.length := by
  induction rounds generalizing φ m ls with
  | zero => simp [climb] at h
  | succ rounds ih =>
    rcases climb_eq_done h with ⟨-, -, -, rfl⟩ | ⟨c, pos, ls', χ, k, mid, k', hsome, hright, -, hloop⟩
    · exact Nat.le_refl _
    · have h₁ := connective?_length hsome
      have h₂ := hr _ _ _ _ _ hright
      have h₃ := ih hloop
      omega

theorem consumes (limit : Option Nat) (fuel : Nat) :
    (∀ min depth, Consumes (subformula limit fuel min depth)) ∧
      (∀ depth, Consumes (operand limit fuel depth)) ∧
      ∀ pos depth, Consumes (bracketed limit fuel pos depth) := by
  induction fuel with
  | zero => simp [Consumes, subformula, operand, bracketed]
  | succ fuel ih =>
    obtain ⟨ihs, iho, ihb⟩ := ih
    refine ⟨fun min depth ls φ n rest h => ?_, fun depth ls φ n rest h => ?_, fun pos depth ls φ n rest h => ?_⟩
    · obtain ⟨χ, k, mid, hfirst, hloop⟩ := subformula_eq_done h
      have h₁ := iho _ _ _ _ _ hfirst
      have h₂ := climb_length (fun min => ihs min depth) hloop
      omega
    · rcases operand_eq_done h with
        ⟨name, pos, rfl, -, -⟩ | ⟨pos, ls', d, χ, k, rfl, hinner, -, -⟩ | ⟨pos, ls', d, rfl, hinner⟩
      · exact Nat.lt_succ_self _
      · exact Nat.lt_succ_of_lt (iho _ _ _ _ _ hinner)
      · exact Nat.lt_succ_of_lt (ihb _ _ _ _ _ _ hinner)
    · obtain ⟨pos', hinner⟩ := bracketed_eq_done h
      exact Nat.lt_of_succ_lt (ihs _ _ _ _ _ _ hinner)

theorem climb_ne_exhausted {limit : Option Nat} {right : Nat → List Lexeme → Parse}
    (hc : ∀ min, Consumes (right min)) {min rounds height : Nat} {φ : Formula} {ls : List Lexeme}
    (hr : ∀ (c : Connective) ls', min ≤ c.precedence → ls'.length < ls.length →
      right (c.precedence + 1) ls' ≠ .exhausted)
    (hn : ls.length < rounds) : climb limit right min rounds φ height ls ≠ .exhausted := by
  induction rounds generalizing φ height ls with
  | zero => omega
  | succ rounds ih =>
    rw [climb]
    split
    · simp
    · rename_i c pos ls' hl
      have h₁ := connective?_length hl
      have h₂ := (connective?_eq_some_iff.1 hl).2
      refine Outcome.bind_ne_exhausted (hr c _ h₂ h₁) fun ⟨ψ, k, rest⟩ hψ => ?_
      have h₃ := hc _ _ _ _ _ hψ
      refine Outcome.bind_ne_exhausted (nest_ne_exhausted _ _ _) fun _ _ => ih ?_ ?_
      · intro c ls'' hc h
        exact hr c ls'' hc (by omega)
      · omega

section NotExhausted

variable {limit : Option Nat} {fuel min depth pos : Nat} {ls : List Lexeme}

theorem subformula_ne_exhausted (hfirst : operand limit fuel depth ls ≠ .exhausted)
    (hright : ∀ (c : Connective) ls', min ≤ c.precedence → ls'.length < ls.length →
      subformula limit fuel (c.precedence + 1) depth ls' ≠ .exhausted) :
    subformula limit (fuel + 1) min depth ls ≠ .exhausted := by
  obtain ⟨hs, ho, -⟩ := consumes limit fuel
  rw [subformula]
  refine Outcome.bind_ne_exhausted hfirst fun ⟨φ, k, rest⟩ hφ => ?_
  have hrest := ho _ _ _ _ _ hφ
  exact climb_ne_exhausted (fun m => hs m depth)
    (fun c ls' hc hls' => hright c ls' hc (Nat.lt_trans hls' hrest)) (Nat.lt_succ_self _)

theorem operand_ne_exhausted
    (hnot : ∀ pos ls' d, ls = ⟨.not, pos⟩ :: ls' → nest limit depth pos = .done d →
      operand limit fuel d ls' ≠ .exhausted)
    (hopening : ∀ pos ls' d, ls = ⟨.opening, pos⟩ :: ls' → nest limit depth pos = .done d →
      bracketed limit fuel pos d ls' ≠ .exhausted) :
    operand limit (fuel + 1) depth ls ≠ .exhausted := by
  cases ls with
  | nil => simp [operand]
  | cons l ls =>
    obtain ⟨t, pos⟩ := l
    cases t with
    | not =>
      simp only [operand]
      refine Outcome.bind_ne_exhausted (nest_ne_exhausted _ _ _) fun d hd => ?_
      refine Outcome.bind_ne_exhausted (hnot pos ls d rfl hd) fun _ _ => ?_
      exact Outcome.bind_ne_exhausted (nest_ne_exhausted _ _ _) fun _ _ => by simp
    | opening =>
      simp only [operand]
      exact Outcome.bind_ne_exhausted (nest_ne_exhausted _ _ _) fun d hd => hopening pos ls d rfl hd
    | symbol _ | connective _ | closing | eof => simp [operand]

theorem bracketed_ne_exhausted (h : subformula limit fuel 0 depth ls ≠ .exhausted) :
    bracketed limit (fuel + 1) pos depth ls ≠ .exhausted := by
  rw [bracketed]
  exact Outcome.bind_ne_exhausted h fun ⟨φ, k, rest⟩ _ => close_ne_exhausted pos φ k rest

end NotExhausted

theorem ne_exhausted (limit : Option Nat) (fuel : Nat) :
    (∀ min depth ls, 3 * ls.length + 2 ≤ fuel → subformula limit fuel min depth ls ≠ .exhausted) ∧
      (∀ depth ls, 3 * ls.length + 1 ≤ fuel → operand limit fuel depth ls ≠ .exhausted) ∧
      ∀ pos depth ls, 3 * ls.length + 3 ≤ fuel → bracketed limit fuel pos depth ls ≠ .exhausted := by
  induction fuel with
  | zero => refine ⟨?_, ?_, ?_⟩ <;> intros <;> omega
  | succ fuel ih =>
    obtain ⟨ihs, iho, ihb⟩ := ih
    refine ⟨fun min depth ls h => ?_, fun depth ls h => ?_, fun pos depth ls h => ?_⟩
    · exact subformula_ne_exhausted (iho depth ls (by omega)) fun c ls' _ hls' => ihs _ depth ls' (by omega)
    · refine operand_ne_exhausted ?_ ?_
      · rintro pos ls' d rfl -
        rw [List.length_cons] at h
        exact iho d ls' (by omega)
      · rintro pos ls' d rfl -
        rw [List.length_cons] at h
        exact ihb pos d ls' (by omega)
    · exact bracketed_ne_exhausted (ihs 0 depth ls (by omega))

theorem run_ne_exhausted_of_subformula {limit : Option Nat} {fuel : Nat} {ls : List Lexeme}
    (h : subformula limit fuel 0 0 ls ≠ .exhausted) : run limit fuel ls ≠ .exhausted := by
  unfold run
  split
  · simp
  · simp
  · exact Outcome.bind_ne_exhausted h fun ⟨φ, k, rest⟩ _ => finish_ne_exhausted _ _

/-- So many calls, one inside the other, are always enough. -/
def enoughFuel (ls : List Lexeme) : Nat := 3 * ls.length + 2

theorem run_ne_exhausted (limit : Option Nat) (ls : List Lexeme) :
    run limit (enoughFuel ls) ls ≠ .exhausted :=
  run_ne_exhausted_of_subformula ((ne_exhausted limit _).1 _ _ _ (Nat.le_refl _))

end Parser

namespace Formula

/-- The formula of a list of tokens when it may nest to the given limit, or without one. -/
def ofLexemesWithin (limit : Option Nat) (ls : List Lexeme) : Except SyntaxError Formula :=
  (Parser.run limit (Parser.enoughFuel ls) ls).result (Parser.run_ne_exhausted limit ls)

def maxDepth : Nat := 256

def ofLexemes (ls : List Lexeme) : Except SyntaxError Formula := ofLexemesWithin (some maxDepth) ls

end Formula

end TruthTables
