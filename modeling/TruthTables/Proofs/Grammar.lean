import TruthTables.Formula.Parser

/-! # The grammar of formulas -/
namespace TruthTables.Grammar

inductive Category
  | join | iff | implies | or | and | unary
  deriving DecidableEq

/-- The tokens that are read as a formula of a category. -/
inductive Derives : Category → List Token → Formula → Prop
  | join {ts us φ ψ} : Derives .join ts φ → Derives .iff us ψ →
      Derives .join (ts ++ .connective .join :: us) (.binary .join φ ψ)
  | ofIff {ts φ} : Derives .iff ts φ → Derives .join ts φ
  | iff {ts us φ ψ} : Derives .iff ts φ → Derives .implies us ψ →
      Derives .iff (ts ++ .connective .iff :: us) (.binary .iff φ ψ)
  | ofImplies {ts φ} : Derives .implies ts φ → Derives .iff ts φ
  | implies {ts us φ ψ} : Derives .implies ts φ → Derives .or us ψ →
      Derives .implies (ts ++ .connective .implies :: us) (.binary .implies φ ψ)
  | ofOr {ts φ} : Derives .or ts φ → Derives .implies ts φ
  | or {ts us φ ψ} : Derives .or ts φ → Derives .and us ψ →
      Derives .or (ts ++ .connective .or :: us) (.binary .or φ ψ)
  | xor {ts us φ ψ} : Derives .or ts φ → Derives .and us ψ →
      Derives .or (ts ++ .connective .xor :: us) (.binary .xor φ ψ)
  | ofAnd {ts φ} : Derives .and ts φ → Derives .or ts φ
  | and {ts us φ ψ} : Derives .and ts φ → Derives .unary us ψ →
      Derives .and (ts ++ .connective .and :: us) (.binary .and φ ψ)
  | ofUnary {ts φ} : Derives .unary ts φ → Derives .and ts φ
  | not {ts φ} : Derives .unary ts φ → Derives .unary (.not :: ts) (.not φ)
  | bracket {ts φ} : Derives .join ts φ → Derives .unary (.opening :: ts ++ [.closing]) φ
  | symbol (name) : Derives .unary [.symbol name] (.symbol name)

/-- The category of the formulas whose connectives outside of brackets bind at least as tightly as `min`. -/
def Category.atLeast : (min : Nat) → Category
  | 0 | 1 => .join
  | 2 => .iff
  | 3 => .implies
  | 4 => .or
  | 5 => .and
  | _ + 6 => .unary

/-- How tightly the loosest connective of a category binds. -/
def Category.level : Category → Nat
  | .join => 1
  | .iff => 2
  | .implies => 3
  | .or => 4
  | .and => 5
  | .unary => 6

namespace Derives

theorem binary (c : Connective) {ts us : List Token} {φ ψ : Formula}
    (hφ : Derives (.atLeast c.precedence) ts φ) (hψ : Derives (.atLeast (c.precedence + 1)) us ψ) :
    Derives (.atLeast c.precedence) (ts ++ .connective c :: us) (.binary c φ ψ) := by
  cases c with
  | and => exact .and hφ hψ
  | or => exact .or hφ hψ
  | xor => exact .xor hφ hψ
  | implies => exact .implies hφ hψ
  | iff => exact .iff hφ hψ
  | join => exact .join hφ hψ

theorem atLeast_of_succ {n : Nat} {ts : List Token} {φ : Formula}
    (h : Derives (.atLeast (n + 1)) ts φ) : Derives (.atLeast n) ts φ := by
  match n with
  | 0 => exact h
  | 1 => exact .ofIff h
  | 2 => exact .ofImplies h
  | 3 => exact .ofOr h
  | 4 => exact .ofAnd h
  | 5 => exact .ofUnary h
  | _ + 6 => exact h

theorem atLeast_mono {m n : Nat} (hmn : m ≤ n) {ts : List Token} {φ : Formula}
    (h : Derives (.atLeast n) ts φ) : Derives (.atLeast m) ts φ := by
  induction hmn with
  | refl => exact h
  | step _ ih => exact ih h.atLeast_of_succ

theorem ne_nil {k : Category} {ts : List Token} {φ : Formula} (h : Derives k ts φ) : ts ≠ [] := by
  induction h <;> simp_all

theorem eof_not_mem {k : Category} {ts : List Token} {φ : Formula} (h : Derives k ts φ) : .eof ∉ ts := by
  induction h <;> simp_all

theorem symbol_mem {k : Category} {ts : List Token} {φ : Formula} (h : Derives k ts φ) :
    ∀ name ∈ φ.leaves, .symbol name ∈ ts := by
  induction h with
  | symbol name => simp [Formula.leaves]
  | not _ ih => exact fun name hn => List.mem_cons_of_mem _ (ih name hn)
  | bracket _ ih => exact fun name hn => List.mem_append_left _ (List.mem_cons_of_mem _ (ih name hn))
  | ofIff _ ih | ofImplies _ ih | ofOr _ ih | ofAnd _ ih | ofUnary _ ih => exact ih
  | join _ _ ih ih' | iff _ _ ih ih' | implies _ _ ih ih' | or _ _ ih ih' | xor _ _ ih ih'
  | and _ _ ih ih' =>
    intro name hn
    rcases List.mem_append.1 hn with hn | hn
    · exact List.mem_append_left _ (ih name hn)
    · exact List.mem_append_right _ (List.mem_cons_of_mem _ (ih' name hn))

end Derives

end TruthTables.Grammar
