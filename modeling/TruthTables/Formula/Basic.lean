/-! # Formulas of propositional logic -/
namespace TruthTables

/-- The join is a conjunction that has a value but no column of its own. -/
inductive Connective
  | and | or | xor | implies | iff | join
  deriving DecidableEq

namespace Connective

/-- How tightly a connective binds. All of them group to the left. -/
def precedence : Connective → Nat
  | join => 1
  | iff => 2
  | implies => 3
  | or | xor => 4
  | and => 5

theorem precedence_bounds (c : Connective) : 1 ≤ c.precedence ∧ c.precedence ≤ 5 := by
  cases c <;> decide

def glyph : Connective → String
  | and => "∧"
  | or => "∨"
  | xor => "⊕"
  | implies => "→"
  | iff => "≡"
  | join => ","

def apply : Connective → Bool → Bool → Bool
  | and, p, q | join, p, q => p && q
  | or, p, q => p || q
  | xor, p, q => p != q
  | implies, p, q => !p || q
  | iff, p, q => p == q

end Connective

inductive Formula
  | symbol (name : String)
  | not (φ : Formula)
  | binary (c : Connective) (φ ψ : Formula)
  deriving DecidableEq

namespace Formula

/-- The written form of a formula, with brackets around every binary operation and nowhere else. -/
def label : Formula → String
  | symbol name => name
  | not φ => "¬" ++ φ.label
  | binary c φ ψ => "(" ++ φ.label ++ " " ++ c.glyph ++ " " ++ ψ.label ++ ")"

/-- The number of operations on the longest way down to a symbol. -/
def height : Formula → Nat
  | symbol _ => 0
  | not φ => φ.height + 1
  | binary _ φ ψ => max φ.height ψ.height + 1

def eval (v : String → Bool) : Formula → Bool
  | symbol name => v name
  | not φ => !φ.eval v
  | binary c φ ψ => c.apply (φ.eval v) (ψ.eval v)

def leaves : Formula → List String
  | symbol name => [name]
  | not φ => φ.leaves
  | binary _ φ ψ => φ.leaves ++ ψ.leaves

/-- The distinct names of a formula in the order of their first appearance. -/
def symbols (φ : Formula) : List String := φ.leaves.eraseDups

theorem eval_congr {v w : String → Bool} {φ : Formula} (h : ∀ s ∈ φ.leaves, v s = w s) :
    φ.eval v = φ.eval w := by
  induction φ with
  | symbol s => simpa [eval, leaves] using h
  | not φ ih => simp [eval, ih h]
  | binary c φ ψ ihφ ihψ =>
    simp only [leaves, List.mem_append] at h
    rw [eval, eval, ihφ fun s hs => h s (.inl hs), ihψ fun s hs => h s (.inr hs)]

theorem mem_symbols {φ : Formula} {s : String} : s ∈ φ.symbols ↔ s ∈ φ.leaves :=
  List.mem_eraseDups

end Formula

end TruthTables
