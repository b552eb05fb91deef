import TruthTables.Formula.Basic
import TruthTables.Valuation

/-! # Evaluation of all subformulas in one pass -/
namespace TruthTables

inductive ElementKind
  | symbol | compound | join
  deriving DecidableEq

/-- A subformula as one pass sees it. Its order is its place among the elements of the pass. -/
structure Element where
  label : String
  value : Bool
  kind : ElementKind
  order : Nat
  deriving DecidableEq

namespace Element

def isPrimitive (e : Element) : Bool := e.kind = .symbol

def isJoin (e : Element) : Bool := e.kind = .join

def isDisplayed (e : Element) : Bool := e.kind ≠ .join

def isDerived (e : Element) : Bool := e.kind = .compound

theorem isDisplayed_iff {e : Element} :
    e.isDisplayed = true ↔ e.isPrimitive = true ∨ e.isDerived = true := by
  cases h : e.kind <;> simp [isDisplayed, isPrimitive, isDerived, h]

end Element

/-- The elements of a pass in the order of their registration, and the one of the whole formula. -/
structure Evaluation where
  elements : List Element
  root : Element
  deriving DecidableEq

namespace Evaluation

/-- The element with the given label, which is a new one unless there is one already. -/
def register (es : List Element) (label : String) (value : Bool) (kind : ElementKind) :
    Element × List Element :=
  match es.find? (·.label = label) with
  | some e => (e, es)
  | none => (⟨label, value, kind, es.length⟩, es ++ [⟨label, value, kind, es.length⟩])

/-- The element of a formula, after all of its subformulas have been registered from the left to the right
and from the leaves to the root. -/
def visit (ν : Valuation) : Formula → List Element → Element × List Element
  | .symbol name, es => register es name (ν.value name) .symbol
  | .not φ, es =>
    let (p, es) := visit ν φ es
    register es ("¬" ++ p.label) (!p.value) .compound
  | .binary c φ ψ, es =>
    let (p, es) := visit ν φ es
    let (q, es) := visit ν ψ es
    register es ("(" ++ p.label ++ " " ++ c.glyph ++ " " ++ q.label ++ ")") (c.apply p.value q.value)
      (if c = .join then .join else .compound)

def run (φ : Formula) (ν : Valuation) : Evaluation :=
  let (root, elements) := visit ν φ []
  ⟨elements, root⟩

def get? (ev : Evaluation) (label : String) : Option Element := ev.elements.find? (·.label = label)

def primitives (ev : Evaluation) : List Element := ev.elements.filter (·.isPrimitive)

def derived (ev : Evaluation) : List Element := ev.elements.filter (·.isDerived)

theorem label_register (es : List Element) (label : String) (value : Bool) (kind : ElementKind) :
    (register es label value kind).1.label = label := by
  unfold register
  split
  · rename_i e h
    simpa using List.find?_some h
  · rfl

/-- An element bears the label of its formula, whoever registered it. -/
theorem label_visit (ν : Valuation) (φ : Formula) (es : List Element) :
    (visit ν φ es).1.label = φ.label := by
  induction φ generalizing es with
  | symbol name => simp [visit, label_register, Formula.label]
  | not φ ih => simp [visit, label_register, Formula.label, ih]
  | binary c φ ψ ihφ ihψ => simp [visit, label_register, Formula.label, ihφ, ihψ]

@[simp] theorem label_root (φ : Formula) (ν : Valuation) : (run φ ν).root.label = φ.label :=
  label_visit ν φ []

end Evaluation

end TruthTables
