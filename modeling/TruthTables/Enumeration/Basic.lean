import TruthTables.Evaluation
import TruthTables.Variables

/-! # The rows of a truth table, one after the other -/
namespace TruthTables

/-- The values of the displayed elements of one pass. -/
structure RowValues where
  index : Nat
  primitives : List Bool
  derived : List Bool
  deriving DecidableEq

/-- A place among the rows of a formula. The names, the labels and the title come from a pass in which every
name is false, since they depend on the formula only. -/
structure Enumeration where
  formula : Formula
  vars : Variables
  derivedLabels : List String
  title : String
  next : Nat
  deriving DecidableEq

namespace Enumeration

def ofFormula (φ : Formula) : Enumeration :=
  let reference := Evaluation.run φ .empty
  { formula := φ
    vars := .ofList (reference.primitives.map (·.label))
    derivedLabels := reference.derived.map (·.label)
    title := reference.root.label
    next := 0 }

def rowCount (e : Enumeration) : Nat := e.vars.rowCount

def remaining (e : Enumeration) : Nat := e.rowCount - e.next

/-- The row of the given number, from a pass of its own. -/
def row (e : Enumeration) (index : Nat) : RowValues :=
  let ev := Evaluation.run e.formula (e.vars.valuation index)
  ⟨index, ev.primitives.map (·.value), ev.derived.map (·.value)⟩

/-- The place behind the next row, where there is one. -/
def advance (e : Enumeration) : Enumeration := { e with next := e.next + 1 }

def next? (e : Enumeration) : Option (RowValues × Enumeration) :=
  if e.rowCount ≤ e.next then none else some (e.row e.next, e.advance)

/-- Leaves out up to `n` rows, one after the other. -/
def skip : (n : Nat) → Enumeration → Enumeration
  | 0, e => e
  | n + 1, e =>
    match e.next? with
    | none => e
    | some (_, e) => e.skip n

def take (e : Enumeration) (n : Nat) : List RowValues :=
  (List.range' e.next (min n e.remaining)).map e.row

/-- A lower and an upper bound on the rows to come, as far as words of 64 bits can hold them. -/
def sizeHint (e : Enumeration) : Nat × Option Nat :=
  if e.remaining < UInt64.size then (e.remaining, some e.remaining) else (UInt64.size - 1, none)

theorem next?_eq_none_iff {e : Enumeration} : e.next? = none ↔ e.remaining = 0 := by
  simp [next?, remaining, Nat.sub_eq_zero_iff_le]

theorem next?_of_lt {e : Enumeration} (h : e.next < e.rowCount) : e.next? = some (e.row e.next, e.advance) :=
  if_neg (Nat.not_le.2 h)

theorem skip_succ_of_lt {e : Enumeration} (h : e.next < e.rowCount) (n : Nat) :
    e.skip (n + 1) = e.advance.skip n := by
  rw [skip, next?_of_lt h]

theorem skip_of_remaining_eq_zero {e : Enumeration} (h : e.remaining = 0) (n : Nat) : e.skip n = e := by
  cases n with
  | zero => rfl
  | succ n => rw [skip, next?_eq_none_iff.2 h]

theorem remaining_advance (e : Enumeration) : e.advance.remaining = e.remaining - 1 := Nat.sub_succ ..

/-- A place stays where it is or moves on, but never past the end. -/
theorem skip_eq {e : Enumeration} (h : e.next ≤ e.rowCount) (n : Nat) :
    e.skip n = { e with next := e.next + min n e.remaining } := by
  induction n generalizing e with
  | zero => rw [Nat.zero_min]; rfl
  | succ n ih =>
    rcases Nat.lt_or_eq_of_le h with hlt | heq
    · have hle : e.advance.next ≤ e.advance.rowCount := hlt
      have hnext : e.advance.next + min n e.advance.remaining = e.next + min (n + 1) e.remaining := by
        simp only [advance, remaining, rowCount] at hlt ⊢
        omega
      rw [skip_succ_of_lt hlt, ih hle, hnext]
      rfl
    · have hremaining : e.remaining = 0 := by rw [remaining, heq, Nat.sub_self]
      rw [skip_of_remaining_eq_zero hremaining, hremaining, Nat.min_zero]
      rfl

theorem next_skip_le {e : Enumeration} (h : e.next ≤ e.rowCount) (n : Nat) :
    (e.skip n).next ≤ (e.skip n).rowCount := by
  rw [skip_eq h]
  simp only [remaining, rowCount] at h ⊢
  omega

theorem remaining_skip (e : Enumeration) (n : Nat) : (e.skip n).remaining = e.remaining - n := by
  rcases Nat.eq_zero_or_pos e.remaining with hzero | hpos
  · rw [skip_of_remaining_eq_zero hzero, hzero, Nat.zero_sub]
  · rw [skip_eq (Nat.le_of_lt (Nat.lt_of_sub_pos hpos))]
    simp only [remaining, rowCount]
    omega

theorem length_take (e : Enumeration) (n : Nat) : (e.take n).length = min n e.remaining := by
  simp [take]

end Enumeration

end TruthTables
