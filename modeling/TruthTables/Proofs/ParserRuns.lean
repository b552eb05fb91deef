import TruthTables.Formula.Parser

/-! # Two runs of the parser over the same tokens, side by side -/
namespace TruthTables

/-- A relation between outcomes that is kept when both are followed by the same steps. -/
structure Outcome.Respected (R : (α : Type) → Outcome α → Outcome α → Prop) : Prop where
  refl : ∀ {α : Type} (x : Outcome α), R α x x
  bind : ∀ {α β : Type} {x y : Outcome α} {f g : α → Outcome β}, R α x y → (∀ a, R β (f a) (g a)) →
    R β (x.bind f) (y.bind g)

namespace Parser

variable {R : (α : Type) → Outcome α → Outcome α → Prop} {limit limit' : Option Nat}

theorem climb_related (hR : Outcome.Respected R)
    (hnest : ∀ depth pos, R Nat (nest limit depth pos) (nest limit' depth pos))
    {right right' : Nat → List Lexeme → Parse} (hr : ∀ m ls, R _ (right m ls) (right' m ls)) (min rounds : Nat)
    (φ : Formula) (height : Nat) (ls : List Lexeme) :
    R _ (climb limit right min rounds φ height ls) (climb limit' right' min rounds φ height ls) := by
  induction rounds generalizing φ height ls with
  | zero => exact hR.refl _
  | succ rounds ih =>
    rw [climb, climb]
    split
    · exact hR.refl _
    · refine hR.bind (hr _ _) fun right => ?_
      exact hR.bind (hnest _ _) fun height => ih (.binary _ φ right.1) height right.2.2

/-- The second run may make `extra` calls more, if what the first one lacks makes no difference to the relation. -/
theorem parse_related (hR : Outcome.Respected R)
    (hnest : ∀ depth pos, R Nat (nest limit depth pos) (nest limit' depth pos)) {extra : Nat}
    (hextra : extra = 0 ∨ ∀ (α : Type) (y : Outcome α), R α .exhausted y) (fuel : Nat) :
    (∀ min depth ls, R _ (subformula limit fuel min depth ls) (subformula limit' (fuel + extra) min depth ls)) ∧
    (∀ depth ls, R _ (operand limit fuel depth ls) (operand limit' (fuel + extra) depth ls)) ∧
    ∀ pos depth ls, R _ (bracketed limit fuel pos depth ls) (bracketed limit' (fuel + extra) pos depth ls) := by
  induction fuel with
  | zero =>
    rcases hextra with rfl | hextra
    · exact ⟨fun _ _ _ => hR.refl _, fun _ _ => hR.refl _, fun _ _ _ => hR.refl _⟩
    · exact ⟨fun _ _ _ => hextra _ _, fun _ _ => hextra _ _, fun _ _ _ => hextra _ _⟩
  | succ fuel ih =>
    obtain ⟨ihs, iho, ihb⟩ := ih
    rw [Nat.succ_add]
    refine ⟨fun min depth ls => ?_, fun depth ls => ?_, fun pos depth ls => ?_⟩
    · rw [subformula, subformula]
      refine hR.bind (iho depth ls) fun first => ?_
      exact climb_related hR hnest (fun m ls => ihs m depth ls) min _ first.1 first.2.1 first.2.2
    · cases ls with
      | nil => exact hR.refl _
      | cons l ls =>
        obtain ⟨t, pos⟩ := l
        cases t with
        | not =>
          simp only [operand]
          refine hR.bind (hnest depth pos) fun depth => ?_
          exact hR.bind (iho depth ls) fun inner => hR.bind (hnest inner.2.1 pos) fun _ => hR.refl _
        | opening =>
          simp only [operand]
          exact hR.bind (hnest depth pos) fun depth => ihb pos depth ls
        | symbol _ | connective _ | closing | eof => exact hR.refl _
    · rw [bracketed, bracketed]
      exact hR.bind (ihs 0 depth ls) fun _ => hR.refl _

theorem run_related (hR : Outcome.Respected R)
    (hnest : ∀ depth pos, R Nat (nest limit depth pos) (nest limit' depth pos)) {extra : Nat}
    (hextra : extra = 0 ∨ ∀ (α : Type) (y : Outcome α), R α .exhausted y) (fuel : Nat) (ls : List Lexeme) :
    R _ (run limit fuel ls) (run limit' (fuel + extra) ls) := by
  unfold run
  split
  · exact hR.refl _
  · exact hR.refl _
  · exact hR.bind ((parse_related hR hnest hextra fuel).1 0 0 _) fun _ => hR.refl _

end Parser

end TruthTables
