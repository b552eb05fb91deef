import TruthTables.Evaluation
import TruthTables.Proofs.FirstOccurrences

/-! # Subformulas and truth -/
namespace TruthTables

/-- Names whose end can be seen in a label, and that cannot be taken for a negation or a bracket. -/
def PlainName (name : String) : Prop :=
  ' ' ∉ name.toList ∧ '(' ∉ name.toList ∧ ')' ∉ name.toList ∧ '¬' ∉ name.toList

instance (name : String) : Decidable (PlainName name) := inferInstanceAs (Decidable (_ ∧ _))

namespace Formula

def Plain (φ : Formula) : Prop := ∀ name ∈ φ.leaves, PlainName name

instance (φ : Formula) : Decidable φ.Plain := inferInstanceAs (Decidable (∀ name ∈ φ.leaves, _))

/-- All subformulas, each after those that it is made of. -/
def postorder : Formula → List Formula
  | symbol name => [symbol name]
  | not φ => φ.postorder ++ [not φ]
  | binary c φ ψ => φ.postorder ++ ψ.postorder ++ [binary c φ ψ]

def parts (φ : Formula) : List Formula := φ.postorder.eraseDups

def kind : Formula → ElementKind
  | symbol _ => .symbol
  | not _ => .compound
  | binary c _ _ => if c = .join then .join else .compound

@[simp] theorem kind_symbol (name : String) : (symbol name).kind = .symbol := rfl

@[simp] theorem kind_not (φ : Formula) : φ.not.kind = .compound := rfl

@[simp] theorem kind_binary (c : Connective) (φ ψ : Formula) :
    (binary c φ ψ).kind = if c = .join then .join else .compound := rfl

/-- The distinct compound subformulas that are no joins, in the order of their first occurrence. -/
def compounds (φ : Formula) : List Formula := φ.parts.filter (·.kind = .compound)

/-- What makes a formula true when every name is true or false. A join is true if both of its sides are. -/
def Holds (v : String → Bool) : Formula → Prop
  | symbol name => v name = true
  | not φ => ¬φ.Holds v
  | binary .and φ ψ | binary .join φ ψ => φ.Holds v ∧ ψ.Holds v
  | binary .or φ ψ => φ.Holds v ∨ ψ.Holds v
  | binary .xor φ ψ => ¬(φ.Holds v ↔ ψ.Holds v)
  | binary .implies φ ψ => φ.Holds v → ψ.Holds v
  | binary .iff φ ψ => φ.Holds v ↔ ψ.Holds v

theorem eval_eq_true_iff {v : String → Bool} {φ : Formula} : φ.eval v = true ↔ φ.Holds v := by
  induction φ with
  | symbol name => rfl
  | not φ ih => rw [Holds, ← ih, eval, Bool.not_eq_true', Bool.not_eq_true]
  | binary c φ ψ ihφ ihψ =>
    rw [eval]
    cases c <;> rw [Holds, ← ihφ, ← ihψ] <;> cases φ.eval v <;> cases ψ.eval v <;> decide

instance (v : String → Bool) (φ : Formula) : Decidable (φ.Holds v) :=
  decidable_of_iff (φ.eval v = true) eval_eq_true_iff

theorem decide_holds (v : String → Bool) (φ : Formula) : decide (φ.Holds v) = φ.eval v := by
  rw [Bool.eq_iff_iff, decide_eq_true_eq, eval_eq_true_iff]

theorem kind_eq_join_iff {φ : Formula} : φ.kind = .join ↔ ∃ ψ χ, φ = binary .join ψ χ := by
  cases φ with
  | symbol name => simp
  | not φ => simp
  | binary c φ ψ => by_cases h : c = .join <;> simp [h]

@[simp] theorem plain_symbol {name : String} : (symbol name).Plain ↔ PlainName name := by
  simp [Plain, leaves]

@[simp] theorem plain_not {φ : Formula} : φ.not.Plain ↔ φ.Plain := Iff.rfl

@[simp] theorem plain_binary {c : Connective} {φ ψ : Formula} :
    (binary c φ ψ).Plain ↔ φ.Plain ∧ ψ.Plain := by
  simp [Plain, leaves, or_imp, forall_and]

theorem postorder_eq_concat (φ : Formula) :
    ∃ l, φ.postorder = l ++ [φ] ∧ ∀ χ ∈ l, χ.height < φ.height := by
  induction φ with
  | symbol name => exact ⟨[], rfl, by simp⟩
  | not φ ih =>
    obtain ⟨l, hl, hh⟩ := ih
    refine ⟨φ.postorder, rfl, fun χ hχ => ?_⟩
    rw [hl, List.mem_append, List.mem_singleton] at hχ
    rcases hχ with hχ | rfl
    · exact Nat.lt_succ_of_lt (hh χ hχ)
    · exact Nat.lt_succ_self _
  | binary c φ ψ ihφ ihψ =>
    obtain ⟨l, hl, hφ⟩ := ihφ
    obtain ⟨k, hk, hψ⟩ := ihψ
    refine ⟨φ.postorder ++ ψ.postorder, rfl, fun χ hχ => ?_⟩
    simp only [hl, hk, List.mem_append, List.mem_singleton] at hχ
    simp only [height]
    rcases hχ with (hχ | rfl) | hχ | rfl
    · have h := hφ χ hχ
      omega
    · omega
    · have h := hψ χ hχ
      omega
    · omega

theorem getLast?_parts (φ : Formula) : φ.parts.getLast? = some φ := by
  obtain ⟨l, hl, hh⟩ := postorder_eq_concat φ
  have h : φ ∉ l := fun h => Nat.lt_irrefl _ (hh φ h)
  rw [parts, hl, eraseDups_concat, if_neg h, List.getLast?_concat]

theorem mem_parts {φ χ : Formula} : χ ∈ φ.parts ↔ χ ∈ φ.postorder := List.mem_eraseDups

theorem self_mem_postorder (φ : Formula) : φ ∈ φ.postorder := mem_parts.1 (List.mem_of_getLast? φ.getLast?_parts)

theorem nodup_parts (φ : Formula) : φ.parts.Nodup := nodup_eraseDups _

theorem leaves_subset_of_mem {φ χ : Formula} (h : χ ∈ φ.postorder) : χ.leaves ⊆ φ.leaves := by
  induction φ with
  | symbol name =>
    rw [List.mem_singleton.1 h]
    exact List.Subset.refl _
  | not φ ih =>
    rcases List.mem_append.1 h with h | h
    · exact ih h
    · rw [List.mem_singleton.1 h]
      exact List.Subset.refl _
  | binary c φ ψ ihφ ihψ =>
    simp only [postorder, List.mem_append, List.mem_singleton] at h
    rcases h with (h | h) | rfl
    · exact List.Subset.trans (ihφ h) (List.subset_append_left _ _)
    · exact List.Subset.trans (ihψ h) (List.subset_append_right _ _)
    · exact List.Subset.refl _

theorem symbols_subset_of_mem {φ χ : Formula} (h : χ ∈ φ.postorder) : χ.symbols ⊆ φ.symbols := fun _ hn =>
  mem_symbols.2 (leaves_subset_of_mem h (mem_symbols.1 hn))

theorem Plain.of_mem {φ χ : Formula} (hφ : φ.Plain) (h : χ ∈ φ.postorder) : χ.Plain :=
  fun name hn => hφ name (leaves_subset_of_mem h hn)

/-- The symbols among the subformulas are the leaves. -/
theorem filter_postorder (φ : Formula) :
    φ.postorder.filter (·.kind = .symbol) = φ.leaves.map symbol := by
  induction φ with
  | symbol name => rfl
  | not φ ih => simp [postorder, leaves, ih]
  | binary c φ ψ ihφ ihψ => by_cases h : c = .join <;> simp [postorder, leaves, ihφ, ihψ, h]

theorem filter_parts (φ : Formula) : φ.parts.filter (·.kind = .symbol) = φ.symbols.map symbol := by
  rw [parts, ← eraseDups_filter, filter_postorder]
  exact eraseDups_map fun _ _ _ _ h => symbol.inj h

end Formula

end TruthTables
