import Mathlib.Data.List.Nodup
import TruthTables.Evaluation

/-! # What a pass registers, whatever the values are -/
namespace TruthTables

/-- An element as it is registered when everything is false. -/
def Element.skeleton (e : Element) : Element := { e with value := false }

namespace Evaluation

/-- The label decides which element is found, so the same one is found among elements with other values. -/
theorem find?_map_skeleton (es : List Element) (label : String) :
    (es.map Element.skeleton).find? (·.label = label) =
      (es.find? (·.label = label)).map Element.skeleton :=
  List.find?_map

theorem register_skeleton {es fs : List Element} (h : es.map Element.skeleton = fs.map Element.skeleton)
    (label : String) (b d : Bool) (kind : ElementKind) :
    (register es label b kind).1.skeleton = (register fs label d kind).1.skeleton ∧
      (register es label b kind).2.map Element.skeleton =
        (register fs label d kind).2.map Element.skeleton := by
  have hlen : es.length = fs.length := by simpa using congrArg List.length h
  have hfind : (es.find? (·.label = label)).map Element.skeleton =
      (fs.find? (·.label = label)).map Element.skeleton := by
    rw [← find?_map_skeleton, ← find?_map_skeleton, h]
  unfold register
  cases he : es.find? (·.label = label) with
  | none =>
    rw [he, Option.map_none, eq_comm, Option.map_eq_none_iff] at hfind
    rw [hfind]
    simp only [List.map_append, h, hlen]
    exact ⟨rfl, rfl⟩
  | some e =>
    rw [he, Option.map_some, eq_comm, Option.map_eq_some_iff] at hfind
    obtain ⟨f, hf, hef⟩ := hfind
    rw [hf]
    exact ⟨hef.symm, h⟩

/-- Two walks over one formula that start alike end alike, since they ask for the same labels. -/
theorem visit_skeleton (ν μ : Valuation) (φ : Formula) {es fs : List Element}
    (h : es.map Element.skeleton = fs.map Element.skeleton) :
    (visit ν φ es).1.skeleton = (visit μ φ fs).1.skeleton ∧
      (visit ν φ es).2.map Element.skeleton = (visit μ φ fs).2.map Element.skeleton := by
  induction φ generalizing es fs with
  | symbol name => exact register_skeleton h name _ _ _
  | not φ ih =>
    simp only [visit, label_visit]
    exact register_skeleton (ih h).2 _ _ _ _
  | binary c φ ψ ihφ ihψ =>
    simp only [visit, label_visit]
    exact register_skeleton (ihψ (ihφ h).2).2 _ _ _ _

theorem nodup_register {es : List Element} (h : (es.map (·.label)).Nodup) (label : String) (b : Bool)
    (kind : ElementKind) : ((register es label b kind).2.map (·.label)).Nodup := by
  unfold register
  cases he : es.find? (·.label = label) with
  | some e => exact h
  | none =>
    have hnew : label ∉ es.map (·.label) := by
      rintro hm
      obtain ⟨e, hmem, hl⟩ := List.mem_map.1 hm
      exact List.find?_eq_none.1 he e hmem (decide_eq_true hl)
    rw [List.map_append, List.map_singleton, ← List.concat_eq_append]
    exact h.concat hnew

theorem nodup_visit (ν : Valuation) (φ : Formula) {es : List Element} (h : (es.map (·.label)).Nodup) :
    ((visit ν φ es).2.map (·.label)).Nodup := by
  induction φ generalizing es with
  | symbol name => exact nodup_register h _ _ _
  | not φ ih => exact nodup_register (ih h) _ _ _
  | binary c φ ψ ihφ ihψ => exact nodup_register (ihψ (ihφ h)) _ _ _

theorem nodup_labels_run (φ : Formula) (ν : Valuation) :
    ((run φ ν).elements.map (·.label)).Nodup :=
  nodup_visit ν φ List.nodup_nil

theorem prefix_register (es : List Element) (label : String) (b : Bool) (kind : ElementKind) :
    es <+: (register es label b kind).2 := by
  unfold register
  split
  · exact List.prefix_refl es
  · exact List.prefix_append es _

theorem prefix_visit (ν : Valuation) (φ : Formula) (es : List Element) : es <+: (visit ν φ es).2 := by
  induction φ generalizing es with
  | symbol name => exact prefix_register _ _ _ _
  | not φ ih => exact (ih es).trans (prefix_register _ _ _ _)
  | binary c φ ψ ihφ ihψ => exact (ihφ es).trans ((ihψ _).trans (prefix_register _ _ _ _))

theorem exists_head_visit (ν : Valuation) (φ : Formula) :
    ∃ e, [e] <+: (visit ν φ []).2 ∧ e.kind = .symbol := by
  induction φ with
  | symbol name => exact ⟨_, List.prefix_refl _, rfl⟩
  | not φ ih =>
    obtain ⟨e, he, hk⟩ := ih
    exact ⟨e, he.trans (prefix_register _ _ _ _), hk⟩
  | binary c φ ψ ihφ _ =>
    obtain ⟨e, he, hk⟩ := ihφ
    exact ⟨e, he.trans ((prefix_visit ν ψ _).trans (prefix_register _ _ _ _)), hk⟩

theorem primitives_run_ne_nil (φ : Formula) (ν : Valuation) : (run φ ν).primitives ≠ [] := by
  obtain ⟨e, he, hk⟩ := exists_head_visit ν φ
  have hmem : e ∈ (run φ ν).primitives := List.mem_filter.2 ⟨he.subset List.mem_cons_self, decide_eq_true hk⟩
  exact List.ne_nil_of_mem hmem

/-- Passes over one formula differ in the values of their elements only. -/
theorem run_skeleton (φ : Formula) (ν μ : Valuation) :
    (run φ ν).root.skeleton = (run φ μ).root.skeleton ∧
      (run φ ν).elements.map Element.skeleton = (run φ μ).elements.map Element.skeleton :=
  visit_skeleton ν μ φ rfl

theorem labels_filter_run (φ : Formula) (ν μ : Valuation) (p : Element → Bool)
    (hp : ∀ e, p e.skeleton = p e) :
    ((run φ ν).elements.filter p).map (·.label) = ((run φ μ).elements.filter p).map (·.label) := by
  have hcomp : p ∘ Element.skeleton = p := funext hp
  have of_skeleton : ∀ es : List Element,
      ((es.map Element.skeleton).filter p).map (·.label) = (es.filter p).map (·.label) := by
    intro es
    rw [List.filter_map, List.map_map, hcomp]
    rfl
  rw [← of_skeleton, (run_skeleton φ ν μ).2, of_skeleton]

theorem labels_primitives_run (φ : Formula) (ν μ : Valuation) :
    (run φ ν).primitives.map (·.label) = (run φ μ).primitives.map (·.label) :=
  labels_filter_run φ ν μ _ fun _ => rfl

theorem labels_derived_run (φ : Formula) (ν μ : Valuation) :
    (run φ ν).derived.map (·.label) = (run φ μ).derived.map (·.label) :=
  labels_filter_run φ ν μ _ fun _ => rfl

end Evaluation

end TruthTables
