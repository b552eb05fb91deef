import TruthTables.Proofs.Labels

/-! # What one pass registers -/
namespace TruthTables.Evaluation

def elementOf (ν : Valuation) (i : Nat) (φ : Formula) : Element :=
  ⟨φ.label, φ.eval ν.value, φ.kind, i⟩

def elementsOf (ν : Valuation) (φs : List Formula) : List Element := φs.mapIdx (elementOf ν)

theorem length_elementsOf (ν : Valuation) (φs : List Formula) :
    (elementsOf ν φs).length = φs.length := List.length_mapIdx

theorem exists_of_mem_elementsOf {ν : Valuation} {φs : List Formula} {e : Element}
    (h : e ∈ elementsOf ν φs) : ∃ i φ, φs[i]? = some φ ∧ e = elementOf ν i φ := by
  obtain ⟨i, hi, rfl⟩ := List.mem_mapIdx.1 h
  exact ⟨i, φs[i], List.getElem?_eq_getElem hi, rfl⟩

theorem find?_elementsOf_of_mem (ν : Valuation) {φs : List Formula} {φ : Formula}
    (hl : ∀ χ ∈ φs, χ.label = φ.label → χ = φ) (hφ : φ ∈ φs) :
    ∃ i, (elementsOf ν φs).find? (·.label = φ.label) = some (elementOf ν i φ) ∧ φs[i]? = some φ := by
  cases hf : (elementsOf ν φs).find? (·.label = φ.label) with
  | none =>
    obtain ⟨i, hi, he⟩ := List.mem_iff_getElem.1 hφ
    have hm : elementOf ν i φ ∈ elementsOf ν φs := List.mem_mapIdx.2 ⟨i, hi, by rw [he]⟩
    exact absurd (decide_eq_true rfl) (List.find?_eq_none.1 hf _ hm)
  | some e =>
    obtain ⟨i, χ, hi, rfl⟩ := exists_of_mem_elementsOf (List.mem_of_find?_eq_some hf)
    have hχ := List.find?_some hf
    obtain rfl := hl χ (List.mem_of_getElem? hi) (of_decide_eq_true hχ)
    exact ⟨i, rfl, hi⟩

theorem find?_elementsOf_of_not_mem (ν : Valuation) {φs : List Formula} {φ : Formula}
    (hl : ∀ χ ∈ φs, χ.label = φ.label → χ = φ) (hφ : φ ∉ φs) :
    (elementsOf ν φs).find? (·.label = φ.label) = none := by
  rw [List.find?_eq_none]
  intro e he hχ
  obtain ⟨i, χ, hi, rfl⟩ := exists_of_mem_elementsOf he
  have hm := List.mem_of_getElem? hi
  exact hφ (hl χ hm (of_decide_eq_true hχ) ▸ hm)

/-- Registering a formula leads to its own element, and adds it unless it has been seen. -/
theorem register_elementsOf (ν : Valuation) {seen : List Formula} {φ : Formula}
    (hl : ∀ χ ∈ seen, χ.label = φ.label → χ = φ) :
    ∃ i, register (elementsOf ν seen.eraseDups) φ.label (φ.eval ν.value) φ.kind =
        (elementOf ν i φ, elementsOf ν (seen ++ [φ]).eraseDups) ∧
      (seen ++ [φ]).eraseDups[i]? = some φ := by
  have hl' : ∀ χ ∈ seen.eraseDups, χ.label = φ.label → χ = φ := fun χ hχ =>
    hl χ (List.mem_eraseDups.1 hχ)
  rw [register, eraseDups_concat]
  by_cases hφ : φ ∈ seen
  · obtain ⟨i, hf, hi⟩ := find?_elementsOf_of_mem ν hl' (List.mem_eraseDups.2 hφ)
    rw [if_pos hφ, hf]
    exact ⟨i, rfl, hi⟩
  · have hf := find?_elementsOf_of_not_mem ν hl' (fun h => hφ (List.mem_eraseDups.1 h))
    rw [if_neg hφ, hf]
    refine ⟨seen.eraseDups.length, ?_, List.getElem?_concat_length⟩
    simp only [length_elementsOf, Prod.mk.injEq]
    exact ⟨rfl, List.mapIdx_concat.symm⟩

private theorem plain_append {seen : List Formula} {φ : Formula} (hs : ∀ χ ∈ seen, χ.Plain)
    (hφ : φ.Plain) : ∀ χ ∈ seen ++ φ.postorder, χ.Plain := by
  intro χ hχ
  rcases List.mem_append.1 hχ with hχ | hχ
  · exact hs χ hχ
  · exact hφ.of_mem hχ

/-- A walk over a plain formula registers its subformulas after those seen before, and comes back with the
element of the formula. -/
theorem visit_elementsOf (ν : Valuation) {φ : Formula} (hφ : φ.Plain) {seen : List Formula}
    (hs : ∀ χ ∈ seen, χ.Plain) :
    ∃ i, visit ν φ (elementsOf ν seen.eraseDups) =
        (elementOf ν i φ, elementsOf ν (seen ++ φ.postorder).eraseDups) ∧
      (seen ++ φ.postorder).eraseDups[i]? = some φ := by
  -- what is seen stays plain, so that equal labels still mean equal formulas at the next registration
  have unique : ∀ {χ : Formula} {seen : List Formula}, χ.Plain → (∀ ψ ∈ seen, ψ.Plain) →
      ∀ ψ ∈ seen, ψ.label = χ.label → ψ = χ :=
    fun hχ hs ψ hψ h => Formula.label_injective (hs ψ hψ) hχ h
  induction φ generalizing seen with
  | symbol name => exact register_elementsOf ν (unique hφ hs)
  | not φ ih =>
    have hs' := plain_append hs (Formula.plain_not.1 hφ)
    obtain ⟨i, hv, -⟩ := ih hφ hs
    obtain ⟨j, hr, hj⟩ := register_elementsOf ν (unique hφ hs')
    rw [List.append_assoc] at hr hj
    refine ⟨j, ?_, hj⟩
    rw [visit, hv]
    exact hr
  | binary c φ ψ ihφ ihψ =>
    obtain ⟨hpφ, hpψ⟩ := Formula.plain_binary.1 hφ
    have hs₁ := plain_append hs hpφ
    have hs₂ := plain_append hs₁ hpψ
    obtain ⟨i, hv, -⟩ := ihφ hpφ hs
    obtain ⟨k, hw, -⟩ := ihψ hpψ hs₁
    obtain ⟨j, hr, hj⟩ := register_elementsOf ν (unique hφ hs₂)
    simp only [List.append_assoc] at hr hj hw
    refine ⟨j, ?_, by simpa only [Formula.postorder, List.append_assoc] using hj⟩
    rw [visit, hv]
    simp only [Formula.postorder, List.append_assoc, hw]
    exact hr

theorem elements_run {φ : Formula} (hφ : φ.Plain) (ν : Valuation) :
    (run φ ν).elements = elementsOf ν φ.parts := by
  obtain ⟨i, h, -⟩ := visit_elementsOf ν hφ (List.forall_mem_nil Formula.Plain)
  exact congrArg Prod.snd h

theorem map_filter_elementsOf {β : Type} {ν : Valuation} {p : Element → Bool} {g : Element → β}
    {p' : Formula → Bool} {g' : Formula → β} (hp : ∀ i χ, p (elementOf ν i χ) = p' χ)
    (hg : ∀ i χ, g (elementOf ν i χ) = g' χ) (φs : List Formula) :
    ((elementsOf ν φs).filter p).map g = (φs.filter p').map g' := by
  induction φs using List.reverseRecOn with
  | nil => rfl
  | append_singleton φs φ ih =>
    rw [elementsOf, List.mapIdx_concat, List.filter_append, List.filter_append, List.map_append,
      List.map_append]
    refine congrArg₂ _ ih ?_
    rw [List.filter_singleton, List.filter_singleton, hp]
    cases p' φ <;> simp [hg]

section Columns

variable {φ : Formula} (hφ : φ.Plain) (ν : Valuation)

include hφ

theorem labels_primitives : (run φ ν).primitives.map (·.label) = φ.symbols := by
  have h : ((elementsOf ν φ.parts).filter (·.isPrimitive)).map (·.label) =
      (φ.parts.filter (·.kind = .symbol)).map Formula.label :=
    map_filter_elementsOf (fun _ _ => rfl) (fun _ _ => rfl) _
  rw [primitives, elements_run hφ, h, Formula.filter_parts, List.map_map]
  exact List.map_id _

theorem values_primitives : (run φ ν).primitives.map (·.value) = φ.symbols.map ν.value := by
  have h : ((elementsOf ν φ.parts).filter (·.isPrimitive)).map (·.value) =
      (φ.parts.filter (·.kind = .symbol)).map (·.eval ν.value) :=
    map_filter_elementsOf (fun _ _ => rfl) (fun _ _ => rfl) _
  rw [primitives, elements_run hφ, h, Formula.filter_parts]
  simp [Formula.eval]

theorem labels_derived : (run φ ν).derived.map (·.label) = φ.compounds.map Formula.label := by
  rw [derived, elements_run hφ]
  exact map_filter_elementsOf (fun _ _ => rfl) (fun _ _ => rfl) _

theorem values_derived :
    (run φ ν).derived.map (·.value) = φ.compounds.map fun χ => decide (χ.Holds ν.value) := by
  rw [derived, elements_run hφ]
  exact map_filter_elementsOf (fun _ _ => rfl) (fun _ _ => (Formula.decide_holds _ _).symm) _

end Columns

end TruthTables.Evaluation
