import Std.Data.HashMap.Lemmas
import TruthTables.Proofs.PassSkeleton

/-! # The table of a pass and its index -/
namespace TruthTables

/-- The elements of a pass, and the place of the one with each label. -/
structure Memo where
  elements : List Element
  index : Std.HashMap String Nat

namespace Memo

def empty : Memo := ⟨[], ∅⟩

/-- The place of the element with the given label, which is a new one unless the index has the label. -/
def register (m : Memo) (label : String) (value : Bool) (kind : ElementKind) : Nat × Memo :=
  match m.index[label]? with
  | some place => (place, m)
  | none =>
    let place := m.elements.length
    (place, ⟨m.elements ++ [⟨label, value, kind, place⟩], m.index.insert label place⟩)

/-- A walk from place to place. Operands are looked up once both have been visited, and there is no answer if a
place is outside of the table. -/
def visit (ν : Valuation) : Formula → Memo → Option (Nat × Memo)
  | .symbol name, m => some (m.register name (ν.value name) .symbol)
  | .not φ, m => do
    let (i, m) ← visit ν φ m
    let p ← m.elements[i]?
    some (m.register ("¬" ++ p.label) (!p.value) .compound)
  | .binary c φ ψ, m => do
    let (i, m) ← visit ν φ m
    let (j, m) ← visit ν ψ m
    let p ← m.elements[i]?
    let q ← m.elements[j]?
    some (m.register ("(" ++ p.label ++ " " ++ c.glyph ++ " " ++ q.label ++ ")") (c.apply p.value q.value)
      (if c = .join then .join else .compound))

def get? (m : Memo) (label : String) : Option Element := m.index[label]?.bind (m.elements[·]?)

/-- The index leads to the elements with its labels and to all of them, and every element knows its place. -/
structure Keyed (m : Memo) : Prop where
  index_eq_some_iff : ∀ label i, m.index[label]? = some i ↔ ∃ e : Element, m.elements[i]? = some e ∧ e.label = label
  order : ∀ i (e : Element), m.elements[i]? = some e → e.order = i

theorem keyed_empty : empty.Keyed where
  index_eq_some_iff label i := by simp [empty]
  order i e h := by simp [empty] at h

theorem getElem?_concat_eq_some_iff {α : Type} {l : List α} {a b : α} {i : Nat} :
    (l ++ [a])[i]? = some b ↔ l[i]? = some b ∨ i = l.length ∧ b = a := by
  grind

section Keyed

variable {m : Memo} (hm : m.Keyed)

include hm

theorem Keyed.get?_eq_some_iff {label : String} {e : Element} :
    m.get? label = some e ↔ e ∈ m.elements ∧ e.label = label := by
  constructor
  · intro h
    obtain ⟨i, hplace, he⟩ := Option.bind_eq_some_iff.1 h
    obtain ⟨f, hf, hlabel⟩ := (hm.index_eq_some_iff label i).1 hplace
    obtain rfl : f = e := Option.some.inj (hf.symm.trans he)
    exact ⟨List.mem_of_getElem? he, hlabel⟩
  · rintro ⟨he, hlabel⟩
    obtain ⟨i, hi⟩ := List.mem_iff_getElem?.1 he
    rw [get?, (hm.index_eq_some_iff label i).2 ⟨e, hi, hlabel⟩, Option.bind_some, hi]

theorem Keyed.get?_eq_find? (label : String) : m.get? label = m.elements.find? (·.label = label) := by
  cases hfind : m.elements.find? (·.label = label) with
  | some e =>
    have hlabel := List.find?_some hfind
    exact hm.get?_eq_some_iff.2 ⟨List.mem_of_find?_eq_some hfind, of_decide_eq_true hlabel⟩
  | none =>
    rw [Option.eq_none_iff_forall_ne_some]
    intro e he
    obtain ⟨hmem, hlabel⟩ := hm.get?_eq_some_iff.1 he
    exact List.find?_eq_none.1 hfind e hmem (decide_eq_true hlabel)

theorem Keyed.ne_of_index_eq_none {label : String} (hnew : m.index[label]? = none) {e : Element}
    (he : e ∈ m.elements) : e.label ≠ label := by
  intro hlabel
  have hget := hm.get?_eq_some_iff.2 ⟨he, hlabel⟩
  rw [get?, hnew] at hget
  exact nomatch hget

theorem Keyed.push {label : String} (hnew : m.index[label]? = none) (value : Bool) (kind : ElementKind) :
    Keyed ⟨m.elements ++ [⟨label, value, kind, m.elements.length⟩], m.index.insert label m.elements.length⟩ where
  index_eq_some_iff other i := by
    simp only [Std.HashMap.getElem?_insert, beq_iff_eq, getElem?_concat_eq_some_iff]
    -- no old element bears the new label, and the new one bears no other
    by_cases hother : label = other
    · subst hother
      rw [if_pos rfl, Option.some.injEq]
      constructor
      · rintro rfl
        exact ⟨_, .inr ⟨rfl, rfl⟩, rfl⟩
      · rintro ⟨e, he | ⟨rfl, -⟩, hlabel⟩
        · exact absurd hlabel (hm.ne_of_index_eq_none hnew (List.mem_of_getElem? he))
        · rfl
    · rw [if_neg hother, hm.index_eq_some_iff]
      constructor
      · rintro ⟨e, he, hlabel⟩
        exact ⟨e, .inl he, hlabel⟩
      · rintro ⟨e, he | ⟨-, rfl⟩, hlabel⟩
        · exact ⟨e, he, hlabel⟩
        · exact absurd hlabel hother
  order i e he := by
    rcases getElem?_concat_eq_some_iff.1 he with he | ⟨rfl, rfl⟩
    · exact hm.order i e he
    · rfl

end Keyed

structure Follows (r : Nat × Memo) (s : Element × List Element) : Prop where
  elements : r.2.elements = s.2
  place : r.2.elements[r.1]? = some s.1
  keyed : r.2.Keyed

theorem register_follows {m : Memo} (hm : m.Keyed) (label : String) (value : Bool) (kind : ElementKind) :
    Follows (m.register label value kind) (Evaluation.register m.elements label value kind) := by
  have hfind := hm.get?_eq_find? label
  unfold register Evaluation.register
  rw [← hfind]
  cases hplace : m.index[label]? with
  | some i =>
    obtain ⟨e, he, -⟩ := (hm.index_eq_some_iff label i).1 hplace
    have hget : m.get? label = some e := by rw [get?, hplace, Option.bind_some, he]
    rw [hget]
    exact ⟨rfl, he, hm⟩
  | none =>
    have hget : m.get? label = none := by rw [get?, hplace, Option.bind_none]
    rw [hget]
    exact ⟨rfl, List.getElem?_concat_length, hm.push hplace value kind⟩

theorem visit_not {ν : Valuation} {φ : Formula} {m m₁ : Memo} {i : Nat} {p : Element}
    (hv : visit ν φ m = some (i, m₁)) (hp : m₁.elements[i]? = some p) :
    visit ν φ.not m = some (m₁.register ("¬" ++ p.label) (!p.value) .compound) := by
  simp [visit, hv, hp]

theorem visit_binary {ν : Valuation} {c : Connective} {φ ψ : Formula} {m m₁ m₂ : Memo} {i j : Nat} {p q : Element}
    (hv : visit ν φ m = some (i, m₁)) (hw : visit ν ψ m₁ = some (j, m₂)) (hp : m₂.elements[i]? = some p)
    (hq : m₂.elements[j]? = some q) :
    visit ν (.binary c φ ψ) m = some (m₂.register ("(" ++ p.label ++ " " ++ c.glyph ++ " " ++ q.label ++ ")")
      (c.apply p.value q.value) (if c = .join then .join else .compound)) := by
  simp [visit, hv, hw, hp, hq]

theorem visit_follows (ν : Valuation) (φ : Formula) {m : Memo} (hm : m.Keyed) :
    ∃ r, visit ν φ m = some r ∧ Follows r (Evaluation.visit ν φ m.elements) := by
  induction φ generalizing m with
  | symbol name => exact ⟨_, rfl, register_follows hm _ _ _⟩
  | not φ ih =>
    obtain ⟨⟨i, m₁⟩, hv, hφ⟩ := ih hm
    refine ⟨_, visit_not hv hφ.place, ?_⟩
    simp only [Evaluation.visit, ← hφ.elements]
    exact register_follows hφ.keyed _ _ _
  | binary c φ ψ ihφ ihψ =>
    obtain ⟨⟨i, m₁⟩, hv, hφ⟩ := ihφ hm
    obtain ⟨⟨j, m₂⟩, hw, hψ⟩ := ihψ hφ.keyed
    -- the right operand only adds to the table, so that the place of the left one is still good
    have hp : m₂.elements[i]? = some (Evaluation.visit ν φ m.elements).1 := by
      obtain ⟨added, hadded⟩ := Evaluation.prefix_visit ν ψ m₁.elements
      rw [hψ.elements, ← hadded, List.getElem?_append_left (List.getElem?_eq_some_iff.1 hφ.place).1]
      exact hφ.place
    refine ⟨_, visit_binary hv hw hp hψ.place, ?_⟩
    simp only [Evaluation.visit, ← hφ.elements, ← hψ.elements]
    exact register_follows hψ.keyed _ _ _

end Memo

namespace Evaluation

theorem mem_register {es : List Element} {label : String} {b : Bool} {kind : ElementKind} {e : Element}
    (h : e ∈ (register es label b kind).2) : e ∈ es ∨ e = ⟨label, b, kind, es.length⟩ := by
  unfold register at h
  split at h
  · exact .inl h
  · rcases List.mem_append.1 h with h | h
    · exact .inl h
    · exact .inr (List.mem_singleton.1 h)

/-- The elements of names are made for names that occur, with the values that these have. -/
theorem symbol_of_mem_visit {ν : Valuation} {φ : Formula} {es : List Element} {e : Element}
    (h : e ∈ (visit ν φ es).2) (hk : e.kind = .symbol) :
    e ∈ es ∨ e.label ∈ φ.leaves ∧ e.value = ν.value e.label := by
  induction φ generalizing es with
  | symbol name =>
    rcases mem_register h with h | rfl
    · exact .inl h
    · exact .inr ⟨List.mem_singleton_self name, rfl⟩
  | not φ ih =>
    rcases mem_register h with h | rfl
    · exact ih h
    · exact nomatch hk
  | binary c φ ψ ihφ ihψ =>
    rcases mem_register h with h | rfl
    · rcases ihψ h with h | ⟨hmem, hvalue⟩
      · rcases ihφ h with h | ⟨hmem, hvalue⟩
        · exact .inl h
        · exact .inr ⟨List.mem_append_left _ hmem, hvalue⟩
      · exact .inr ⟨List.mem_append_right _ hmem, hvalue⟩
    · by_cases hc : c = .join <;> simp [hc] at hk

theorem symbol_of_mem_primitives {φ : Formula} {ν : Valuation} {e : Element} (h : e ∈ (run φ ν).primitives) :
    e.label ∈ φ.symbols ∧ e.value = ν.value e.label := by
  obtain ⟨hmem, hk⟩ := List.mem_filter.1 h
  rcases symbol_of_mem_visit hmem (of_decide_eq_true hk) with h | ⟨hleaf, hvalue⟩
  · exact absurd h List.not_mem_nil
  · exact ⟨Formula.mem_symbols.2 hleaf, hvalue⟩

/-- Walks do not differ if the valuations agree on the names that get an element. A name whose label is taken is
never asked for its value. -/
theorem visit_congr {ν μ : Valuation} {φ : Formula} {es : List Element}
    (h : ∀ e ∈ (visit ν φ es).2, e.kind = .symbol → ν.value e.label = μ.value e.label) :
    visit ν φ es = visit μ φ es := by
  induction φ generalizing es with
  | symbol name =>
    simp only [visit, register] at h ⊢
    cases hfind : es.find? (·.label = name) with
    | some e => rfl
    | none =>
      rw [hfind] at h
      have hvalue : ν.value name = μ.value name := h _ (List.mem_append_right _ List.mem_cons_self) rfl
      rw [hvalue]
  | not φ ih =>
    -- what a part of the walk registers is still there at its end, where the valuations are known to agree
    have heq : visit ν φ es = visit μ φ es := ih fun e he => h e ((prefix_register _ _ _ _).subset he)
    simp only [visit, heq]
  | binary c φ ψ ihφ ihψ =>
    have hlater : ∀ e ∈ (visit ν ψ (visit ν φ es).2).2, e.kind = .symbol → ν.value e.label = μ.value e.label :=
      fun e he => h e ((prefix_register _ _ _ _).subset he)
    have hφ : visit ν φ es = visit μ φ es := ihφ fun e he => hlater e ((prefix_visit ν ψ _).subset he)
    have hψ := ihψ hlater
    simp only [visit, hψ]
    simp only [hφ]

/-- A pass depends on the values of the names that have an element in it, and on nothing else. -/
theorem run_eq_iff (φ : Formula) (ν μ : Valuation) :
    run φ ν = run φ μ ↔ ∀ e ∈ (run φ ν).primitives, ν.value e.label = μ.value e.label := by
  constructor
  · intro h e he
    have he' := he
    rw [h] at he'
    exact (symbol_of_mem_primitives he).2.symm.trans (symbol_of_mem_primitives he').2
  · intro h
    have hvisit : visit ν φ [] = visit μ φ [] :=
      visit_congr fun e he hk => h e (List.mem_filter.2 ⟨he, decide_eq_true hk⟩)
    simp only [run, hvisit]

/-- A table with labels for keys, in which every element stands at the place that it bears and the one of the whole
formula is found by the formula's label. -/
structure IsTableOf (ev : Evaluation) (φ : Formula) : Prop where
  labels_distinct : (ev.elements.map (·.label)).Nodup
  order : ∀ i (e : Element), ev.elements[i]? = some e → e.order = i
  found : ∀ label e, ev.get? label = some e ↔ e ∈ ev.elements ∧ e.label = label
  missing : ∀ label, ev.get? label = none ↔ ∀ e ∈ ev.elements, e.label ≠ label
  root_in_range : ev.elements[ev.root.order]? = some ev.root
  root_label : ev.root.label = φ.label

structure AgreesButForValues (ev other : Evaluation) : Prop where
  root : ev.root.skeleton = other.root.skeleton
  elements : ev.elements.map Element.skeleton = other.elements.map Element.skeleton
  found : ∀ label, (ev.get? label).map Element.skeleton = (other.get? label).map Element.skeleton

/-- The walk from place to place reaches the evaluation, with an index that is true to its elements. -/
theorem exists_memo (φ : Formula) (ν : Valuation) :
    ∃ m, Memo.visit ν φ .empty = some ((run φ ν).root.order, m) ∧ m.Keyed ∧ m.elements = (run φ ν).elements ∧
      m.elements[(run φ ν).root.order]? = some (run φ ν).root ∧ ∀ label, m.get? label = (run φ ν).get? label := by
  obtain ⟨⟨i, m⟩, hv, hm⟩ := Memo.visit_follows ν φ Memo.keyed_empty
  have hplace : m.elements[i]? = some (run φ ν).root := hm.place
  have hroot : (run φ ν).root.order = i := hm.keyed.order i _ hplace
  have helements : m.elements = (run φ ν).elements := hm.elements
  refine ⟨m, ?_, hm.keyed, helements, ?_, fun label => ?_⟩
  · rw [hroot]
    exact hv
  · rw [hroot]
    exact hplace
  · rw [hm.keyed.get?_eq_find?, helements]
    rfl

theorem run_isTableOf (φ : Formula) (ν : Valuation) : (run φ ν).IsTableOf φ := by
  obtain ⟨m, -, hm, helements, hroot, hget⟩ := exists_memo φ ν
  rw [helements] at hroot
  refine {
    labels_distinct := nodup_labels_run φ ν
    order := fun i e he => hm.order i e (helements ▸ he)
    found := fun label e => ?found
    missing := fun label => ?missing
    root_in_range := hroot
    root_label := label_root φ ν }
  case found => rw [← hget, ← helements, hm.get?_eq_some_iff]
  case missing => simp [get?, List.find?_eq_none]

theorem run_agreesButForValues (φ : Formula) (ν μ : Valuation) :
    (run φ ν).AgreesButForValues (run φ μ) where
  root := (run_skeleton φ ν μ).1
  elements := (run_skeleton φ ν μ).2
  found label := by
    rw [get?, get?, ← find?_map_skeleton, ← find?_map_skeleton, (run_skeleton φ ν μ).2]

/-- Whatever the names are, a pass makes a table with labels for keys, which an index of places leads through. The
values come into it by the names only: they decide no label, kind, order or root, and a pass is the same under
valuations that agree on the names that occur. -/
theorem run_memo (φ : Formula) (ν : Valuation) :
    (run φ ν).IsTableOf φ ∧
    (∃ m, Memo.visit ν φ .empty = some ((run φ ν).root.order, m) ∧ m.Keyed ∧
      m.elements = (run φ ν).elements ∧ ∀ label, m.get? label = (run φ ν).get? label) ∧
    (∀ μ, (run φ ν).AgreesButForValues (run φ μ)) ∧
    (∀ μ, run φ ν = run φ μ ↔ ∀ e ∈ (run φ ν).primitives, ν.value e.label = μ.value e.label) ∧
    ∀ μ, (∀ name ∈ φ.symbols, ν.value name = μ.value name) → run φ ν = run φ μ := by
  obtain ⟨m, hv, hm, helements, -, hget⟩ := exists_memo φ ν
  refine ⟨run_isTableOf φ ν, ⟨m, hv, hm, helements, hget⟩, run_agreesButForValues φ ν, run_eq_iff φ ν,
    fun μ h => ?_⟩
  exact (run_eq_iff φ ν μ).2 fun e he => h e.label (symbol_of_mem_primitives he).1

/-- A name that reads like the negation of another one takes the place of the negation if it comes first, and is not
asked for its value if it comes second. -/
theorem run_memo_collision :
    let first : Formula := .binary .and (.symbol "¬a") (.not (.symbol "a"))
    let second : Formula := .binary .and (.not (.symbol "a")) (.symbol "¬a")
    let ν := Valuation.ofList [("a", true), ("¬a", true)]
    let μ := Valuation.ofList [("a", true), ("b", true), ("¬a", true)]
    (∀ name ∈ first.symbols, ν.value name = μ.value name) ∧ run first ν = run first μ ∧
      (run first ν).IsTableOf first ∧ (run first ν).elements.length = 3 ∧
      (run first ν).get? "¬a" = some ⟨"¬a", true, .symbol, 0⟩ ∧
      run second ν = run second (.ofList [("a", true)]) ∧
      (run second ν).get? "¬a" = some ⟨"¬a", false, .compound, 1⟩ := by
  intro first second ν μ
  obtain ⟨htable, -, -, -, hnames⟩ := run_memo first ν
  have hagree : ∀ name ∈ first.symbols, ν.value name = μ.value name := by decide
  refine ⟨hagree, hnames μ hagree, htable, by decide, by decide, ?_, by decide⟩
  exact ((run_memo second ν).2.2.2.1 (.ofList [("a", true)])).2 (by decide)

end Evaluation

end TruthTables
