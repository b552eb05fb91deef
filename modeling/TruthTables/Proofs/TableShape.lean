import TruthTables.Proofs.PassSkeleton
import TruthTables.Proofs.RowQuestions
import TruthTables.Proofs.TruthTableOfFormula

/-! # The shape of a table -/
namespace TruthTables

open Evaluation

namespace Enumeration

theorem names_ofFormula (φ : Formula) (ν : Valuation) :
    (ofFormula φ).vars.names = (run φ ν).primitives.map (·.label) := by
  have hn : ((run φ .empty).primitives.map (·.label)).Nodup :=
    (nodup_labels_run φ .empty).sublist (List.filter_sublist.map _)
  rw [labels_primitives_run φ ν .empty]
  exact congrArg Variables.names (Variables.ofList_of_nodup hn)

theorem derivedLabels_ofFormula (φ : Formula) (ν : Valuation) :
    (ofFormula φ).derivedLabels = (run φ ν).derived.map (·.label) :=
  labels_derived_run φ .empty ν

/-- Variables and derived labels are told apart by their elements' kinds, and no label is registered twice. -/
theorem nodup_labels_ofFormula (φ : Formula) :
    ((ofFormula φ).vars.names ++ (ofFormula φ).derivedLabels).Nodup := by
  have hn := nodup_labels_run φ .empty
  rw [names_ofFormula φ .empty, derivedLabels_ofFormula φ .empty, List.nodup_append]
  refine ⟨hn.sublist (List.filter_sublist.map _), hn.sublist (List.filter_sublist.map _), ?_⟩
  rintro l hp l' hd rfl
  obtain ⟨e, he, rfl⟩ := List.mem_map.1 hp
  obtain ⟨f, hf, hl⟩ := List.mem_map.1 hd
  obtain ⟨hme, hke⟩ := List.mem_filter.1 he
  obtain ⟨hmf, hkf⟩ := List.mem_filter.1 hf
  obtain rfl := List.inj_on_of_nodup_map hn hmf hme hl
  have hp : f.kind = .symbol := of_decide_eq_true hke
  have hd : f.kind = .compound := of_decide_eq_true hkf
  exact absurd (hp.symm.trans hd) (by decide)

theorem length_row (φ : Formula) (i : Nat) :
    ((ofFormula φ).row i).primitives.length = (ofFormula φ).vars.names.length ∧
      ((ofFormula φ).row i).derived.length = (ofFormula φ).derivedLabels.length := by
  rw [names_ofFormula φ ((ofFormula φ).vars.valuation i),
    derivedLabels_ofFormula φ ((ofFormula φ).vars.valuation i)]
  simp only [row, List.length_map]
  exact ⟨rfl, rfl⟩

end Enumeration

theorem getElem?_between {α : Type} {p : α → Prop} {l k : List α} {a : α} (ha : p a)
    (hl : ∀ b ∈ l, ¬p b) (hk : ∀ b ∈ k, ¬p b) (j : Nat) :
    (∃ b, (l ++ a :: k)[j]? = some b ∧ p b) ↔ j = l.length := by
  constructor
  · rintro ⟨b, hb, hp⟩
    rcases Nat.lt_trichotomy j l.length with hj | hj | hj
    · rw [List.getElem?_append_left hj] at hb
      exact absurd hp (hl b (List.mem_of_getElem? hb))
    · exact hj
    · obtain ⟨i, hi⟩ := Nat.exists_eq_add_of_lt hj
      have hi' : j - l.length = i + 1 := by omega
      rw [List.getElem?_append_right (Nat.le_of_lt hj), hi', List.getElem?_cons_succ] at hb
      exact absurd hp (hk b (List.mem_of_getElem? hb))
  · rintro rfl
    exact ⟨a, by simp, ha⟩

namespace Row

theorem length_ofValues (v : RowValues) :
    (ofValues v).length = v.primitives.length + v.derived.length + 1 := by
  simp only [ofValues, List.length_append, List.length_map, List.length_cons]
  omega

theorem blank_ofValues (v : RowValues) (j : Nat) :
    (ofValues v)[j]? = some .blank ↔ j = v.primitives.length := by
  have hvalue : ∀ bs : List Bool, ∀ c ∈ bs.map Cell.value, c ≠ .blank := by
    intro bs c hc
    obtain ⟨b, -, rfl⟩ := List.mem_map.1 hc
    simp
  have h := getElem?_between (p := (· = Cell.blank)) rfl (hvalue v.primitives) (hvalue v.derived) j
  rw [List.length_map] at h
  rw [ofValues, ← h]
  simp

end Row

namespace Table

section Header

variable (e : Enumeration) (separator : String)

theorem labels_header_primitive :
    ((header e separator).filter (·.kind = .primitive)).map (·.label) = e.vars.names := by
  simp [header, List.filter_append, List.filter_map, Function.comp_def]

theorem labels_header_derived :
    ((header e separator).filter (·.kind = .derived)).map (·.label) = e.derivedLabels := by
  simp [header, List.filter_append, List.filter_map, Function.comp_def]

theorem labels_header_values :
    ((header e separator).filter (!·.isSeparator)).map (·.label) = e.vars.names ++ e.derivedLabels := by
  simp [header, List.filter_append, List.filter_map, Function.comp_def, Column.isSeparator]

theorem length_header :
    (header e separator).length = e.vars.names.length + e.derivedLabels.length + 1 := by
  simp only [header, List.length_append, List.length_map, List.length_cons]
  omega

theorem separator_header (j : Nat) :
    (∃ c, (header e separator)[j]? = some c ∧ c.isSeparator = true) ↔ j = e.vars.names.length := by
  rw [header, getElem?_between (p := fun c : Column => c.isSeparator = true) rfl ?_ ?_, List.length_map]
  all_goals
    intro c hc
    obtain ⟨l, -, rfl⟩ := List.mem_map.1 hc
    simp [Column.isSeparator]

end Header

theorem primitiveCount_ofFormula (φ : Formula) (separator : String) :
    (ofFormula φ separator).primitiveCount = (Enumeration.ofFormula φ).vars.names.length := by
  rw [primitiveCount, List.countP_eq_length_filter]
  exact (List.length_map _).symm.trans (congrArg List.length (labels_header_primitive _ separator))

theorem derivedCount_ofFormula (φ : Formula) (separator : String) :
    (ofFormula φ separator).derivedCount = (Enumeration.ofFormula φ).derivedLabels.length := by
  rw [derivedCount, List.countP_eq_length_filter]
  exact (List.length_map _).symm.trans (congrArg List.length (labels_header_derived _ separator))

theorem getElem?_rows_ofFormula {φ : Formula} {separator : String} {i : Nat} {r : Row}
    (h : (ofFormula φ separator).rows[i]? = some r) :
    r = Row.ofValues ((Enumeration.ofFormula φ).row i) := by
  rw [rows_ofFormula, List.getElem?_map, Option.map_eq_some_iff] at h
  obtain ⟨k, hk, rfl⟩ := h
  rw [List.getElem?_range (by simpa using (List.getElem?_eq_some_iff.1 hk).1)] at hk
  rw [Option.some.inj hk]

/-- A table is only built until its last row, and then it is the table of the formula. -/
theorem eq_ofFormula_of_buildUntil {σ : Type} {φ : Formula} {separator : String}
    {proceed : Nat → StateM σ Bool} {s s' : σ} {t : Table}
    (h : (buildUntil φ separator proceed).run s = (some t, s')) : t = ofFormula φ separator := by
  rcases agrees_or_declines proceed s (Enumeration.ofFormula φ).rowCount with hall | ⟨k, hk, hdeclined, hbefore⟩
  · rw [buildUntil_of_agrees separator hall] at h
    exact (Option.some.inj (Prod.mk.inj h).1).symm
  · rw [buildUntil_of_declines separator hk hdeclined hbefore] at h
    exact absurd (Prod.mk.inj h).1 (by simp)

/-- The cells of the rows stand under the columns that they belong to, and every row comes from a pass that
registers the labels of the header in their order. -/
structure LinesUp (t : Table) (φ : Formula) : Prop where
  counts : t.primitiveCount + t.derivedCount + 1 = t.columns.length
  separator : ∀ j, (∃ c, t.columns[j]? = some c ∧ c.isSeparator = true) ↔ j = t.primitiveCount
  labels_distinct : (t.valueColumns.map (·.label)).Nodup
  row_count : t.rows.length = min (2 ^ t.primitiveCount) (2 ^ 128 - 1)
  width : ∀ r ∈ t.rows, r.length = t.columns.length
  blank : ∀ r ∈ t.rows, ∀ j, r[j]? = some .blank ↔ j = t.primitiveCount
  pass : ∀ i r, t.rows[i]? = some r → ∃ ev,
    ev = run φ ((Enumeration.ofFormula φ).vars.valuation i) ∧
      ev.primitives.map (·.label) = (t.columns.filter (·.kind = .primitive)).map (·.label) ∧
      ev.derived.map (·.label) = (t.columns.filter (·.kind = .derived)).map (·.label) ∧
      r = (ev.primitives.map (·.value)).map .value ++ .blank :: (ev.derived.map (·.value)).map .value

/-- The shape of a table follows from the formula alone, for names of any text and any number of them. -/
theorem ofFormula_linesUp (φ : Formula) (separator : String) : (ofFormula φ separator).LinesUp φ := by
  have hp := primitiveCount_ofFormula φ separator
  have hd := derivedCount_ofFormula φ separator
  have hlen : (ofFormula φ separator).columns.length =
      (Enumeration.ofFormula φ).vars.names.length + (Enumeration.ofFormula φ).derivedLabels.length + 1 :=
    length_header _ separator
  have row_of_mem : ∀ r ∈ (ofFormula φ separator).rows,
      ∃ i, r = Row.ofValues ((Enumeration.ofFormula φ).row i) := fun r hr => by
    obtain ⟨i, hi⟩ := List.mem_iff_getElem?.1 hr
    exact ⟨i, getElem?_rows_ofFormula hi⟩
  refine {
    counts := by rw [hp, hd, hlen]
    separator := fun j => hp ▸ separator_header _ separator j
    labels_distinct := ?labels_distinct
    row_count := ?row_count
    width := ?width
    blank := ?blank
    pass := ?pass }
  case labels_distinct =>
    exact (labels_header_values _ separator) ▸ Enumeration.nodup_labels_ofFormula φ
  case row_count =>
    rw [rows_ofFormula, List.length_map, List.length_range, hp, Enumeration.rowCount,
      Variables.rowCount, Nat.one_shiftLeft, Nat.one_shiftLeft, Variables.size]
  case width =>
    intro r hr
    obtain ⟨i, rfl⟩ := row_of_mem r hr
    obtain ⟨hprimitives, hderived⟩ := Enumeration.length_row φ i
    rw [Row.length_ofValues, hprimitives, hderived, hlen]
  case blank =>
    intro r hr j
    obtain ⟨i, rfl⟩ := row_of_mem r hr
    rw [Row.blank_ofValues, (Enumeration.length_row φ i).1, hp]
  case pass =>
    intro i r hr
    refine ⟨_, rfl, ?_, ?_, getElem?_rows_ofFormula hr⟩
    · rw [← Enumeration.names_ofFormula]
      exact (labels_header_primitive _ separator).symm
    · rw [← Enumeration.derivedLabels_ofFormula]
      exact (labels_header_derived _ separator).symm

/-- Every table that is built lines up with its header, whether or not there was a way to stop it. -/
theorem built_linesUp (φ : Formula) (separator : String) :
    (ofFormula φ separator).LinesUp φ ∧
      ∀ (σ : Type) (proceed : Nat → StateM σ Bool) (s s' : σ) (t : Table),
        (buildUntil φ separator proceed).run s = (some t, s') → t.LinesUp φ := by
  refine ⟨ofFormula_linesUp φ separator, fun σ proceed s s' t h => ?_⟩
  rw [eq_ofFormula_of_buildUntil h]
  exact ofFormula_linesUp φ separator

/-- A name that is the label of a compound subformula takes its column, and the rows still fit. -/
theorem built_linesUp_collision :
    let φ : Formula := .binary .or (.symbol "(a ∧ b)") (.binary .and (.symbol "a") (.symbol "b"))
    let counting : Nat → StateM Nat Bool := fun _ => modifyGet fun n => (true, n + 1)
    (buildUntil φ "a" counting).run 0 = (some (ofFormula φ "a"), 8) ∧ (ofFormula φ "a").LinesUp φ ∧
      (ofFormula φ "a").columns.map (·.label) = ["(a ∧ b)", "a", "b", "a", "((a ∧ b) ∨ (a ∧ b))"] := by
  intro φ counting
  have hcount : (Enumeration.ofFormula φ).rowCount = 8 := by decide
  have h : (buildUntil φ "a" counting).run 0 = (some (ofFormula φ "a"), askedIn counting 0 8) :=
    hcount ▸ buildUntil_of_agrees "a" fun _ _ => rfl
  exact ⟨h, (built_linesUp φ "a").2 Nat counting 0 8 _ h, by decide⟩

end Table

end TruthTables
