import TruthTables.Proofs.TableShape

/-! # Columns that are looked up by their labels -/
namespace TruthTables

open Evaluation

namespace Evaluation

/-- The displayed elements of a pass, with a gap between the variables and the rest. -/
def displayed (ev : Evaluation) : List (Option Element) :=
  ev.primitives.map some ++ none :: ev.derived.map some

theorem some_mem_displayed {ev : Evaluation} {e : Element} :
    some e ∈ ev.displayed ↔ e ∈ ev.elements ∧ e.isDisplayed = true := by
  simp [displayed, primitives, derived, and_or_left, Element.isDisplayed_iff]

theorem label_of_get? {ev : Evaluation} {label : String} {e : Element} (h : ev.get? label = some e) :
    e.label = label := by
  have hfound := List.find?_some h
  exact of_decide_eq_true hfound

theorem get?_label {φ : Formula} {ν : Valuation} {e : Element} (he : e ∈ (run φ ν).elements) :
    (run φ ν).get? e.label = some e := by
  cases hf : (run φ ν).get? e.label with
  | none => exact absurd (decide_eq_true rfl) (List.find?_eq_none.1 hf e he)
  | some f =>
    have hmem := List.mem_of_find?_eq_some hf
    rw [List.inj_on_of_nodup_map (nodup_labels_run φ ν) hmem he (label_of_get? hf)]

end Evaluation

def Column.valueLabel? (c : Column) : Option String := if c.isSeparator then none else some c.label

theorem Column.valueLabel?_eq_some_iff {c : Column} {label : String} :
    c.valueLabel? = some label ↔ c.isSeparator = false ∧ c.label = label := by
  unfold valueLabel?
  split <;> simp [*]

def Cell.ofElement? : Option Element → Cell
  | some e => .value e.value
  | none => .blank

theorem Row.ofValues_row (φ : Formula) (i : Nat) :
    Row.ofValues ((Enumeration.ofFormula φ).row i) =
      (run φ ((Enumeration.ofFormula φ).vars.valuation i)).displayed.map Cell.ofElement? := by
  simp only [Row.ofValues, Enumeration.row, displayed, List.map_append, List.map_cons, List.map_map]
  rfl

namespace Table

/-- Where labels tell the columns with values apart, the label of one of them leads to its own place. -/
theorem columnIndex?_label {t : Table} (hd : (t.valueColumns.map (·.label)).Nodup) {j : Nat} {c : Column}
    (hj : t.columns[j]? = some c) (hs : c.isSeparator = false) : t.columnIndex? c.label = some j := by
  obtain ⟨hlt, rfl⟩ := List.getElem?_eq_some_iff.1 hj
  rw [valueColumns, List.Nodup, List.pairwise_map, List.pairwise_filter, List.pairwise_iff_getElem] at hd
  rw [columnIndex?, List.findIdx?_eq_some_iff_getElem]
  refine ⟨hlt, by simp [hs], fun k hk hp => ?_⟩
  obtain ⟨hks, hkl⟩ := Bool.and_eq_true_iff.1 hp
  exact hd k j (Nat.lt_trans hk hlt) hlt hk hks (by simp [hs]) (of_decide_eq_true hkl)

theorem valuesAt_map_rows {f : Nat → Row} {g : Nat → Bool} {j : Nat} {is : List Nat}
    (h : ∀ i ∈ is, (f i)[j]? = some (.value (g i))) : valuesAt (is.map f) j = .ok (some (is.map g)) := by
  have hvalue : ∀ r ∈ is.map f, r[j]? = some (.value ((r[j]?.bind Cell.value?).getD false)) := by
    intro r hr
    obtain ⟨i, hi, rfl⟩ := List.mem_map.1 hr
    rw [h i hi]
    rfl
  rw [valuesAt_map _ _ _ hvalue, List.map_map]
  refine congrArg (fun bs => Except.ok (some bs)) (List.map_congr_left fun i hi => ?_)
  simp only [Function.comp_apply, h i hi]
  rfl

variable (φ : Formula) (separator : String)

/-- The columns are what any pass displays. -/
theorem valueLabels_ofFormula (ν : Valuation) :
    (ofFormula φ separator).columns.map Column.valueLabel? =
      (run φ ν).displayed.map (Option.map (·.label)) := by
  have hcolumns : (ofFormula φ separator).columns = header (Enumeration.ofFormula φ) separator := rfl
  rw [hcolumns, header, Enumeration.names_ofFormula φ ν, Enumeration.derivedLabels_ofFormula φ ν, displayed]
  simp only [List.map_append, List.map_cons, List.map_map]
  rfl

variable {φ separator} {label : String} {j : Nat}

/-- A column with values has an element in every pass, which has the label of the column and the value in its
row. -/
theorem exists_element {c : Column} (hj : (ofFormula φ separator).columns[j]? = some c)
    (hs : c.isSeparator = false) (ν : Valuation) :
    ∃ e, (run φ ν).displayed[j]? = some (some e) ∧ (run φ ν).get? c.label = some e := by
  have hcolumn := congrArg (·[j]?) (valueLabels_ofFormula φ separator ν)
  simp only [List.getElem?_map, hj, Option.map_some, Column.valueLabel?_eq_some_iff.2 ⟨hs, rfl⟩] at hcolumn
  obtain ⟨e?, hdisplayed, hsome⟩ := Option.map_eq_some_iff.1 hcolumn.symm
  obtain ⟨e, rfl, hlabel⟩ := Option.map_eq_some_iff.1 hsome
  have he := (some_mem_displayed.1 (List.mem_of_getElem? hdisplayed)).1
  exact ⟨e, hdisplayed, hlabel ▸ get?_label he⟩

theorem exists_column (separator : String) {ν : Valuation} {e : Element} (he : some e ∈ (run φ ν).displayed) :
    ∃ (j : Nat) (c : Column),
      (ofFormula φ separator).columns[j]? = some c ∧ c.isSeparator = false ∧ c.label = e.label := by
  obtain ⟨j, hj⟩ := List.mem_iff_getElem?.1 he
  have hcolumn := congrArg (·[j]?) (valueLabels_ofFormula φ separator ν)
  simp only [List.getElem?_map, hj, Option.map_some] at hcolumn
  obtain ⟨c, hc, hlabel⟩ := Option.map_eq_some_iff.1 hcolumn
  exact ⟨j, c, hc, Column.valueLabel?_eq_some_iff.1 hlabel⟩

/-- The column at `j` has values, it has this label, and it is the only one that has both. -/
def IsOnlyColumn (t : Table) (label : String) (j : Nat) : Prop :=
  ∀ k, (∃ c, t.columns[k]? = some c ∧ c.isSeparator = false ∧ c.label = label) ↔ k = j

/-- A label leads to a column just if the column is the only one with values under it, which is the case just if
some displayed element has the label. Then the values are those that are found under the label in the passes of
the rows, and otherwise there are none. No row is too short for a column or has a blank in it. -/
structure LooksUp (t : Table) (φ : Formula) (label : String) : Prop where
  index : ∀ j, t.columnIndex? label = some j ↔ t.IsOnlyColumn label j
  element : ∀ ν, (∃ j, t.columnIndex? label = some j) ↔
    ∃ e ∈ (run φ ν).elements, e.label = label ∧ (e.isPrimitive = true ∨ e.isDerived = true)
  values : ∀ j, t.columnIndex? label = some j → ∃ vs, t.columnValues label = .ok (some vs) ∧
    vs.length = t.rows.length ∧ ∀ i < t.rows.length, ∃ e,
      (run φ ((Enumeration.ofFormula φ).vars.valuation i)).get? label = some e ∧ vs[i]? = some e.value
  no_values : t.columnIndex? label = none → t.columnValues label = .ok none
  never_short : ∀ e, t.columnValues label ≠ .error e
  never_blank : ∀ j, t.columnIndex? label = some j → ∀ r ∈ t.rows, ∃ b, r[j]? = some (.value b)

theorem columnIndex?_eq_some_iff :
    (ofFormula φ separator).columnIndex? label = some j ↔ (ofFormula φ separator).IsOnlyColumn label j := by
  have lead {k : Nat} {c : Column} (hk : (ofFormula φ separator).columns[k]? = some c)
      (hs : c.isSeparator = false) : (ofFormula φ separator).columnIndex? c.label = some k :=
    columnIndex?_label (ofFormula_linesUp φ separator).labels_distinct hk hs
  constructor
  · intro h k
    constructor
    · rintro ⟨c, hk, hs, rfl⟩
      exact Option.some.inj ((lead hk hs).symm.trans h)
    · rintro rfl
      obtain ⟨hlt, hp, -⟩ := List.findIdx?_eq_some_iff_getElem.1 h
      obtain ⟨hs, hl⟩ := Bool.and_eq_true_iff.1 hp
      exact ⟨_, List.getElem?_eq_getElem hlt, by simpa using hs, of_decide_eq_true hl⟩
  · intro h
    obtain ⟨c, hj, hs, rfl⟩ := (h j).2 rfl
    exact lead hj hs

theorem getElem?_row {c : Column} (hj : (ofFormula φ separator).columns[j]? = some c)
    (hs : c.isSeparator = false) (i : Nat) :
    ∃ e, (run φ ((Enumeration.ofFormula φ).vars.valuation i)).get? c.label = some e ∧
      (Row.ofValues ((Enumeration.ofFormula φ).row i))[j]? = some (.value e.value) := by
  obtain ⟨e, hdisplayed, hget⟩ := exists_element hj hs ((Enumeration.ofFormula φ).vars.valuation i)
  refine ⟨e, hget, ?_⟩
  rw [Row.ofValues_row, List.getElem?_map, hdisplayed]
  rfl

def valueIn (φ : Formula) (label : String) (i : Nat) : Bool :=
  ((run φ ((Enumeration.ofFormula φ).vars.valuation i)).get? label).any (·.value)

theorem columnValues_eq {c : Column} (hj : (ofFormula φ separator).columns[j]? = some c)
    (hs : c.isSeparator = false) :
    (ofFormula φ separator).columnValues c.label =
      .ok (some ((List.range (Enumeration.ofFormula φ).rowCount).map (valueIn φ c.label))) := by
  rw [columnValues, columnIndex?_label (ofFormula_linesUp φ separator).labels_distinct hj hs, rows_ofFormula]
  refine valuesAt_map_rows fun i _ => ?_
  obtain ⟨e, hget, hcell⟩ := getElem?_row hj hs i
  rw [hcell, valueIn, hget, Option.any_some]

theorem ofFormula_looksUp (φ : Formula) (separator label : String) :
    (ofFormula φ separator).LooksUp φ label := by
  have column_of {j : Nat} (h : (ofFormula φ separator).columnIndex? label = some j) :
      ∃ c, (ofFormula φ separator).columns[j]? = some c ∧ c.isSeparator = false ∧ c.label = label :=
    (columnIndex?_eq_some_iff.1 h j).2 rfl
  have no_values (h : (ofFormula φ separator).columnIndex? label = none) :
      (ofFormula φ separator).columnValues label = .ok none := by rw [columnValues, h]
  refine {
    index := fun j => columnIndex?_eq_some_iff
    element := fun ν => ⟨?found, ?has_column⟩
    values := ?values
    no_values := no_values
    never_short := ?never_short
    never_blank := ?never_blank }
  case found =>
    rintro ⟨j, h⟩
    obtain ⟨c, hj, hs, rfl⟩ := column_of h
    obtain ⟨e, hdisplayed, hget⟩ := exists_element hj hs ν
    obtain ⟨he, hkind⟩ := some_mem_displayed.1 (List.mem_of_getElem? hdisplayed)
    exact ⟨e, he, label_of_get? hget, Element.isDisplayed_iff.1 hkind⟩
  case has_column =>
    rintro ⟨e, he, rfl, hkind⟩
    obtain ⟨j, c, hj, hs, hl⟩ := exists_column separator (some_mem_displayed.2 ⟨he, Element.isDisplayed_iff.2 hkind⟩)
    exact ⟨j, hl ▸ columnIndex?_label (ofFormula_linesUp φ separator).labels_distinct hj hs⟩
  case values =>
    intro j h
    obtain ⟨c, hj, hs, rfl⟩ := column_of h
    have hcount : (ofFormula φ separator).rows.length = (Enumeration.ofFormula φ).rowCount := by
      rw [rows_ofFormula, List.length_map, List.length_range]
    refine ⟨_, columnValues_eq hj hs, by rw [List.length_map, List.length_range, hcount], fun i hi => ?_⟩
    obtain ⟨e, hget, -⟩ := getElem?_row hj hs i
    refine ⟨e, hget, ?_⟩
    rw [List.getElem?_map, List.getElem?_range (hcount ▸ hi), Option.map_some, valueIn, hget, Option.any_some]
  case never_short =>
    intro e he
    cases h : (ofFormula φ separator).columnIndex? label with
    | none => exact nomatch (no_values h).symm.trans he
    | some j =>
      obtain ⟨c, hj, hs, rfl⟩ := column_of h
      exact nomatch (columnValues_eq hj hs).symm.trans he
  case never_blank =>
    intro j h r hr
    obtain ⟨c, hj, hs, rfl⟩ := column_of h
    obtain ⟨i, hi⟩ := List.mem_iff_getElem?.1 hr
    obtain ⟨e, -, hcell⟩ := getElem?_row hj hs i
    exact ⟨e.value, getElem?_rows_ofFormula hi ▸ hcell⟩

/-- Every label is looked up rightly in every table that is built, whatever the names of the formula are and
whatever the separator is. -/
theorem built_looksUp (φ : Formula) (separator label : String) :
    (ofFormula φ separator).LooksUp φ label ∧
      ∀ (σ : Type) (proceed : Nat → StateM σ Bool) (s s' : σ) (t : Table),
        (buildUntil φ separator proceed).run s = (some t, s') → t.LooksUp φ label := by
  refine ⟨ofFormula_looksUp φ separator label, fun σ proceed s s' t h => ?_⟩
  rw [eq_ofFormula_of_buildUntil h]
  exact ofFormula_looksUp φ separator label

/-- A separator that looks like the column behind it, and a join, which has a label and no column. -/
theorem built_looksUp_imitation :
    let φ : Formula := .binary .join (.symbol "p") (.not (.symbol "p"))
    let counting : Nat → StateM Nat Bool := fun _ => modifyGet fun n => (true, n + 1)
    (buildUntil φ "¬p" counting).run 0 = (some (ofFormula φ "¬p"), 2) ∧
      ((ofFormula φ "¬p").LooksUp φ "¬p" ∧ (ofFormula φ "¬p").columnIndex? "¬p" = some 2 ∧
        (ofFormula φ "¬p").columnValues "¬p" = .ok (some [true, false])) ∧
      (ofFormula φ "¬p").LooksUp φ "(p , ¬p)" ∧ (ofFormula φ "¬p").columnValues "(p , ¬p)" = .ok none := by
  intro φ counting
  have hcount : (Enumeration.ofFormula φ).rowCount = 2 := by decide
  have h : (buildUntil φ "¬p" counting).run 0 = (some (ofFormula φ "¬p"), askedIn counting 0 2) :=
    hcount ▸ buildUntil_of_agrees "¬p" fun _ _ => rfl
  exact ⟨h, ⟨(built_looksUp φ "¬p" "¬p").2 Nat counting 0 2 _ h, by decide, by decide⟩,
    (built_looksUp φ "¬p" "(p , ¬p)").1, by decide⟩

end Table

end TruthTables
