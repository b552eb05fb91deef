import TruthTables.Proofs.FieldPlaces
import TruthTables.Proofs.PrintedLines

/-! # Lines with aligned columns -/
namespace TruthTables

namespace Table

open Text

section Places

variable (t : Table)

/-- Where a column starts: behind the columns before it and the two blanks that follow each of them. -/
def offset (j : Nat) : Nat := ((t.columns.take j).map (width · + 2)).sum

def InField (i : Nat) : Prop :=
  ∃ j c, t.columns[j]? = some c ∧ c.isSeparator = false ∧ t.offset j ≤ i ∧ i < t.offset j + width c

def HasWidths (fields : List String) : Prop := fields.map String.length = t.columns.map width

variable {t} {fields : List String}

theorem HasWidths.fieldStart_eq (h : t.HasWidths fields) (j : Nat) : fieldStart fields j = t.offset j := by
  calc fieldStart fields j
    _ = (((fields.map String.length).take j).map (· + 2)).sum := by
      rw [fieldStart, ← List.map_take, List.map_map]; rfl
    _ = (((t.columns.map width).take j).map (· + 2)).sum := by rw [h]
    _ = t.offset j := by rw [offset, ← List.map_take, List.map_map]; rfl

theorem HasWidths.length_eq (h : t.HasWidths fields) {j : Nat} {f : String} {c : Column} (hf : fields[j]? = some f)
    (hc : t.columns[j]? = some c) : f.length = width c := by
  have hlength := congrArg (·[j]?) h
  simpa [hf, hc] using hlength

theorem charAt_textLine {i : Nat} (h : isBlank (charAt (spread fields) i) = true → charAt (spread fields) i = ' ') :
    charAt (textLine fields) i = charAt (spread fields) i := by
  rw [← charAt_intercalate] at h ⊢
  exact charAt_trimEnd h

/-- Every field stands at the place of its column, with the exception of blanks that are no spaces. -/
theorem HasWidths.charAt_field (h : t.HasWidths fields) {j : Nat} {f : String} (hj : fields[j]? = some f) {k : Nat}
    (hk : k < f.length) (hblank : isBlank (charAt f k) = true → charAt f k = ' ') :
    charAt (textLine fields) (t.offset j + k) = charAt f k := by
  have hfield := Text.charAt_field hj hk
  rw [h.fieldStart_eq] at hfield
  rw [charAt_textLine (hfield.symm ▸ hblank), hfield]

/-- Where the field of the separator is blank, nothing stands outside of the fields of other columns. -/
theorem HasWidths.charAt_eq_space (h : t.HasWidths fields) {i : Nat} (hi : ¬t.InField i)
    (hs : ∀ (j : Nat) f (c : Column), fields[j]? = some f → t.columns[j]? = some c → c.isSeparator = true →
      ∀ k, charAt f k = ' ') :
    charAt (textLine fields) i = ' ' := by
  have hspace : charAt (spread fields) i = ' ' := by
    refine Text.charAt_eq_space fun j f k hj hk hplace => ?_
    have hlt : j < t.columns.length := by
      have hlength := congrArg List.length h
      rw [List.length_map, List.length_map] at hlength
      exact hlength ▸ (List.getElem?_eq_some_iff.1 hj).1
    have hc := List.getElem?_eq_getElem hlt
    -- the place is in the field of the separator, or it would be in the field of another column
    cases hsep : t.columns[j].isSeparator with
    | true => exact hs j f _ hj hc hsep k
    | false =>
      rw [h.fieldStart_eq] at hplace
      have hwidth := h.length_eq hj hc
      exact absurd ⟨j, _, hc, hsep, by omega, by omega⟩ hi
  rw [charAt_textLine fun _ => hspace, hspace]

theorem not_mem_textLine {c : Char} (hc : c ≠ ' ') (h : ∀ f ∈ fields, c ∉ f.toList) :
    c ∉ (textLine fields).toList :=
  mt mem_of_mem_trimEnd (not_mem_intercalate (by simpa using hc) h)

end Places

section Widths

variable {t : Table}

theorem hasWidths_header : t.HasWidths (t.columns.map fun c => justify .center (width c) c.label) := by
  rw [HasWidths, List.map_map]
  refine List.map_congr_left fun c _ => ?_
  rw [Function.comp_apply, length_justify, width]
  omega

theorem hasWidths_rule : t.HasWidths (t.columns.map rule) := by
  rw [HasWidths, List.map_map]
  refine List.map_congr_left fun c _ => ?_
  rw [Function.comp_apply, rule, String.length_ofList, List.length_replicate]

theorem length_text_le (cell : Cell) : cell.text.length ≤ 1 := by
  cases cell with
  | value b => cases b <;> decide
  | blank => decide

theorem hasWidths_row {r : Row} (hr : r.length = t.columns.length) :
    t.HasWidths (List.zipWith (fun cell c => justify .center (width c) cell.text) r t.columns) := by
  refine List.ext_getElem (by simp [hr]) fun j hj hj' => ?_
  simp only [List.getElem_map, List.getElem_zipWith, length_justify]
  exact Nat.max_eq_left (Nat.le_trans (length_text_le _) (Nat.le_max_left 1 _))

end Widths

/-- Every column with values has a field of its own in all lines. The header has the label there, the rule has
dashes, and a row has its value in the middle. Beside these fields the rule and the rows are blank, and no line ends
in a blank. -/
structure Aligned (t : Table) : Prop where
  ends : ∀ line ∈ t.headerLine :: t.ruleLine :: t.rows.map t.rowLine, ∀ c, line.toList.getLast? = some c →
    isBlank c = false
  label : ∀ (j : Nat) c, t.columns[j]? = some c → c.isSeparator = false →
    slice t.headerLine (t.offset j) (width c) = c.label
  rule : ∀ (j : Nat) c, t.columns[j]? = some c → c.isSeparator = false →
    ∀ k < width c, charAt t.ruleLine (t.offset j + k) = '-'
  value : ∀ r ∈ t.rows, ∀ (j : Nat) c, t.columns[j]? = some c → c.isSeparator = false → ∃ b,
    r[j]? = some (.value b) ∧ ∀ k < width c,
      charAt (t.rowLine r) (t.offset j + k) = if k = (width c - 1) / 2 then (if b then '1' else '0') else ' '
  between : ∀ i, ¬t.InField i → charAt t.ruleLine i = ' ' ∧ ∀ r ∈ t.rows, charAt (t.rowLine r) i = ' '

section OfFormula

variable {φ : Formula} {separator : String}

theorem text_value (b : Bool) : (Cell.value b).text = String.singleton (if b then '1' else '0') := by
  cases b <;> rfl

theorem rule_eq_spaces {c : Column} (hs : c.isSeparator = true) : rule c = spaces (width c) := by
  rw [rule, if_pos hs, spaces]

theorem rule_eq_dashes {c : Column} (hs : c.isSeparator = false) :
    rule c = String.ofList (List.replicate (width c) '-') := by
  rw [rule, if_neg (Bool.eq_false_iff.1 hs)]

theorem cell_of_mem {r : Row} (hr : r ∈ (ofFormula φ separator).rows) {j : Nat} {c : Column}
    (hj : (ofFormula φ separator).columns[j]? = some c) :
    ∃ cell, r[j]? = some cell ∧ (cell = .blank ↔ c.isSeparator = true) := by
  have hlines := ofFormula_linesUp φ separator
  have hlt : j < r.length := hlines.width r hr ▸ (List.getElem?_eq_some_iff.1 hj).1
  have hblank := hlines.blank r hr j
  have hseparator := hlines.separator j
  rw [List.getElem?_eq_getElem hlt, Option.some.injEq] at hblank
  rw [hj] at hseparator
  refine ⟨_, List.getElem?_eq_getElem hlt, hblank.trans (hseparator.symm.trans ?_)⟩
  simp

theorem getElem?_rowFields {t : Table} {r : Row} {j : Nat} {cell : Cell} {c : Column} (hr : r[j]? = some cell)
    (hj : t.columns[j]? = some c) :
    (List.zipWith (fun cell c => justify .center (width c) cell.text) r t.columns)[j]? =
      some (justify .center (width c) cell.text) := by
  rw [List.getElem?_zipWith, hr, hj]

/-- Labels of proper formulas have no blanks that are not spaces, and are as wide as their columns. -/
theorem slice_headerLine (hφ : φ.Proper) {j : Nat} {c : Column}
    (hj : (ofFormula φ separator).columns[j]? = some c) (hs : c.isSeparator = false) :
    slice (ofFormula φ separator).headerLine ((ofFormula φ separator).offset j) (width c) = c.label := by
  obtain ⟨χ, hχ, hl⟩ := exists_label hφ (List.mem_of_getElem? hj) hs
  have hpos : c.label.length ≠ 0 := by
    rw [← hl, Ne, String.length_eq_zero_iff]
    exact hχ.label_ne_empty
  have hwidth : width c = c.label.length := by
    rw [width]
    omega
  rw [hwidth]
  refine slice_eq fun k hk => hasWidths_header.charAt_field ?_ hk fun hblank => ?_
  · rw [List.getElem?_map, hj, Option.map_some, hwidth, justify_length]
  · have hmem := charAt_mem hk
    rw [← hl] at hmem hblank ⊢
    exact hχ.eq_space_of_isBlank hmem hblank

theorem charAt_ruleLine {t : Table} {j : Nat} {c : Column} (hj : t.columns[j]? = some c)
    (hs : c.isSeparator = false) {k : Nat} (hk : k < width c) : charAt t.ruleLine (t.offset j + k) = '-' := by
  have hdash : charAt (rule c) k = '-' := by rw [rule_eq_dashes hs, charAt_ofList_replicate _ hk]
  have hfield : (t.columns.map rule)[j]? = some (rule c) := by rw [List.getElem?_map, hj, Option.map_some]
  have hlt : k < (rule c).length := Nat.lt_of_lt_of_eq hk (hasWidths_rule.length_eq hfield hj).symm
  rw [ruleLine, hasWidths_rule.charAt_field hfield hlt (by rw [hdash]; decide), hdash]

theorem charAt_rowLine {t : Table} {r : Row} (hr : r.length = t.columns.length) {j : Nat} {c : Column}
    (hj : t.columns[j]? = some c) {b : Bool} (hb : r[j]? = some (.value b)) {k : Nat} (hk : k < width c) :
    charAt (t.rowLine r) (t.offset j + k) = if k = (width c - 1) / 2 then (if b then '1' else '0') else ' ' := by
  have hfield := getElem?_rowFields hb hj
  have hlength := (hasWidths_row hr).length_eq hfield hj
  have hchar := charAt_justify_singleton (width c) (if b then '1' else '0') k
  rw [← text_value] at hchar
  rw [rowLine, (hasWidths_row hr).charAt_field hfield (Nat.lt_of_lt_of_eq hk hlength.symm) ?_, hchar]
  rw [hchar]
  cases b <;> split <;> decide

theorem ofFormula_aligned (hφ : φ.Proper) (separator : String) : (ofFormula φ separator).Aligned := by
  have hlength := (ofFormula_linesUp φ separator).width
  refine {
    ends := ?ends
    label := fun j c hj hs => slice_headerLine hφ hj hs
    rule := fun j c hj hs k hk => charAt_ruleLine hj hs hk
    value := ?value
    between := fun i hi => ⟨?rule_between, fun r hr => ?row_between⟩ }
  case ends =>
    intro line hline c hc
    rw [List.mem_cons, List.mem_cons, List.mem_map] at hline
    rcases hline with rfl | rfl | ⟨r, -, rfl⟩
    all_goals exact getLast?_trimEnd hc
  case value =>
    intro r hr j c hj hs
    obtain ⟨cell, hcell, hblank⟩ := cell_of_mem hr hj
    cases cell with
    | value b => exact ⟨b, hcell, fun k hk => charAt_rowLine (hlength r hr) hj hcell hk⟩
    | blank => exact absurd (hs.symm.trans (hblank.1 rfl)) (by decide)
  case rule_between =>
    refine hasWidths_rule.charAt_eq_space hi fun j f c hf hj hs k => ?_
    rw [List.getElem?_map, hj, Option.map_some, Option.some.injEq] at hf
    rw [← hf, rule_eq_spaces hs, charAt_spaces]
  case row_between =>
    refine (hasWidths_row (hlength r hr)).charAt_eq_space hi fun j f c hf hj hs k => ?_
    obtain ⟨cell, hcell, hblank⟩ := cell_of_mem hr hj
    rw [getElem?_rowFields hcell hj, Option.some.injEq, hblank.2 hs] at hf
    rw [← hf]
    exact charAt_justify_empty .center (width c) k

end OfFormula

end Table

end TruthTables
