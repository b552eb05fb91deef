import TruthTables.Proofs.ColumnLookup
import TruthTables.Proofs.CsvReading
import TruthTables.Proofs.PrintedFormulas

/-! # Lines of printed tables -/
namespace TruthTables

namespace Text

def lines (s : String) : List String := (s.toList.splitOn '\n').map String.ofList

theorem lines_join {ls : List String} (h : ∀ l ∈ ls, '\n' ∉ l.toList) :
    lines (String.join (ls.map (· ++ "\n"))) = ls ++ [""] := by
  have hbreak : "\n".toList = ['\n'] := rfl
  rw [lines, String.toList_join]
  induction ls with
  | nil => rfl
  | cons l ls ih =>
    obtain ⟨hl, hls⟩ := List.forall_mem_cons.1 h
    rw [List.map_cons, List.flatMap_cons, String.toList_append, hbreak, List.append_assoc, List.singleton_append,
      List.splitOn_append_cons_self_of_not_mem hl, List.map_cons, String.ofList_toList, ih hls, List.cons_append]

theorem not_mem_intercalate {separator : String} {fields : List String} {c : Char} (hs : c ∉ separator.toList)
    (h : ∀ f ∈ fields, c ∉ f.toList) : c ∉ (String.intercalate separator fields).toList := by
  induction fields with
  | nil => exact List.not_mem_nil
  | cons f fields ih =>
    obtain ⟨hf, hfields⟩ := List.forall_mem_cons.1 h
    cases fields with
    | nil => rwa [String.intercalate_singleton]
    | cons g fields =>
      rw [String.intercalate_cons_cons, String.toList_append, String.toList_append, List.mem_append,
        List.mem_append, not_or, not_or]
      exact ⟨⟨hf, hs⟩, ih hfields⟩

end Text

namespace Formula

def labelSigns : List Char := ['(', ')', ' ', ',', '∧', '∨', '⊕', '→', '≡', '¬']

theorem sign_mem_labelSigns (c : Connective) : c.sign ∈ labelSigns := by
  cases c <;> decide

variable {φ : Formula}

theorem Proper.mem_label (hφ : φ.Proper) : ∀ c ∈ φ.label.toList, c.isAlpha = true ∨ c ∈ labelSigns := by
  induction φ with
  | symbol name => exact fun c hc => .inl ((hφ name (List.mem_singleton_self name)).2.1 c hc)
  | not φ ih =>
    rw [toList_label_not]
    exact List.forall_mem_cons.2 ⟨.inr (by decide), ih hφ⟩
  | binary d φ ψ ihφ ihψ =>
    have hl := ihφ fun name hn => hφ name (List.mem_append_left _ hn)
    have hr := ihψ fun name hn => hφ name (List.mem_append_right _ hn)
    have hsign : d.sign.isAlpha = true ∨ d.sign ∈ labelSigns := .inr (sign_mem_labelSigns d)
    rw [toList_label_binary]
    simp only [List.forall_mem_cons, List.forall_mem_append]
    exact ⟨.inr (by decide), hl, .inr (by decide), hsign, .inr (by decide), hr, .inr (by decide), nofun⟩

theorem Proper.not_mem_label (hφ : φ.Proper) {c : Char} (hc : c.isAlpha = false ∧ c ∉ labelSigns) :
    c ∉ φ.label.toList := fun h => by
  rcases hφ.mem_label c h with ha | hs
  · exact absurd (hc.1.symm.trans ha) (by decide)
  · exact hc.2 hs

theorem Proper.eq_space_of_isBlank (hφ : φ.Proper) {c : Char} (h : c ∈ φ.label.toList)
    (hc : Text.isBlank c = true) : c = ' ' := by
  rcases hφ.mem_label c h with ha | hs
  · exact absurd (hc.symm.trans (Text.isBlank_of_isAlpha ha)) (by decide)
  · have hblank : labelSigns.all (fun d => !Text.isBlank d || d = ' ') = true := by decide
    simpa [hc] using List.all_eq_true.1 hblank c hs

theorem Proper.label_ne_empty (hφ : φ.Proper) : φ.label ≠ "" := by
  intro h
  have hnil := String.toList_eq_nil_iff.2 h
  cases φ with
  | symbol name => exact (hφ name (List.mem_singleton_self name)).1 h
  | not φ => simp [toList_label_not] at hnil
  | binary c φ ψ => simp [toList_label_binary] at hnil

end Formula

/-- A row with these values that has a blank behind the first `n` of them. -/
def Row.parted (n : Nat) (bs : List Bool) : Row := (bs.take n).map .value ++ .blank :: (bs.drop n).map .value

namespace Table

variable {φ : Formula} {separator : String}

theorem isSeparator_of_mem_map {kind : ColumnKind} (hk : kind ≠ .separator) {labels : List String} {c : Column}
    (hc : c ∈ labels.map (⟨·, kind⟩)) : c.isSeparator = false := by
  obtain ⟨l, -, rfl⟩ := List.mem_map.1 hc
  exact decide_eq_false hk

/-- What holds of all labels of proper formulas holds of the columns with values. -/
theorem exists_label (hφ : φ.Proper) {c : Column} (hc : c ∈ (ofFormula φ separator).columns)
    (hs : c.isSeparator = false) : ∃ χ : Formula, χ.Proper ∧ χ.label = c.label := by
  obtain ⟨χ, hχ, hl⟩ := exists_of_mem_columns hφ.plain hc (of_decide_eq_false hs)
  exact ⟨χ, hφ.of_mem hχ, hl⟩

/-- The blank of a row is behind the values of the variables. -/
theorem parted_values {r : Row} (hr : r ∈ (ofFormula φ separator).rows) :
    Row.parted (ofFormula φ separator).primitiveCount r.values = r := by
  obtain ⟨i, hi⟩ := List.mem_iff_getElem?.1 hr
  obtain rfl := getElem?_rows_ofFormula hi
  have hcount : (ofFormula φ separator).primitiveCount = ((Enumeration.ofFormula φ).row i).primitives.length :=
    (primitiveCount_ofFormula φ separator).trans (Enumeration.length_row φ i).1.symm
  rw [hcount, values_ofValues, Row.parted, List.take_left, List.drop_left]
  rfl

theorem map_parted (line : Row → String) (values : String → List Bool)
    (h : ∀ r ∈ (ofFormula φ separator).rows, values (line r) = r.values) :
    ((ofFormula φ separator).rows.map line).map
      (fun l => Row.parted (ofFormula φ separator).primitiveCount (values l)) = (ofFormula φ separator).rows := by
  rw [List.map_map]
  refine (List.map_congr_left fun r hr => ?_).trans (List.map_id _)
  rw [Function.comp_apply, h r hr, parted_values hr, id]

end Table

end TruthTables
