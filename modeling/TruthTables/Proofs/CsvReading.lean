import TruthTables.Proofs.TableShape
import TruthTables.Table.Csv

/-! # Comma separated values are read back -/
namespace TruthTables.Table

namespace Csv

/-- Where a reader is: at the start of a line or of a field in it, in a field without quotes, between quotes, or
behind a quote that ends the field unless it is the first of two. -/
inductive Mode
  | line | field | bare | quoted | closed
  deriving DecidableEq

/-- The records of a text. The fields before the present one in its record have been read, and the first
characters of this field. -/
def records : (m : Mode) → (field : List Char) → (fields : List String) → List Char → Option (List (List String))
  | .line, _, _, [] => some []
  | .quoted, _, _, [] => none
  | _, field, fields, [] => some [fields ++ [String.ofList field]]
  | .quoted, field, fields, c :: cs =>
    if c = '\x22' then records .closed field fields cs else records .quoted (field ++ [c]) fields cs
  | m, field, fields, c :: cs =>
    if c = ',' then records .field [] (fields ++ [String.ofList field]) cs
    else if c = '\n' || c = '\r' then
      if m = .line then records .line [] [] cs
      else (records .line [] [] cs).map ((fields ++ [String.ofList field]) :: ·)
    else if c = '\x22' then
      match m with
      | .bare => none
      | .closed => records .quoted (field ++ [c]) fields cs
      | _ => records .quoted field fields cs
    else if m = .closed then none
    else records .bare (field ++ [c]) fields cs

def read (s : String) : Option (List (List String)) := records .line [] [] s.toList

section Steps

variable {m : Mode} (field : List Char) (fields : List String) (rest : List Char)

theorem records_comma (hm : m ≠ .quoted) :
    records m field fields (',' :: rest) = records .field [] (fields ++ [String.ofList field]) rest := by
  cases m with
  | quoted => exact absurd rfl hm
  | line | field | bare | closed => rfl

theorem records_newline (hm : m ≠ .quoted) (hline : m ≠ .line) :
    records m field fields ('\n' :: rest) =
      (records .line [] [] rest).map ((fields ++ [String.ofList field]) :: ·) := by
  cases m with
  | quoted => exact absurd rfl hm
  | line => exact absurd rfl hline
  | field | bare | closed => rfl

theorem records_quote (hm : m = .line ∨ m = .field) :
    records m field fields ('\x22' :: rest) = records .quoted field fields rest := by
  rcases hm with rfl | rfl <;> rfl

theorem records_char {c : Char} (hc : isSpecial c = false) (hm : m ≠ .quoted) (hclosed : m ≠ .closed) :
    records m field fields (c :: rest) = records .bare (field ++ [c]) fields rest := by
  simp only [isSpecial, Bool.or_eq_false_iff, decide_eq_false_iff_not] at hc
  obtain ⟨⟨⟨hcomma, hquote⟩, hcr⟩, hlf⟩ := hc
  cases m with
  | quoted => exact absurd rfl hm
  | closed => exact absurd rfl hclosed
  | line | field | bare => simp [records, hcomma, hquote, hcr, hlf]

theorem records_bare {w : List Char} (hw : ∀ c ∈ w, isSpecial c = false) :
    records .bare field fields (w ++ rest) = records .bare (field ++ w) fields rest := by
  induction w generalizing field with
  | nil => rw [List.nil_append, List.append_nil]
  | cons c w ih =>
    obtain ⟨hc, hw⟩ := List.forall_mem_cons.1 hw
    rw [List.cons_append, records_char (m := .bare) _ _ _ hc nofun nofun, ih _ hw, List.append_assoc,
      List.singleton_append]

/-- Between quotes every quote is doubled, so the first one that is not is the end. -/
theorem records_quoted (w : List Char) :
    records .quoted field fields (w.flatMap doubleQuote ++ '\x22' :: rest) =
      records .closed (field ++ w) fields rest := by
  induction w generalizing field with
  | nil =>
    rw [List.append_nil]
    rfl
  | cons c w ih =>
    have hfield : field ++ c :: w = field ++ [c] ++ w := by rw [List.append_assoc, List.singleton_append]
    rw [List.flatMap_cons, List.append_assoc, hfield, ← ih]
    by_cases hc : c = '\x22'
    · rw [doubleQuote, if_pos hc, hc]
      rfl
    · rw [doubleQuote, if_neg hc, List.singleton_append, records, if_neg hc]

end Steps

section Fields

variable {m : Mode} (fields : List String) (rest : List Char)

/-- A field is read to its end, where a comma or the end of the line may follow. -/
theorem exists_mode (hm : m = .line ∨ m = .field) (s : String) :
    ∃ m', records m [] fields ((field s).toList ++ rest) = records m' s.toList fields rest ∧
      m' ≠ .quoted ∧ (m' = .line → m = .line ∧ s = "") := by
  have hquoted : m ≠ .quoted := by rcases hm with rfl | rfl <;> exact nofun
  have hclosed : m ≠ .closed := by rcases hm with rfl | rfl <;> exact nofun
  by_cases hs : s.toList.any isSpecial = true
  · refine ⟨.closed, ?_, nofun, nofun⟩
    rw [field, if_pos hs]
    simp only [String.toList_append, String.toList_ofList, List.append_assoc]
    exact (records_quote [] fields _ hm).trans (records_quoted [] fields rest s.toList)
  · rw [field, if_neg hs]
    rw [List.any_eq_true, not_exists] at hs
    have hplain : ∀ c ∈ s.toList, isSpecial c = false := fun c hc =>
      Bool.eq_false_iff.2 fun h => hs c ⟨hc, h⟩
    cases hl : s.toList with
    | nil => exact ⟨m, rfl, hquoted, fun h => ⟨h, String.toList_eq_nil_iff.1 hl⟩⟩
    | cons c w =>
      rw [hl] at hplain
      obtain ⟨hc, hw⟩ := List.forall_mem_cons.1 hplain
      refine ⟨.bare, ?_, nofun, nofun⟩
      rw [List.cons_append, records_char [] fields _ hc hquoted hclosed, records_bare _ _ _ hw]
      rfl

theorem records_field_comma (hm : m = .line ∨ m = .field) (s : String) :
    records m [] fields ((field s).toList ++ ',' :: rest) = records .field [] (fields ++ [s]) rest := by
  obtain ⟨m', h, hquoted, -⟩ := exists_mode fields (',' :: rest) hm s
  rw [h, records_comma _ _ _ hquoted, String.ofList_toList]

/-- The last field of a line, unless it is empty and the only one. -/
theorem records_field_newline (hm : m = .line ∨ m = .field) {s : String} (hs : m = .line → s ≠ "") :
    records m [] fields ((field s).toList ++ '\n' :: rest) =
      (records .line [] [] rest).map ((fields ++ [s]) :: ·) := by
  obtain ⟨m', h, hquoted, hline⟩ := exists_mode fields ('\n' :: rest) hm s
  have hline' : m' ≠ .line := fun h => hs (hline h).1 (hline h).2
  rw [h, records_newline _ _ _ hquoted hline', String.ofList_toList]

theorem records_fields (hm : m = .line ∨ m = .field) (s : String) (ss : List String)
    (hs : m = .line → ss = [] → s ≠ "") :
    records m [] fields ((String.intercalate "," ((s :: ss).map field)).toList ++ '\n' :: rest) =
      (records .line [] [] rest).map ((fields ++ s :: ss) :: ·) := by
  induction ss generalizing m fields s with
  | nil =>
    rw [List.map_singleton, String.intercalate_singleton]
    exact records_field_newline fields rest hm fun h => hs h rfl
  | cons t ts ih =>
    -- behind a comma the line is no longer at its start, so that nothing is asked of the last field
    have hcomma : ",".toList = [','] := rfl
    rw [List.map_cons, List.map_cons, String.intercalate_cons_cons, String.toList_append,
      String.toList_append, hcomma, List.append_assoc, List.append_assoc, List.singleton_append,
      records_field_comma fields _ hm, ← List.map_cons, ih (fields ++ [s]) (.inr rfl) t nofun,
      List.append_assoc, List.singleton_append]

theorem eq_empty_of_field {s : String} (h : field s = "") : s = "" := by
  unfold field at h
  split at h
  · have hlen := congrArg String.length h
    simp at hlen
  · exact h

/-- A record is read up to the end of its line, and then the reader is at the start of the next one. -/
theorem records_record {fs : List String} (hfs : fs ≠ []) :
    records .line [] [] ((record fs).toList ++ rest) = (records .line [] [] rest).map (fs :: ·) := by
  obtain ⟨s, ss, rfl⟩ := List.exists_cons_of_ne_nil hfs
  have hnewline : "\n".toList = ['\n'] := rfl
  by_cases hline : String.intercalate "," ((s :: ss).map field) = ""
  · cases ss with
    | nil =>
      rw [List.map_singleton, String.intercalate_singleton] at hline
      obtain rfl := eq_empty_of_field hline
      rfl
    | cons t ts =>
      have hlen := congrArg String.length hline
      simp [String.intercalate_cons_cons] at hlen
  · have hs : Mode.line = .line → ss = [] → s ≠ "" := by
      rintro - rfl rfl
      exact hline rfl
    simp only [record]
    rw [if_neg hline, String.toList_append, hnewline, List.append_assoc, List.singleton_append]
    exact records_fields [] rest (.inl rfl) s ss hs

theorem read_join {rs : List (List String)} (hrs : ∀ r ∈ rs, r ≠ []) :
    read (String.join (rs.map record)) = some rs := by
  rw [read, String.toList_join]
  induction rs with
  | nil => rfl
  | cons r rs ih =>
    obtain ⟨hr, hrs⟩ := List.forall_mem_cons.1 hrs
    rw [List.map_cons, List.flatMap_cons, records_record _ hr, ih hrs]
    rfl

end Fields

end Csv

section Records

variable {t : Table}

theorem length_values (r : Row) : r.values.length = r.countP (!·.isBlank) := by
  rw [Row.values, List.length_filterMap_eq_countP]
  refine List.countP_congr fun c _ => ?_
  cases c <;> simp [Cell.value?, Cell.isBlank]

theorem toCsv_eq_ok_iff {s : String} :
    t.toCsv = .ok s ↔ (∀ r ∈ t.rows, r.values.length = t.valueColumns.length) ∧
      s = String.join (t.csvRecords.map Csv.record) := by
  have hall : t.csvRecords.find? (·.length ≠ t.valueColumns.length) = none ↔
      ∀ r ∈ t.rows, r.values.length = t.valueColumns.length := by
    simp [csvRecords]
  rw [← hall, toCsv]
  cases hfind : t.csvRecords.find? (·.length ≠ t.valueColumns.length) with
  | none => simp [eq_comm]
  | some r => simp

theorem read_toCsv (hcolumns : t.valueColumns ≠ []) {s : String} (h : t.toCsv = .ok s) :
    Csv.read s = some (t.valueColumns.map (·.label) :: t.rows.map fun r => r.values.map Cell.digit) := by
  obtain ⟨hlen, rfl⟩ := toCsv_eq_ok_iff.1 h
  refine Csv.read_join fun fs hfs => ?_
  rw [csvRecords, List.mem_cons, List.mem_map] at hfs
  rcases hfs with rfl | ⟨r, hr, rfl⟩
  · rwa [Ne, List.map_eq_nil_iff]
  · have hpos := List.length_pos_iff.2 hcolumns
    rw [← hlen r hr] at hpos
    rw [Ne, List.map_eq_nil_iff]
    exact List.length_pos_iff.1 hpos

theorem values_ofValues (v : RowValues) : (Row.ofValues v).values = v.primitives ++ v.derived := by
  have hvalues : ∀ bs : List Bool, (bs.map Cell.value).filterMap Cell.value? = bs := fun bs => by
    rw [List.filterMap_map]
    exact List.filterMap_some
  rw [Row.values, Row.ofValues, List.filterMap_append, hvalues, List.filterMap_cons, Cell.value?, hvalues]

end Records

/-- Every row of a built table has a value for each column that is no separator, and a variable is one. -/
theorem valueColumns_ofFormula (φ : Formula) (separator : String) :
    (ofFormula φ separator).valueColumns ≠ [] ∧
      ∀ r ∈ (ofFormula φ separator).rows, r.values.length = (ofFormula φ separator).valueColumns.length := by
  have hlabels : (ofFormula φ separator).valueColumns.map (·.label) =
      (Enumeration.ofFormula φ).vars.names ++ (Enumeration.ofFormula φ).derivedLabels :=
    labels_header_values _ separator
  constructor
  · intro hnil
    rw [hnil, List.map_nil, eq_comm, List.append_eq_nil_iff, Enumeration.names_ofFormula φ .empty,
      List.map_eq_nil_iff] at hlabels
    exact Evaluation.primitives_run_ne_nil φ _ hlabels.1
  · intro r hr
    obtain ⟨i, hi⟩ := List.mem_iff_getElem?.1 hr
    obtain ⟨hprimitives, hderived⟩ := Enumeration.length_row φ i
    have hlen := congrArg List.length hlabels
    rw [List.length_map, List.length_append] at hlen
    rw [getElem?_rows_ofFormula hi, values_ofValues, List.length_append, hprimitives, hderived, hlen]

/-- A table is written just if all rows have as many values as there are columns for them, and then nothing of the
labels and the values is lost, whatever characters the labels are made of. Every table that is built is
written. -/
theorem toCsv_lossless :
    (∀ t : Table, 0 < t.columns.countP (!·.isSeparator) →
      ((∃ s, t.toCsv = .ok s) ↔
        ∀ r ∈ t.rows, r.countP (!·.isBlank) = t.columns.countP (!·.isSeparator)) ∧
      ∀ s, t.toCsv = .ok s → Csv.read s = some ((t.columns.filter (!·.isSeparator)).map (·.label) ::
        t.rows.map fun r => (r.filterMap Cell.value?).map fun b => if b then "1" else "0")) ∧
    ∀ φ separator, ∃ s, (ofFormula φ separator).toCsv = .ok s ∧
      Csv.read s = some (((ofFormula φ separator).columns.filter (!·.isSeparator)).map (·.label) ::
        (ofFormula φ separator).rows.map fun r =>
          (r.filterMap Cell.value?).map fun b => if b then "1" else "0") := by
  refine ⟨fun t ht => ⟨?_, fun s h => ?_⟩, fun φ separator => ?_⟩
  · simp only [toCsv_eq_ok_iff, exists_and_left, exists_eq, and_true, length_values, valueColumns,
      ← List.countP_eq_length_filter]
  · rw [List.countP_eq_length_filter] at ht
    exact read_toCsv (List.length_pos_iff.1 ht) h
  · obtain ⟨hcolumns, hrows⟩ := valueColumns_ofFormula φ separator
    have h := toCsv_eq_ok_iff.2 ⟨hrows, rfl⟩
    exact ⟨_, h, read_toCsv hcolumns h⟩

/-- Labels with a comma, a quote and a line end, an empty one, and a row with its blanks in other places. -/
theorem toCsv_lossless_special :
    let t : Table := ⟨"", [⟨"a,b", .primitive⟩, ⟨"|", .separator⟩, ⟨"", .derived⟩, ⟨"\x22x\r\n", .derived⟩],
      [[.value true, .blank, .value false, .value true],
        [.value false, .value false, .value true, .blank, .blank]]⟩
    let s := "\x22a,b\x22,,\x22\x22\x22x\r\n\x22\n1,0,1\n0,0,1\n"
    (0 < t.columns.countP (!·.isSeparator) ∧ t.toCsv = .ok s) ∧
      (∀ r ∈ t.rows, r.countP (!·.isBlank) = t.columns.countP (!·.isSeparator)) ∧
      Csv.read s = some [["a,b", "", "\x22x\r\n"], ["1", "0", "1"], ["0", "0", "1"]] := by
  intro t s
  have ht : 0 < t.columns.countP (!·.isSeparator) := by decide
  have h : t.toCsv = .ok s := by decide
  obtain ⟨hiff, hread⟩ := toCsv_lossless.1 t ht
  exact ⟨⟨ht, h⟩, hiff.1 ⟨s, h⟩, hread s h⟩

end TruthTables.Table
