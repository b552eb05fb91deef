import TruthTables.Proofs.AlignedText

/-! # Aligned text is read back -/
namespace TruthTables

namespace Table

open Text

section Reading

structure Field where
  start : Nat
  length : Nat

/-- The runs of dashes in a line. The run before these characters is at `start` and has `n` dashes. -/
def dashes (start n : Nat) : List Char → List Field
  | '-' :: cs => dashes start (n + 1) cs
  | _ :: cs => if n = 0 then dashes (start + 1) 0 cs else ⟨start, n⟩ :: dashes (start + n + 1) 0 cs
  | [] => if n = 0 then [] else [⟨start, n⟩]

/-- How many fields follow each other from a place on, with two blanks between them. -/
def adjacent (start : Nat) : List Field → Nat
  | field :: fields => if field.start = start then adjacent (start + field.length + 2) fields + 1 else 0
  | [] => 0

def Field.label (header : String) (field : Field) : String := slice header field.start field.length

def Field.value (line : String) (field : Field) : Bool := charAt line (field.start + (field.length - 1) / 2) = '1'

/-- The labels and the rows of a text. The rule shows where they are, and that the blank of a row is behind the
fields that follow each other. -/
def readText (text : String) : Option (List String × List Row) :=
  match lines text with
  | _ :: _ :: header :: rule :: rows =>
    let fields := dashes 0 0 rule.toList
    some (fields.map (·.label header),
      rows.dropLast.map fun line => .parted (adjacent 0 fields) (fields.map (·.value line)))
  | _ => none

/-- The fields of columns with values, when the first column of all starts at a place. -/
def valueFields (start : Nat) : List Column → List Field
  | [] => []
  | c :: cs =>
    if c.isSeparator then valueFields (start + width c + 2) cs
    else ⟨start, width c⟩ :: valueFields (start + width c + 2) cs

theorem dashes_of_blank {cs : List Char} (h : ∀ i, cs.getD i ' ' = ' ') (start n : Nat) :
    dashes start n cs = dashes start n [] := by
  induction cs generalizing start n with
  | nil => rfl
  | cons c cs ih =>
    obtain rfl : c = ' ' := h 0
    have htail := ih fun i => h (i + 1)
    rw [dashes]
    · rw [htail, htail]
      rfl
    · decide

theorem dashes_congr {cs ds : List Char} (h : ∀ i, cs.getD i ' ' = ds.getD i ' ') (start n : Nat) :
    dashes start n cs = dashes start n ds := by
  induction cs generalizing ds start n with
  | nil => exact (dashes_of_blank (fun i => (h i).symm.trans List.getD_nil) start n).symm
  | cons c cs ih =>
    cases ds with
    | nil => exact dashes_of_blank (fun i => (h i).trans List.getD_nil) start n
    | cons d ds =>
      obtain rfl : c = d := h 0
      have htail : ∀ start n, dashes start n cs = dashes start n ds := ih fun i => h (i + 1)
      by_cases hc : c = '-'
      · subst hc
        exact htail start (n + 1)
      · rw [dashes, dashes, htail, htail]
        · exact fun h => hc h
        · exact fun h => hc h

theorem dashes_append_dashes (m start n : Nat) (cs : List Char) :
    dashes start n (List.replicate m '-' ++ cs) = dashes start (n + m) cs := by
  induction m generalizing n with
  | zero => rfl
  | succ m ih =>
    rw [List.replicate_succ, List.cons_append, dashes, ih, Nat.add_right_comm]
    rfl

theorem dashes_append_spaces (m start : Nat) (cs : List Char) :
    dashes start 0 (List.replicate m ' ' ++ cs) = dashes (start + m) 0 cs := by
  induction m generalizing start with
  | zero => rfl
  | succ m ih =>
    have hspace : dashes start 0 (List.replicate (m + 1) ' ' ++ cs) =
        dashes (start + 1) 0 (List.replicate m ' ' ++ cs) := rfl
    rw [hspace, ih, Nat.add_right_comm]
    rfl

theorem dashes_rules (start : Nat) (cs : List Column) :
    dashes start 0 (spread (cs.map rule)).toList = valueFields start cs := by
  induction cs generalizing start with
  | nil => rfl
  | cons c cs ih =>
    have hgap : "  ".toList = List.replicate 2 ' ' := rfl
    rw [List.map_cons, spread_cons, String.toList_append, String.toList_append, hgap, List.append_assoc, valueFields]
    cases hs : c.isSeparator with
    | true =>
      rw [rule_eq_spaces hs, spaces, String.toList_ofList, dashes_append_spaces, dashes_append_spaces, ih]
      rfl
    | false =>
      -- the first of the two blanks ends the run, which is not empty
      have hpos : width c ≠ 0 := Nat.ne_of_gt (Nat.le_max_left 1 _)
      have hend : ∀ rest, dashes start (width c) (List.replicate 2 ' ' ++ rest) =
          ⟨start, width c⟩ :: dashes (start + width c + 2) 0 rest := fun rest => by
        have hrun : dashes start (width c) (List.replicate 2 ' ' ++ rest) =
            if width c = 0 then dashes (start + 1) 0 (' ' :: rest)
            else ⟨start, width c⟩ :: dashes (start + width c + 1) 0 (' ' :: rest) := rfl
        rw [hrun, if_neg hpos]
        rfl
      rw [rule_eq_dashes hs, String.toList_ofList, dashes_append_dashes, Nat.zero_add, hend, ih]
      rfl

theorem eq_space_or_dash {cs : List Column} {d : Char}
    (h : d ∈ (spread (cs.map rule)).toList) : d = ' ' ∨ d = '-' := by
  rw [spread, String.toList_join, List.map_map, List.flatMap_map, List.mem_flatMap] at h
  obtain ⟨c, -, hd⟩ := h
  rw [Function.comp_apply, String.toList_append, List.mem_append] at hd
  rcases hd with hd | hd
  · rw [rule, String.toList_ofList] at hd
    obtain rfl := (List.mem_replicate.1 hd).2
    cases c.isSeparator
    · exact .inr rfl
    · exact .inl rfl
  · exact .inl (by simpa using hd)

theorem dashes_ruleLine (t : Table) : dashes 0 0 t.ruleLine.toList = valueFields 0 t.columns := by
  rw [← dashes_rules]
  refine dashes_congr (fun i => charAt_textLine fun hblank => ?_) 0 0
  rcases Nat.lt_or_ge i (spread (t.columns.map rule)).length with hi | hi
  · refine (eq_space_or_dash (charAt_mem hi)).resolve_right fun hdash => ?_
    rw [hdash] at hblank
    exact absurd hblank (by decide)
  · exact charAt_of_length_le hi

/-- The fields before the separator are the first ones up to a gap. -/
theorem adjacent_valueFields {ps ds : List Column} {c : Column} (hps : ∀ p ∈ ps, p.isSeparator = false)
    (hc : c.isSeparator = true) (hds : ∀ d ∈ ds, d.isSeparator = false) (start : Nat) :
    adjacent start (valueFields start (ps ++ c :: ds)) = ps.length := by
  induction ps generalizing start with
  | nil =>
    rw [List.nil_append, valueFields, if_pos hc]
    -- what follows the separator starts too late, or nothing follows
    cases ds with
    | nil => rfl
    | cons d ds =>
      have hd : d.isSeparator = false := hds d List.mem_cons_self
      rw [valueFields, hd, if_neg Bool.false_ne_true, adjacent, if_neg (by dsimp only; omega), List.length_nil]
  | cons p ps ih =>
    obtain ⟨hp, hps⟩ := List.forall_mem_cons.1 hps
    rw [List.cons_append, valueFields, hp, if_neg Bool.false_ne_true, adjacent, if_pos rfl, ih hps,
      List.length_cons]

/-- What is read in the fields of the columns with values, where it is known from something else in every column. -/
theorem map_valueFields {α β : Type} {f : Field → α} {g : β → Option α} {start : Nat} {cs : List Column}
    {bs : List β} (hlength : bs.length = cs.length)
    (h : ∀ (j : Nat) c, cs[j]? = some c → bs[j]?.map g = some (if c.isSeparator then none
      else some (f ⟨start + ((cs.take j).map (width · + 2)).sum, width c⟩))) :
    (valueFields start cs).map f = bs.filterMap g := by
  induction cs generalizing start bs with
  | nil => rw [List.eq_nil_of_length_eq_zero hlength]; rfl
  | cons c cs ih =>
    obtain ⟨b, bs, rfl⟩ := List.exists_cons_of_length_eq_add_one hlength
    have hfirst : g b = _ := Option.some.inj (h 0 c rfl)
    have htail : (valueFields (start + width c + 2) cs).map f = bs.filterMap g := by
      refine ih (Nat.succ.inj hlength) fun j d hj => ?_
      have hj := h (j + 1) d hj
      rw [List.take_succ_cons, List.map_cons, List.sum_cons, ← Nat.add_assoc, ← Nat.add_assoc] at hj
      exact hj
    rw [valueFields, List.filterMap_cons, hfirst, ← htail]
    cases c.isSeparator <;> rfl

variable {φ : Formula} {separator : String}

theorem adjacent_ofFormula (φ : Formula) (separator : String) :
    adjacent 0 (valueFields 0 (ofFormula φ separator).columns) = (ofFormula φ separator).primitiveCount := by
  have hcolumns : (ofFormula φ separator).columns = header (Enumeration.ofFormula φ) separator := rfl
  rw [primitiveCount_ofFormula, hcolumns, header, adjacent_valueFields (fun _ => isSeparator_of_mem_map (by decide))
    rfl (fun _ => isSeparator_of_mem_map (by decide)), List.length_map]

theorem labels_eq_filterMap (cs : List Column) :
    (cs.filter (!·.isSeparator)).map (·.label) = cs.filterMap Column.valueLabel? := by
  induction cs with
  | nil => rfl
  | cons c cs ih =>
    rw [List.filterMap_cons, ← ih, List.filter_cons, Column.valueLabel?]
    cases c.isSeparator <;> rfl

theorem Aligned.labels_eq {t : Table} (h : t.Aligned) :
    (valueFields 0 t.columns).map (·.label t.headerLine) = t.valueColumns.map (·.label) := by
  rw [valueColumns, labels_eq_filterMap]
  refine map_valueFields rfl fun j c hj => ?_
  rw [hj, Option.map_some, Column.valueLabel?, Nat.zero_add]
  cases hs : c.isSeparator with
  | true => rfl
  | false => exact congrArg (fun l => some (some l)) (h.label j c hj hs).symm

theorem Aligned.values_eq {t : Table} (h : t.Aligned) (ht : t = ofFormula φ separator) {r : Row} (hr : r ∈ t.rows) :
    (valueFields 0 t.columns).map (·.value (t.rowLine r)) = r.values := by
  have hlength : r.length = t.columns.length := by
    subst ht
    exact (ofFormula_linesUp φ separator).width r hr
  refine map_valueFields hlength fun j c hj => ?_
  cases hs : c.isSeparator with
  | true =>
    subst ht
    obtain ⟨cell, hcell, hblank⟩ := cell_of_mem hr hj
    rw [hcell, hblank.2 hs]
    rfl
  | false =>
    obtain ⟨b, hb, hchar⟩ := h.value r hr j c hj hs
    have hpos : 1 ≤ width c := Nat.le_max_left 1 _
    have hmiddle := hchar ((width c - 1) / 2) (by omega)
    have hvalue : Field.value (t.rowLine r) ⟨t.offset j, width c⟩ = b := by
      rw [Field.value, hmiddle, if_pos rfl]
      cases b <;> rfl
    rw [hb, Nat.zero_add]
    exact congrArg (fun b => some (some b)) hvalue.symm

/-- What is read from these lines is all of the table, apart from its title and the label of the separator. -/
theorem readText_of_lines {t : Table} (ht : t = ofFormula φ separator) (haligned : t.Aligned)
    {text first second : String}
    (htext : lines text = first :: second :: t.headerLine :: t.ruleLine :: t.rows.map t.rowLine ++ [""]) :
    readText text = some (t.valueColumns.map (·.label), t.rows) := by
  subst ht
  have hrows := map_parted (ofFormula φ separator).rowLine
    (fun line => (valueFields 0 (ofFormula φ separator).columns).map (·.value line))
    fun r hr => haligned.values_eq rfl hr
  rw [readText, htext]
  simp only [List.cons_append, List.dropLast_concat, dashes_ruleLine, haligned.labels_eq, adjacent_ofFormula, hrows]

end Reading

section Lines

variable {φ : Formula} {separator : String}

theorem label_of_isSeparator {c : Column} (hc : c ∈ (ofFormula φ separator).columns) (hs : c.isSeparator = true) :
    c.label = separator := by
  rcases List.mem_append.1 hc with hc | hc
  · exact nomatch hs.symm.trans (isSeparator_of_mem_map (by decide) hc)
  · rcases List.mem_cons.1 hc with rfl | hc
    · rfl
    · exact nomatch hs.symm.trans (isSeparator_of_mem_map (by decide) hc)

/-- Apart from the separator, nothing in a table can break a line. -/
theorem newline_not_mem_textLines (hφ : φ.Proper) (hs : '\n' ∉ separator.toList) :
    ∀ line ∈ (ofFormula φ separator).textLines, '\n' ∉ line.toList := by
  have hother : '\n'.isAlpha = false ∧ '\n' ∉ Formula.labelSigns := by decide
  have hlabel : ∀ c ∈ (ofFormula φ separator).columns, '\n' ∉ c.label.toList := by
    intro c hc
    cases hsep : c.isSeparator with
    | true => rwa [label_of_isSeparator hc hsep]
    | false =>
      obtain ⟨χ, hχ, hl⟩ := exists_label hφ hc hsep
      exact hl ▸ hχ.not_mem_label hother
  have hcell : ∀ cell : Cell, '\n' ∉ cell.text.toList := by
    intro cell
    cases cell with
    | value b => cases b <;> decide
    | blank => decide
  intro line hline
  rw [textLines, List.mem_cons, List.mem_cons, List.mem_cons, List.mem_cons, List.mem_map] at hline
  rcases hline with rfl | rfl | rfl | rfl | ⟨r, -, rfl⟩
  · have htitle : (ofFormula φ separator).title = φ.label := Evaluation.label_root φ _
    rw [String.toList_append, List.mem_append, not_or, htitle]
    exact ⟨by decide, hφ.not_mem_label hother⟩
  · exact List.not_mem_nil
  · refine not_mem_textLine (by decide) fun f hf => ?_
    obtain ⟨c, hc, rfl⟩ := List.mem_map.1 hf
    exact not_mem_justify (by decide) (hlabel c hc)
  · refine not_mem_textLine (by decide) fun f hf => ?_
    obtain ⟨c, -, rfl⟩ := List.mem_map.1 hf
    rw [rule, String.toList_ofList, List.mem_replicate]
    cases c.isSeparator <;> simp
  · refine not_mem_textLine (by decide) fun f hf => ?_
    obtain ⟨j, hj⟩ := List.mem_iff_getElem?.1 hf
    obtain ⟨cell, c, -, -, rfl⟩ := List.getElem?_zipWith_eq_some.1 hj
    exact not_mem_justify (by decide) (hcell cell)

/-- Aligned text of any width consists of its lines, which have every column at one place, and the table is read
off them. -/
theorem toText_aligned {s : String} {φ : Formula} (h : Formula.ofString s = .ok φ) {separator : String}
    (hs : '\n' ∉ separator.toList) :
    let t := ofFormula φ separator
    lines t.toText =
        ("Truth table for " ++ t.title) :: "" :: t.headerLine :: t.ruleLine :: t.rows.map t.rowLine ++ [""] ∧
      t.Aligned ∧ readText t.toText = some (t.valueColumns.map (·.label), t.rows) := by
  have hφ := (Formula.proper_of_ofString h).1
  have hlines := lines_join (newline_not_mem_textLines hφ hs)
  have haligned := ofFormula_aligned hφ separator
  exact ⟨hlines, haligned, readText_of_lines rfl haligned hlines⟩

/-- A separator with blanks around it, and a label of two characters that has its values under the first one. -/
theorem toText_aligned_negation :
    let φ : Formula := .not (.symbol "pq")
    let t := ofFormula φ " : "
    (Formula.ofString "¬pq" = .ok φ ∧ '\n' ∉ " : ".toList) ∧ t.Aligned ∧
      lines t.toText =
        ["Truth table for ¬pq", "", "pq   :   ¬pq", "--       ---", "0         1", "1         0", ""] ∧
      readText t.toText = some (["pq", "¬pq"],
        [[.value false, .blank, .value true], [.value true, .blank, .value false]]) := by
  intro φ t
  have h : Formula.ofString "¬pq" = .ok φ := Formula.ofString_label (φ := φ) (by decide) (by decide)
  have hs : '\n' ∉ " : ".toList := by decide
  obtain ⟨hlines, haligned, hread⟩ := toText_aligned h hs
  exact ⟨⟨h, hs⟩, haligned, hlines.trans (by decide), hread.trans (by decide)⟩

end Lines

end Table

end TruthTables
