import TruthTables.Proofs.PrintedLines
import TruthTables.Table.Latex

/-! # LaTeX environments are read back -/
namespace TruthTables.Table

open Text

namespace Latex

section Cells

/-- The parts of a line between the ampersands that have blanks around them. -/
def cut : List Char → List (List Char)
  | ' ' :: '&' :: ' ' :: cs => [] :: cut cs
  | c :: cs => (cut cs).modifyHead (c :: ·)
  | [] => [[]]

def cells (line : String) : List String := (cut (line.toList.take (line.length - 3))).map String.ofList

theorem cut_cons (c : Char) {cs : List Char} (h : cs.head? ≠ some '&') :
    cut (c :: cs) = (cut cs).modifyHead (c :: ·) := by
  rw [cut]
  rintro ds - rfl
  exact h rfl

theorem cut_append {cs : List Char} (hcs : '&' ∉ cs) (rest : List Char) (hrest : rest.head? ≠ some '&') :
    cut (cs ++ rest) = (cut rest).modifyHead (cs ++ ·) := by
  induction cs with
  | nil => cases h : cut rest <;> simp [h]
  | cons c cs ih =>
    obtain ⟨-, hcs⟩ := not_or.1 (mt List.mem_cons.2 hcs)
    -- a blank in the text is not taken for the one before an ampersand
    have hnext : (cs ++ rest).head? ≠ some '&' := by
      cases cs with
      | nil => exact hrest
      | cons d cs =>
        rintro h
        exact hcs (Option.some.inj h ▸ List.mem_cons_self)
    rw [List.cons_append, cut_cons c hnext, ih hcs, List.modifyHead_modifyHead]
    rfl

theorem cut_intercalate {fields : List (List Char)} (hne : fields ≠ []) (h : ∀ f ∈ fields, '&' ∉ f) :
    cut ([' ', '&', ' '].intercalate fields) = fields := by
  induction fields with
  | nil => exact absurd rfl hne
  | cons f fields ih =>
    obtain ⟨hf, hfields⟩ := List.forall_mem_cons.1 h
    cases fields with
    | nil =>
      have hcut := cut_append hf [] nofun
      rw [List.append_nil] at hcut
      rw [List.intercalate_singleton, hcut, cut, List.modifyHead_cons, List.append_nil]
    | cons g fields =>
      have hcut := cut_append hf ([' ', '&', ' '] ++ [' ', '&', ' '].intercalate (g :: fields)) (by simp)
      rw [List.intercalate_cons_cons, List.append_assoc, hcut, List.cons_append, List.cons_append,
        List.singleton_append, cut, ih (List.cons_ne_nil _ _) hfields, List.modifyHead_cons, List.append_nil]

end Cells

section Commands

def commandNames : List (List Char × Char) :=
  [("land".toList, '∧'), ("lor".toList, '∨'), ("oplus".toList, '⊕'), ("rightarrow".toList, '→'),
    ("equiv".toList, '≡'), ("lnot".toList, '¬')]

/-- What a backslash and the characters behind it stand for. The command has all of the letters that follow, and the
one for negation also the blank that follows these. -/
def expand (cs : List Char) : List Char :=
  match commandNames.lookup (cs.takeWhile Char.isAlpha) with
  | some '¬' => '¬' :: (cs.dropWhile Char.isAlpha).tail
  | some c => c :: cs.dropWhile Char.isAlpha
  | none => '\\' :: cs

def translate (c : Char) (cs : List Char) : List Char := if c = '\\' then expand cs else c :: cs

def unlabel (cell : String) : String := String.ofList (cell.toList.tail.dropLast.foldr translate [])

/-- Every command in a cell has a known name, and what follows is no letter. -/
def CommandsEnd (cs : List Char) : Prop :=
  ∀ u v, cs = u ++ '\\' :: v → ∃ name ∈ commandNames.map Prod.fst, ∃ c r, v = name ++ c :: r ∧ c.isAlpha = false

theorem commandsEnd_of_not_mem {cs : List Char} (h : '\\' ∉ cs) : CommandsEnd cs := by
  rintro u v rfl
  exact absurd (List.mem_append_right u List.mem_cons_self) h

theorem CommandsEnd.append {cs ds : List Char} (h : CommandsEnd cs) (h' : CommandsEnd ds) :
    CommandsEnd (cs ++ ds) := by
  intro u v heq
  rcases List.append_eq_append_iff.1 heq with ⟨w, hu, hds⟩ | ⟨w, hcs, hv⟩
  · exact h' w v hds
  · cases w with
    | nil => exact h' [] v hv.symm
    | cons d w =>
      obtain ⟨rfl, rfl⟩ := List.cons.inj hv
      obtain ⟨name, hname, c, r, rfl, hc⟩ := h u w hcs
      exact ⟨name, hname, c, r ++ ds, by simp, hc⟩

theorem commandsEnd_command {name : List Char} (h : name ∈ commandNames.map Prod.fst) :
    CommandsEnd ('\\' :: (name ++ [' '])) := by
  have hname : '\\' ∉ name ++ [' '] := by
    revert name
    decide
  intro u v heq
  cases u with
  | nil => exact ⟨name, h, ' ', [], (List.cons.inj heq).2.symm, rfl⟩
  | cons d u =>
    rw [(List.cons.inj heq).2] at hname
    exact absurd (List.mem_append_right u List.mem_cons_self) hname

/-- A text with commands, and the text with signs that it is written for. -/
inductive Spells : List Char → List Char → Prop
  | nil : Spells [] []
  | plain {c : Char} {cs ds : List Char} : c ≠ '\\' → Spells cs ds → Spells (c :: cs) (c :: ds)
  | connective {name : List Char} {c : Char} {cs ds : List Char} : (name, c) ∈ commandNames → c ≠ '¬' →
      Spells cs ds → Spells ('\\' :: (name ++ ' ' :: cs)) (c :: ' ' :: ds)
  | negation {cs ds : List Char} : Spells cs ds → Spells (command '¬' ++ cs) ('¬' :: ds)

theorem Spells.append {cs ds cs' ds' : List Char} (h : Spells cs ds) (h' : Spells cs' ds') :
    Spells (cs ++ cs') (ds ++ ds') := by
  induction h with
  | nil => exact h'
  | plain hc _ ih => exact .plain hc ih
  | connective hname hc _ ih =>
    rw [List.cons_append, List.append_assoc, List.cons_append]
    exact .connective hname hc ih
  | negation _ ih =>
    rw [List.append_assoc]
    exact .negation ih

theorem Spells.of_not_mem {cs : List Char} (h : '\\' ∉ cs) : Spells cs cs := by
  induction cs with
  | nil => exact .nil
  | cons c cs ih =>
    obtain ⟨hc, hcs⟩ := not_or.1 (mt List.mem_cons.2 h)
    exact .plain (Ne.symm hc) (ih hcs)

theorem Spells.commandsEnd {cs ds : List Char} (h : Spells cs ds) : CommandsEnd cs := by
  have hchunk {rest : List Char} (name : List Char) (hname : name ∈ commandNames.map Prod.fst)
      (hrest : CommandsEnd rest) : CommandsEnd ('\\' :: (name ++ ' ' :: rest)) := by
    have happend := (commandsEnd_command hname).append hrest
    rwa [List.cons_append, List.append_assoc, List.singleton_append] at happend
  induction h with
  | nil => exact commandsEnd_of_not_mem List.not_mem_nil
  | plain hc _ ih => exact (commandsEnd_of_not_mem (mt List.mem_singleton.1 (Ne.symm hc))).append ih
  | connective hname _ _ ih => exact hchunk _ (List.mem_map_of_mem hname) ih
  | negation _ ih => exact hchunk "lnot".toList (by decide) ih

theorem foldr_connective {name : List Char} {c : Char} (hname : (name, c) ∈ commandNames) (hc : c ≠ '¬')
    (cs : List Char) : ('\\' :: (name ++ [' '])).foldr translate cs = c :: ' ' :: cs := by
  simp only [commandNames, List.mem_cons, Prod.mk.injEq, List.not_mem_nil, or_false] at hname
  rcases hname with ⟨rfl, rfl⟩ | ⟨rfl, rfl⟩ | ⟨rfl, rfl⟩ | ⟨rfl, rfl⟩ | ⟨rfl, rfl⟩ | ⟨-, rfl⟩
  case inr.inr.inr.inr.inr => exact absurd rfl hc
  all_goals rfl

/-- The commands are translated back to the signs. -/
theorem Spells.foldr_translate {cs ds : List Char} (h : Spells cs ds) : cs.foldr translate [] = ds := by
  induction h with
  | nil => rfl
  | plain hc _ ih => rw [List.foldr_cons, ih, translate, if_neg hc]
  | @connective name c cs ds hname hc _ ih =>
    have hchunk : '\\' :: (name ++ ' ' :: cs) = '\\' :: (name ++ [' ']) ++ cs := by simp
    rw [hchunk, List.foldr_append, ih, foldr_connective hname hc]
  | negation _ ih =>
    rw [List.foldr_append, ih]
    rfl

variable {φ : Formula}

theorem flatMap_command {cs : List Char} (h : ∀ c ∈ cs, command c = [c]) : cs.flatMap command = cs := by
  induction cs with
  | nil => rfl
  | cons c cs ih =>
    obtain ⟨hc, hcs⟩ := List.forall_mem_cons.1 h
    rw [List.flatMap_cons, hc, ih hcs, List.singleton_append]

theorem command_of_not_mem {c : Char} (h : c ∉ commandNames.map Prod.snd) : command c = [c] := by
  fun_cases command c with
  | case7 => rfl
  | _ => exact absurd (by decide) h

theorem command_of_isAlpha {c : Char} (h : c.isAlpha = true) : command c = [c] := by
  have hsigns : (commandNames.map Prod.snd).all (!·.isAlpha) = true := by decide
  exact command_of_not_mem fun hc => by simpa [h] using List.all_eq_true.1 hsigns c hc

theorem spells_sign (d : Connective) : Spells (command d.sign ++ [' ']) [d.sign, ' '] := by
  cases d with
  | join => exact .of_not_mem (by decide)
  | _ => exact .connective (by decide) (by decide) .nil

/-- Every connective in a label has a blank behind it, and a negation brings one along. -/
theorem spells_label (hφ : φ.Proper) : Spells (φ.label.toList.flatMap command) φ.label.toList := by
  induction φ with
  | symbol name =>
    have hname : ∀ c ∈ name.toList, c.isAlpha = true := (hφ name (List.mem_singleton_self name)).2.1
    have hback : '\\' ∉ name.toList := fun h => absurd (hname _ h) (by decide)
    rw [Formula.label, flatMap_command fun c hc => command_of_isAlpha (hname c hc)]
    exact .of_not_mem hback
  | not φ ih =>
    rw [Formula.toList_label_not, List.flatMap_cons]
    exact .negation (ih hφ)
  | binary d φ ψ ihφ ihψ =>
    have hl := ihφ fun name hn => hφ name (List.mem_append_left _ hn)
    have hr := ihψ fun name hn => hφ name (List.mem_append_right _ hn)
    have hopen : Spells ['('] ['('] := .of_not_mem (by decide)
    have hblank : Spells [' '] [' '] := .of_not_mem (by decide)
    have hclose : Spells [')'] [')'] := .of_not_mem (by decide)
    have h := (((hopen.append hl).append hblank).append (spells_sign d)).append (hr.append hclose)
    rw [Formula.toList_label_binary]
    simpa [command] using h

end Commands

section Environment

def isTrue (cell : String) : Bool := cell = "1"

/-- The labels and the rows of an environment. The letters before the bar are the columns of the variables. -/
def read (text : String) : Option (List String × List Row) :=
  match lines text with
  | _ :: start :: header :: _ :: rows =>
    let place := ((start.toList.drop "\\begin\x7btabular\x7d\x7b".length).takeWhile (· = 'c')).length
    some ((cells header).map unlabel,
      rows.dropLast.dropLast.map fun line => .parted place ((cells line).map isTrue))
  | _ => none

/-- There is a letter for every column with values, and each line has as many cells. The bar is behind the letters
of the variables. In the header the commands end where they should, and stand for the signs of the labels. -/
structure WellFormed (t : Table) : Prop where
  alignment : (alignment t).toList =
    List.replicate t.primitiveCount 'c' ++ '|' :: List.replicate t.derivedCount 'c'
  letters : (Latex.alignment t).toList.count 'c' = t.valueColumns.length
  lines : ∀ line ∈ headerLine t :: t.rows.map rowLine,
    line = String.intercalate " & " (cells line) ++ " \\\\" ∧ (cells line).length = t.valueColumns.length
  commands : ∀ cell ∈ cells (headerLine t), CommandsEnd cell.toList
  labels : (cells (headerLine t)).map unlabel = t.valueColumns.map (·.label)
  digits : ∀ r ∈ t.rows, cells (rowLine r) = r.values.map Cell.digit

theorem cells_line {fields : List String} (hne : fields ≠ []) (h : ∀ f ∈ fields, '&' ∉ f.toList) :
    cells (line fields) = fields := by
  have hend : " \\\\".toList.length = 3 := rfl
  have hsep : " & ".toList = [' ', '&', ' '] := rfl
  have htake : (line fields).toList.take ((line fields).length - 3) =
      [' ', '&', ' '].intercalate (fields.map String.toList) := by
    rw [← String.length_toList, line, String.toList_append, List.length_append, hend, Nat.add_sub_cancel,
      List.take_left, String.toList_intercalate, hsep]
  have hfields : ∀ f ∈ fields.map String.toList, '&' ∉ f := by
    intro f hf
    obtain ⟨s, hs, rfl⟩ := List.mem_map.1 hf
    exact h s hs
  rw [cells, htake, cut_intercalate (mt List.map_eq_nil_iff.1 hne) hfields, List.map_map]
  exact (List.map_congr_left fun s _ => String.ofList_toList).trans (List.map_id _)

theorem not_mem_flatMap_command {cs : List Char} {d : Char}
    (hd : (commandNames.map Prod.snd).all (d ∉ command ·) = true) (h : d ∉ cs) : d ∉ cs.flatMap command := by
  intro hmem
  obtain ⟨c, hc, hdc⟩ := List.mem_flatMap.1 hmem
  by_cases hsign : c ∈ commandNames.map Prod.snd
  · exact of_decide_eq_true (List.all_eq_true.1 hd c hsign) hdc
  · rw [command_of_not_mem hsign, List.mem_singleton] at hdc
    exact h (hdc ▸ hc)

variable {separator : String}

theorem exists_written (hφ : φ.Proper) {c : Column} (hc : c ∈ (ofFormula φ separator).valueColumns) :
    ∃ χ : Formula, χ.Proper ∧ χ.label = c.label ∧ (label c.label).toList = χ.label.toList.flatMap command := by
  obtain ⟨hmem, hs⟩ := List.mem_filter.1 hc
  obtain ⟨χ, hχ, hl⟩ := exists_label hφ hmem (by simpa using hs)
  exact ⟨χ, hχ, hl, by rw [← hl, label, String.toList_ofList]⟩

theorem spells_column (hφ : φ.Proper) {c : Column} (hc : c ∈ (ofFormula φ separator).valueColumns) :
    Spells (label c.label).toList c.label.toList := by
  obtain ⟨χ, hχ, hl, hwritten⟩ := exists_written hφ hc
  rw [hwritten, ← hl]
  exact spells_label hχ

/-- Neither what stands between cells nor what ends a line is in a label. -/
theorem not_mem_column (hφ : φ.Proper) {c : Column} (hc : c ∈ (ofFormula φ separator).valueColumns) {d : Char}
    (hcommand : (commandNames.map Prod.snd).all (d ∉ command ·) = true)
    (hd : d.isAlpha = false ∧ d ∉ Formula.labelSigns) : d ∉ (label c.label).toList := by
  obtain ⟨χ, hχ, -, hwritten⟩ := exists_written hφ hc
  rw [hwritten]
  exact not_mem_flatMap_command hcommand (hχ.not_mem_label hd)

theorem cells_headerLine (hφ : φ.Proper) (separator : String) :
    cells (headerLine (ofFormula φ separator)) =
      (ofFormula φ separator).valueColumns.map fun c => "$" ++ label c.label ++ "$" := by
  refine cells_line (mt List.map_eq_nil_iff.1 (valueColumns_ofFormula φ separator).1) fun f hf => ?_
  obtain ⟨c, hc, rfl⟩ := List.mem_map.1 hf
  have hlabel := not_mem_column hφ hc (d := '&') (by decide) (by decide)
  simpa using hlabel

theorem cells_rowLine {r : Row} (hr : r ∈ (ofFormula φ separator).rows) :
    cells (rowLine r) = r.values.map Cell.digit := by
  obtain ⟨hcolumns, hrows⟩ := valueColumns_ofFormula φ separator
  have hne : r.values ≠ [] := by
    rw [← List.length_pos_iff, hrows r hr]
    exact List.length_pos_iff.2 hcolumns
  refine cells_line (mt List.map_eq_nil_iff.1 hne) fun f hf => ?_
  obtain ⟨b, -, rfl⟩ := List.mem_map.1 hf
  cases b <;> decide

theorem unlabel_cell {cs : List Char} {l : String} (h : Spells cs l.toList) :
    unlabel ("$" ++ String.ofList cs ++ "$") = l := by
  have hcell : ("$" ++ String.ofList cs ++ "$").toList = '$' :: (cs ++ ['$']) := by simp
  rw [unlabel, hcell, List.tail_cons, List.dropLast_concat, h.foldr_translate, String.ofList_toList]

theorem toList_alignment (φ : Formula) (separator : String) :
    (alignment (ofFormula φ separator)).toList = List.replicate (ofFormula φ separator).primitiveCount 'c' ++
      '|' :: List.replicate (ofFormula φ separator).derivedCount 'c' := by
  have hcolumns : (ofFormula φ separator).columns = header (Enumeration.ofFormula φ) separator := rfl
  have hletters {kind : ColumnKind} (hk : kind ≠ .separator) (labels : List String) :
      (labels.map (⟨·, kind⟩ : String → Column)).map (fun c => if c.isSeparator then '|' else 'c') =
        List.replicate labels.length 'c' := by
    rw [List.eq_replicate_iff, List.length_map, List.length_map]
    refine ⟨rfl, fun letter hletter => ?_⟩
    obtain ⟨c, hc, rfl⟩ := List.mem_map.1 hletter
    rw [isSeparator_of_mem_map hk hc, if_neg Bool.false_ne_true]
  rw [alignment, String.toList_ofList, primitiveCount_ofFormula, derivedCount_ofFormula, hcolumns, header,
    List.map_append, List.map_cons, hletters (by decide), hletters (by decide)]
  rfl

theorem ofFormula_wellFormed (hφ : φ.Proper) (separator : String) : WellFormed (ofFormula φ separator) := by
  have hheader := cells_headerLine hφ separator
  refine {
    alignment := toList_alignment φ separator
    letters := ?letters
    lines := ?lines
    commands := ?commands
    labels := ?labels
    digits := fun r hr => cells_rowLine hr }
  case letters =>
    have hlabels := congrArg List.length (labels_header_values (Enumeration.ofFormula φ) separator)
    rw [List.length_map, List.length_append] at hlabels
    rw [toList_alignment, List.count_append, List.count_cons_of_ne (by decide), List.count_replicate_self,
      List.count_replicate_self, primitiveCount_ofFormula, derivedCount_ofFormula]
    exact hlabels.symm
  case lines =>
    intro line hline
    rw [List.mem_cons, List.mem_map] at hline
    rcases hline with rfl | ⟨r, hr, rfl⟩
    · rw [hheader, List.length_map]
      exact ⟨rfl, rfl⟩
    · rw [cells_rowLine hr, List.length_map]
      exact ⟨rfl, (valueColumns_ofFormula φ separator).2 r hr⟩
  case commands =>
    intro cell hcell
    rw [hheader] at hcell
    obtain ⟨c, hc, rfl⟩ := List.mem_map.1 hcell
    have hdollar : CommandsEnd ['$'] := commandsEnd_of_not_mem (by decide)
    have h := (hdollar.append (spells_column hφ hc).commandsEnd).append hdollar
    simpa using h
  case labels =>
    rw [hheader, List.map_map]
    refine List.map_congr_left fun c hc => ?_
    have hlabel := unlabel_cell (spells_column hφ hc)
    rwa [String.ofList_toList] at hlabel

/-- There is no line break in a line, since the separator is left out. -/
theorem newline_not_mem_latexLines (hφ : φ.Proper) (separator : String) :
    ∀ line ∈ (ofFormula φ separator).latexLines, '\n' ∉ line.toList := by
  have hother : '\n'.isAlpha = false ∧ '\n' ∉ Formula.labelSigns := by decide
  have hfields {fields : List String} (h : ∀ f ∈ fields, '\n' ∉ f.toList) : '\n' ∉ (line fields).toList := by
    rw [line, String.toList_append, List.mem_append, not_or]
    exact ⟨not_mem_intercalate (by decide) h, by decide⟩
  intro line hline
  simp only [latexLines, List.cons_append, List.mem_cons, List.mem_append, List.mem_map, List.not_mem_nil,
    or_false] at hline
  rcases hline with rfl | rfl | rfl | rfl | ⟨r, -, rfl⟩ | rfl
  · have htitle : (ofFormula φ separator).title = φ.label := Evaluation.label_root φ _
    rw [String.toList_append, List.mem_append, not_or, htitle]
    exact ⟨by decide, hφ.not_mem_label hother⟩
  · have hspec : '\n' ∉ (alignment (ofFormula φ separator)).toList := by
      rw [toList_alignment]
      simp
    simpa using hspec
  · refine hfields fun f hf => ?_
    obtain ⟨c, hc, rfl⟩ := List.mem_map.1 hf
    have hlabel := not_mem_column hφ hc (d := '\n') (by decide) hother
    simpa using hlabel
  · decide
  · refine hfields fun f hf => ?_
    obtain ⟨b, -, rfl⟩ := List.mem_map.1 hf
    cases b <;> decide
  · decide

theorem isTrue_digit (b : Bool) : isTrue (Cell.digit b) = b := by
  cases b <;> rfl

/-- What is read from these lines is all of the table, apart from its title and the label of the separator. -/
theorem read_of_lines {t : Table} (ht : t = ofFormula φ separator) (h : WellFormed t)
    {text first rule last : String}
    (htext : Text.lines text = first :: ("\\begin\x7btabular\x7d\x7b" ++ alignment t ++ "\x7d") ::
      headerLine t :: rule :: t.rows.map rowLine ++ [last, ""]) :
    read text = some (t.valueColumns.map (·.label), t.rows) := by
  have hplace : ((("\\begin\x7btabular\x7d\x7b" ++ alignment t ++ "\x7d").toList.drop
      "\\begin\x7btabular\x7d\x7b".length).takeWhile (· = 'c')).length = t.primitiveCount := by
    rw [String.toList_append, String.toList_append, List.append_assoc, ← String.length_toList, List.drop_left,
      h.alignment, List.append_assoc, List.takeWhile_append_of_pos (by simp), List.cons_append,
      List.takeWhile_cons_of_neg (by decide), List.append_nil, List.length_replicate]
  have hvalues : ∀ r ∈ t.rows, (cells (rowLine r)).map isTrue = r.values := by
    intro r hr
    rw [h.digits r hr, List.map_map]
    exact (List.map_congr_left fun b _ => isTrue_digit b).trans (List.map_id _)
  have hend : (t.rows.map rowLine ++ [last, ""]).dropLast.dropLast = t.rows.map rowLine := by
    rw [List.dropLast_append_cons, List.dropLast_cons_cons, List.dropLast_singleton, List.dropLast_concat]
  subst ht
  have hrows := map_parted rowLine (fun line => (cells line).map isTrue) hvalues
  rw [read, htext]
  simp only [List.cons_append, hplace, hend, h.labels, hrows]

end Environment

end Latex

/-- An environment has a letter in its alignment and a cell in each line for every column with values, no letter
follows any of its commands, and the table is read off it. -/
theorem toLatex_lossless {s : String} {φ : Formula} (h : Formula.ofString s = .ok φ) (separator : String) :
    let t := ofFormula φ separator
    lines t.toLatex = ("% truth table for " ++ t.title) ::
        ("\\begin\x7btabular\x7d\x7b" ++ Latex.alignment t ++ "\x7d") ::
        Latex.headerLine t :: "\\hline" :: t.rows.map Latex.rowLine ++ ["\\end\x7btabular\x7d", ""] ∧
      Latex.WellFormed t ∧ Latex.read t.toLatex = some (t.valueColumns.map (·.label), t.rows) := by
  have hφ := (Formula.proper_of_ofString h).1
  have hlines := lines_join (Latex.newline_not_mem_latexLines hφ separator)
  rw [latexLines, List.append_assoc] at hlines
  have hwell := Latex.ofFormula_wellFormed hφ separator
  exact ⟨hlines, hwell, Latex.read_of_lines rfl hwell hlines⟩

/-- A name right behind a negation, and a separator that would break lines if it were written. -/
theorem toLatex_lossless_implication :
    let φ : Formula := .binary .implies (.not (.symbol "p")) (.symbol "q")
    let t := ofFormula φ "\n"
    Formula.ofString "(¬p → q)" = .ok φ ∧ Latex.WellFormed t ∧
      lines t.toLatex = ["% truth table for (¬p → q)", "\\begin\x7btabular\x7d\x7bcc|cc\x7d",
        "$p$ & $q$ & $\\lnot p$ & $(\\lnot p \\rightarrow q)$ \\\\", "\\hline", "0 & 0 & 1 & 0 \\\\",
        "0 & 1 & 1 & 1 \\\\", "1 & 0 & 0 & 1 \\\\", "1 & 1 & 0 & 1 \\\\", "\\end\x7btabular\x7d", ""] ∧
      Latex.read t.toLatex = some (["p", "q", "¬p", "(¬p → q)"],
        [[.value false, .value false, .blank, .value true, .value false],
          [.value false, .value true, .blank, .value true, .value true],
          [.value true, .value false, .blank, .value false, .value true],
          [.value true, .value true, .blank, .value false, .value true]]) := by
  intro φ t
  have h : Formula.ofString "(¬p → q)" = .ok φ := Formula.ofString_label (φ := φ) (by decide) (by decide)
  obtain ⟨hlines, hwell, hread⟩ := toLatex_lossless h "\n"
  exact ⟨h, hwell, hlines.trans (by decide), hread.trans (by decide)⟩

end TruthTables.Table
