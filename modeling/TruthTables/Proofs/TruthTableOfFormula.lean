import TruthTables.Proofs.EvaluationPass
import TruthTables.Proofs.RowNumbers
import TruthTables.Proofs.Words
import TruthTables.Table.Build

/-! # The table of a formula is its truth table -/
namespace TruthTables

namespace Formula

theorem kind_of_mem_compounds {φ χ : Formula} (h : χ ∈ φ.compounds) : χ.kind = .compound :=
  of_decide_eq_true (List.mem_filter.1 h).2

theorem mem_postorder_of_mem_compounds {φ χ : Formula} (h : χ ∈ φ.compounds) : χ ∈ φ.postorder :=
  mem_parts.1 (List.mem_filter.1 h).1

theorem symbol_mem_postorder {φ : Formula} {name : String} (h : name ∈ φ.symbols) :
    symbol name ∈ φ.postorder := by
  have hm : symbol name ∈ φ.postorder.filter (·.kind = .symbol) := by
    rw [filter_postorder]
    exact List.mem_map_of_mem (mem_symbols.1 h)
  exact (List.mem_filter.1 hm).1

theorem nodup_labels {φ : Formula} (hφ : φ.Plain) :
    (φ.symbols ++ φ.compounds.map label).Nodup := by
  have plain : ∀ χ ∈ φ.compounds, χ.Plain := fun χ hχ => hφ.of_mem (mem_postorder_of_mem_compounds hχ)
  rw [List.nodup_append]
  refine ⟨nodup_eraseDups _, ?_, ?_⟩
  · apply List.Nodup.map_on _ (φ.nodup_parts.filter _)
    intro χ hχ ψ hψ h
    exact label_injective (plain χ hχ) (plain ψ hψ) h
  · rintro name hname l hl rfl
    obtain ⟨χ, hχ, he⟩ := List.mem_map.1 hl
    have hp : (symbol name).Plain := hφ.of_mem (symbol_mem_postorder hname)
    obtain rfl := label_injective (plain χ hχ) hp he
    exact absurd (kind_of_mem_compounds hχ) (by simp)

end Formula

namespace Enumeration

/-- The pass that comes before all rows finds the names and labels of the formula. -/
theorem ofFormula_eq {φ : Formula} (hφ : φ.Plain) :
    ofFormula φ = ⟨φ, ⟨φ.symbols⟩, φ.compounds.map Formula.label, φ.label, 0⟩ := by
  have hv : Variables.ofList φ.symbols = ⟨φ.symbols⟩ := Variables.ofList_of_nodup (nodup_eraseDups _)
  simp only [ofFormula, Evaluation.labels_primitives hφ, Evaluation.labels_derived hφ,
    Evaluation.label_root, hv]

theorem rowCount_ofFormula {φ : Formula} (hφ : φ.Plain) (hn : φ.symbols.length ≤ 127) :
    (ofFormula φ).rowCount = 2 ^ φ.symbols.length := by
  rw [ofFormula_eq hφ]
  exact Variables.rowCount_of_le hn

theorem row_ofFormula {φ : Formula} (hφ : φ.Plain) (i : Nat) :
    (ofFormula φ).row i =
      ⟨i, φ.symbols.map ((⟨φ.symbols⟩ : Variables).valuation i).value,
        φ.compounds.map fun χ => decide (χ.Holds ((⟨φ.symbols⟩ : Variables).valuation i).value)⟩ := by
  rw [ofFormula_eq hφ]
  simp only [row, Evaluation.values_primitives hφ, Evaluation.values_derived hφ]

end Enumeration

namespace Table

theorem rows_ofFormula (φ : Formula) (separator : String) :
    (ofFormula φ separator).rows =
      (List.range (Enumeration.ofFormula φ).rowCount).map fun i =>
        Row.ofValues ((Enumeration.ofFormula φ).row i) := by
  have h : (Enumeration.ofFormula φ).take (Enumeration.ofFormula φ).remaining =
      (List.range (Enumeration.ofFormula φ).rowCount).map (Enumeration.ofFormula φ).row := by
    rw [Enumeration.take, Nat.min_self, List.range_eq_range']
    rfl
  rw [ofFormula, ofEnumeration, h, List.map_map]
  rfl

/-- A table with a column for every name, one column without values, and a column for every distinct
compound subformula that is no join. In the row with the number `i` the names have the bits of `i`, the first
of `n` names bit `n - 1`, and every other column says whether its formula holds for the names of the row. -/
structure IsTruthTableOf (t : Table) (φ : Formula) (separator : String) : Prop where
  title : t.title = φ.label
  columns : t.columns = φ.symbols.map (⟨·, .primitive⟩) ++
    ⟨separator, .separator⟩ :: φ.compounds.map fun χ => ⟨χ.label, .derived⟩
  labels_distinct : (t.valueColumns.map (·.label)).Nodup
  row_count : t.rows.length = 2 ^ φ.symbols.length
  row : ∀ i < 2 ^ φ.symbols.length, ∃ v : String → Bool,
    (∀ k name, φ.symbols[k]? = some name → v name = i.testBit (φ.symbols.length - 1 - k)) ∧
      t.rows[i]? = some (φ.symbols.map (fun name => .value (v name)) ++
        .blank :: φ.compounds.map fun χ => .value (decide (χ.Holds v)))

theorem columns_ofFormula {φ : Formula} (hφ : φ.Plain) (separator : String) :
    (ofFormula φ separator).columns = φ.symbols.map (⟨·, .primitive⟩) ++
      ⟨separator, .separator⟩ :: φ.compounds.map fun χ => ⟨χ.label, .derived⟩ := by
  simp only [ofFormula, ofEnumeration, header, Enumeration.ofFormula_eq hφ, List.map_map]
  rfl

/-- The table of a formula with plain names is its truth table, as long as a row number has a bit for every
name. All names that are read from a text are plain. -/
theorem ofFormula_isTruthTable :
    (∀ s ls, Lexeme.ofString s = .ok ls → ∀ l ∈ ls, ∀ name, l.token = .symbol name → PlainName name) ∧
      ∀ φ : Formula, φ.Plain → φ.symbols.length ≤ 127 → ∀ separator,
        (ofFormula φ separator).IsTruthTableOf φ separator := by
  refine ⟨fun s ls h l hl name hn => (Lexeme.properName_of_ofString h l hl name hn).plain, ?_⟩
  intro φ hφ hn separator
  have hcount := Enumeration.rowCount_ofFormula hφ hn
  refine {
    title := Evaluation.label_root φ _
    columns := columns_ofFormula hφ separator
    labels_distinct := ?labels_distinct
    row_count := ?row_count
    row := ?row }
  case labels_distinct =>
    have h := Formula.nodup_labels hφ
    rw [valueColumns, columns_ofFormula hφ]
    simpa [List.filter_append, List.filter_map, Function.comp_def, Column.isSeparator] using h
  case row_count => rw [rows_ofFormula, List.length_map, List.length_range, hcount]
  case row =>
    intro i hi
    refine ⟨((⟨φ.symbols⟩ : Variables).valuation i).value, fun k name hk => ?_, ?_⟩
    · exact Variables.value_valuation (nodup_eraseDups _) hk i
    · rw [rows_ofFormula, hcount, List.getElem?_map, List.getElem?_range hi, Option.map_some,
        Enumeration.row_ofFormula hφ, Row.ofValues, List.map_map, List.map_map]
      rfl

/-- A join that is hidden under another connective, and a name that is used twice. -/
theorem ofFormula_isTruthTable_hidden_join :
    let φ : Formula := .binary .and (.binary .join (.symbol "q") (.symbol "p")) (.not (.symbol "q"))
    (Lexeme.ofString "q" = .ok [⟨.symbol "q", 0⟩, ⟨.eof, 1⟩] ∧ PlainName "q") ∧
      φ.Plain ∧ φ.symbols.length ≤ 127 ∧ (ofFormula φ "|").IsTruthTableOf φ "|" := by
  have h : Lexeme.ofString "q" = .ok [⟨.symbol "q", 0⟩, ⟨.eof, 1⟩] := by rfl
  exact ⟨⟨h, ofFormula_isTruthTable.1 _ _ h ⟨.symbol "q", 0⟩ (by simp) _ rfl⟩, by decide, by decide,
    ofFormula_isTruthTable.2 _ (by decide) (by decide) "|"⟩

end Table

end TruthTables
