import TruthTables.Proofs.ColumnLookup
import TruthTables.Proofs.PrintedFormulas

/-! # A table decides validity -/
namespace TruthTables

theorem Formula.holds_congr {v w : String → Bool} {φ : Formula} (h : ∀ name ∈ φ.symbols, v name = w name) :
    φ.Holds v ↔ φ.Holds w := by
  rw [← eval_eq_true_iff, ← eval_eq_true_iff, eval_congr fun name hn => h name (mem_symbols.2 hn)]

theorem Row.take_ofValues (v : RowValues) :
    (ofValues v).take v.primitives.length = v.primitives.map .value := by
  rw [ofValues, ← List.length_map Cell.value, List.take_left]

/-- As long as a row number has a bit for every variable, every choice of values has exactly one row. -/
theorem Enumeration.existsUnique_row {φ : Formula} (hφ : φ.Plain) (hn : φ.symbols.length ≤ 127)
    (v : String → Bool) :
    ∃! i, i < (ofFormula φ).rowCount ∧
      ∀ name ∈ φ.symbols, ((ofFormula φ).vars.valuation i).value name = v name := by
  have hnodup : (⟨φ.symbols⟩ : Variables).names.Nodup := nodup_eraseDups _
  have hcount : (⟨φ.symbols⟩ : Variables).rowCount = 2 ^ φ.symbols.length := Variables.rowCount_of_le hn
  rw [rowCount, ofFormula_eq hφ]
  exact Variables.existsUnique_row hnodup (hcount ▸ Variables.rowOf_lt _ v)

namespace Table

section Columns

variable {φ χ : Formula}

theorem get?_part (hφ : φ.Plain) (hχ : χ ∈ φ.parts) (ν : Valuation) :
    ∃ i, (Evaluation.run φ ν).get? χ.label = some (Evaluation.elementOf ν i χ) := by
  have plain : ∀ ψ ∈ φ.parts, ψ.Plain := fun ψ hψ => hφ.of_mem (Formula.mem_parts.1 hψ)
  have hl : ∀ ψ ∈ φ.parts, ψ.label = χ.label → ψ = χ := fun ψ hψ =>
    Formula.label_injective (plain ψ hψ) (plain χ hχ)
  obtain ⟨i, hfound, -⟩ := Evaluation.find?_elementsOf_of_mem ν hl hχ
  exact ⟨i, by rw [Evaluation.get?, Evaluation.elements_run hφ, hfound]⟩

theorem columnValues_label (hφ : φ.Plain) (hχ : χ ∈ φ.parts) (hk : χ.kind ≠ .join) (separator : String) :
    (ofFormula φ separator).columnValues χ.label =
      .ok (some ((List.range (Enumeration.ofFormula φ).rowCount).map fun i =>
        decide (χ.Holds ((Enumeration.ofFormula φ).vars.valuation i).value))) := by
  obtain ⟨i, hget⟩ := get?_part hφ hχ .empty
  obtain ⟨j, c, hj, hs, hl⟩ := exists_column separator
    (Evaluation.some_mem_displayed.2 ⟨List.mem_of_find?_eq_some hget, decide_eq_true hk⟩)
  have hc : c.label = χ.label := hl
  rw [← hc, columnValues_eq hj hs, hc]
  refine congrArg (fun bs => Except.ok (some bs)) (List.map_congr_left fun i _ => ?_)
  obtain ⟨k, hget⟩ := get?_part hφ hχ ((Enumeration.ofFormula φ).vars.valuation i)
  rw [valueIn, hget, Option.any_some, Formula.decide_holds]
  rfl

theorem take_row (hφ : φ.Plain) (separator : String) (i : Nat) :
    (Row.ofValues ((Enumeration.ofFormula φ).row i)).take (ofFormula φ separator).primitiveCount =
      φ.symbols.map fun name => .value (((Enumeration.ofFormula φ).vars.valuation i).value name) := by
  rw [primitiveCount_ofFormula, ← (Enumeration.length_row φ i).1, Row.take_ofValues,
    Enumeration.row_ofFormula hφ, List.map_map, Enumeration.ofFormula_eq hφ]
  rfl

end Columns

/-- The column under the title has a value in every row. Its values are all true just if the formula is valid,
and all false just if it is not satisfiable, and every choice of values for the variables has one row. -/
structure DecidesValidity (t : Table) (φ : Formula) : Prop where
  values : ∃ vs, t.columnValues t.title = .ok (some vs) ∧ vs.length = t.rows.length ∧
    ((∀ b ∈ vs, b = true) ↔ ∀ v, φ.Holds v) ∧ ((∀ b ∈ vs, b = false) ↔ ∀ v, ¬φ.Holds v)
  row_of_values : ∀ v : String → Bool, ∃! i : Nat, ∃ r : Row, t.rows[i]? = some r ∧
    r.take t.primitiveCount = φ.symbols.map fun name => .value (v name)

theorem decidesValidity_of_plain {φ : Formula} (hφ : φ.Plain) (hn : φ.symbols.length ≤ 127)
    (hk : φ.kind ≠ .join) (separator : String) : (ofFormula φ separator).DecidesValidity φ := by
  have htitle : (ofFormula φ separator).title = φ.label := Evaluation.label_root φ _
  have hpart : φ ∈ φ.parts := List.mem_of_getLast? φ.getLast?_parts
  -- a row speaks for every valuation that gives the variables its values
  have holds_row : ∀ v, ∃ i < (Enumeration.ofFormula φ).rowCount,
      φ.Holds ((Enumeration.ofFormula φ).vars.valuation i).value ↔ φ.Holds v := fun v => by
    obtain ⟨i, ⟨hi, hv⟩, -⟩ := Enumeration.existsUnique_row hφ hn v
    exact ⟨i, hi, Formula.holds_congr hv⟩
  refine ⟨⟨_, htitle ▸ columnValues_label hφ hpart hk separator, ?_, ?_, ?_⟩, fun v => ?_⟩
  · rw [List.length_map, List.length_range, rows_ofFormula, List.length_map, List.length_range]
  · simp only [List.forall_mem_map, List.mem_range, decide_eq_true_eq]
    refine ⟨fun h v => ?_, fun h i _ => h _⟩
    obtain ⟨i, hi, hv⟩ := holds_row v
    exact hv.1 (h i hi)
  · simp only [List.forall_mem_map, List.mem_range, decide_eq_false_iff_not]
    refine ⟨fun h v hv' => ?_, fun h i _ => h _⟩
    obtain ⟨i, hi, hv⟩ := holds_row v
    exact h i hi (hv.2 hv')
  · obtain ⟨i, ⟨hi, hv⟩, unique⟩ := Enumeration.existsUnique_row hφ hn v
    refine ⟨i, ⟨Row.ofValues ((Enumeration.ofFormula φ).row i), ?_, ?_⟩, fun k ⟨r, hr, ht⟩ => ?_⟩
    · rw [rows_ofFormula, List.getElem?_map, List.getElem?_range hi, Option.map_some]
    · rw [take_row hφ]
      exact List.map_congr_left fun name hname => by rw [hv name hname]
    · have hk : k < (ofFormula φ separator).rows.length := (List.getElem?_eq_some_iff.1 hr).1
      rw [rows_ofFormula, List.length_map, List.length_range] at hk
      rw [getElem?_rows_ofFormula hr, take_row hφ, List.map_inj_left] at ht
      exact unique k ⟨hk, fun name hname => Cell.value.inj (ht name hname)⟩

/-- The table of a formula that is read from a text decides whether it is valid and whether it can be
satisfied, unless the formula is a join, which has no column, or has more than 127 variables. -/
theorem columnValues_title_decides :
    ∀ s φ, Formula.ofString s = .ok φ → φ.symbols.length ≤ 127 → (∀ ψ χ, φ ≠ .binary .join ψ χ) →
      ∀ separator, (ofFormula φ separator).DecidesValidity φ := by
  intro s φ h hn hj separator
  have hk : φ.kind ≠ .join := fun hk => by
    obtain ⟨ψ, χ, he⟩ := Formula.kind_eq_join_iff.1 hk
    exact hj ψ χ he
  exact decidesValidity_of_plain (Formula.proper_of_ofString h).1.plain hn hk separator

/-- A tautology with a join inside it, under a separator that is the title. -/
theorem columnValues_title_decides_modus_ponens :
    let φ : Formula := .binary .implies
      (.binary .join (.symbol "p") (.binary .implies (.symbol "p") (.symbol "q"))) (.symbol "q")
    let s := "((p , (p → q)) → q)"
    (Formula.ofString s = .ok φ ∧ φ.symbols.length ≤ 127 ∧ ∀ ψ χ, φ ≠ .binary .join ψ χ) ∧
      (ofFormula φ s).DecidesValidity φ ∧
      (ofFormula φ s).columnValues s = .ok (some [true, true, true, true]) := by
  intro φ s
  have h : Formula.ofString φ.label = .ok φ := Formula.ofString_label (by decide) (by decide)
  have hs : φ.label = s := by decide
  rw [hs] at h
  have hj : ∀ ψ χ, φ ≠ .binary .join ψ χ := fun ψ χ he => by simp [φ] at he
  exact ⟨⟨h, by decide, hj⟩, columnValues_title_decides s φ h (by decide) hj s, by decide⟩

end Table

end TruthTables
