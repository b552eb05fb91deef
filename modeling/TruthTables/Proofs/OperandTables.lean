import Mathlib.Data.List.Perm.Subperm
import TruthTables.Proofs.Validity

/-! # The table of a compound and the tables of its operands -/
namespace TruthTables

namespace Formula

variable {c : Connective} {φ ψ : Formula}

theorem symbols_binary : (binary c φ ψ).symbols = φ.symbols ++ ψ.symbols.filter (· ∉ φ.symbols) :=
  eraseDups_append_filter φ.leaves ψ.leaves

theorem postorder_subset_left : φ.postorder ⊆ (binary c φ ψ).postorder := fun _ h =>
  List.mem_append_left _ (List.mem_append_left _ h)

theorem postorder_subset_right : ψ.postorder ⊆ (binary c φ ψ).postorder := fun _ h =>
  List.mem_append_left _ (List.mem_append_right _ h)

/-- A formula is not among the subformulas of its operands. -/
theorem parts_binary : (binary c φ ψ).parts = φ.parts ++ ψ.parts.filter (· ∉ φ.parts) ++ [binary c φ ψ] := by
  have hnew : binary c φ ψ ∉ φ.postorder ++ ψ.postorder := by
    obtain ⟨l, hl, hh⟩ := postorder_eq_concat (binary c φ ψ)
    rw [List.append_left_injective _ hl]
    exact fun h => Nat.lt_irrefl _ (hh _ h)
  rw [parts, postorder, eraseDups_concat, if_neg hnew, eraseDups_append_filter]
  rfl

theorem compounds_binary : (binary c φ ψ).compounds =
    φ.compounds ++ ψ.compounds.filter (· ∉ φ.compounds) ++ if c = .join then [] else [binary c φ ψ] := by
  have hold : (ψ.parts.filter (· ∉ φ.parts)).filter (·.kind = .compound) =
      ψ.compounds.filter (· ∉ φ.compounds) := by
    rw [List.filter_comm]
    refine List.filter_congr fun χ hχ => ?_
    simp only [compounds, List.mem_filter, (List.mem_filter.1 hχ).2, and_true]
  rw [compounds, parts_binary, List.filter_append, List.filter_append, hold]
  by_cases h : c = .join <;> simp [h, compounds]

end Formula

theorem Formula.length_symbols_le_of_mem {χ φ : Formula} (h : χ ∈ φ.postorder) :
    χ.symbols.length ≤ φ.symbols.length :=
  ((nodup_eraseDups χ.leaves).subperm (symbols_subset_of_mem h)).length_le

namespace Variables

/-- The row number of other variables that has the bits of `row`, one after the other. -/
def collect (vs others : Variables) (row : Nat) : Nat :=
  others.names.foldl (fun bits name => 2 * bits + (row.testBit (vs.bit (vs.names.idxOf name))).toNat) 0

theorem collect_concat (vs : Variables) (names : List String) (name : String) (row : Nat) :
    vs.collect ⟨names ++ [name]⟩ row =
      2 * vs.collect ⟨names⟩ row + (row.testBit (vs.bit (vs.names.idxOf name))).toNat := by
  rw [collect, List.foldl_append]
  rfl

theorem collect_lt (vs : Variables) (names : List String) (row : Nat) :
    vs.collect ⟨names⟩ row < 2 ^ names.length := by
  induction names using List.reverseRecOn with
  | nil => exact Nat.one_pos
  | append_singleton names name ih =>
    have hbit := Bool.toNat_lt (row.testBit (vs.bit (vs.names.idxOf name)))
    rw [collect_concat, List.length_append, List.length_singleton, Nat.pow_succ]
    omega

theorem testBit_collect (vs : Variables) {names : List String} {place : Nat} {name : String}
    (h : names[place]? = some name) (row : Nat) :
    (vs.collect ⟨names⟩ row).testBit (names.length - 1 - place) =
      row.testBit (vs.bit (vs.names.idxOf name)) := by
  induction names using List.reverseRecOn with
  | nil => simp at h
  | append_singleton names last ih =>
    rw [collect_concat, List.length_append, List.length_singleton, Nat.add_sub_cancel]
    obtain ⟨hlt, -⟩ := List.getElem?_eq_some_iff.1 h
    rw [List.length_append, List.length_singleton] at hlt
    rcases Nat.lt_or_eq_of_le (Nat.le_of_lt_succ hlt) with hlt | rfl
    · have hsucc : names.length - place = names.length - 1 - place + 1 := by omega
      rw [List.getElem?_append_left hlt] at h
      rw [hsucc, Nat.testBit_succ, ← ih h]
      congr 1
      have hbit := Bool.toNat_lt (row.testBit (vs.bit (vs.names.idxOf last)))
      omega
    · rw [List.getElem?_concat_length, Option.some.injEq] at h
      rw [h, Nat.sub_self, Nat.testBit_zero]
      cases row.testBit (vs.bit (vs.names.idxOf name)) <;> simp

theorem value_valuation_idxOf {vs : Variables} (hn : vs.names.Nodup) {name : String} (h : name ∈ vs.names)
    (row : Nat) : (vs.valuation row).value name = row.testBit (vs.bit (vs.names.idxOf name)) :=
  value_valuation hn (List.getElem?_idxOf h) row

/-- Variables that come first keep their values when the bits of all the others are shifted out. -/
theorem value_valuation_shiftRight {names others : List String} (hn : (names ++ others).Nodup) {name : String}
    (h : name ∈ names) (row : Nat) :
    ((⟨names⟩ : Variables).valuation (row >>> others.length)).value name =
      ((⟨names ++ others⟩ : Variables).valuation row).value name := by
  have hlt : names.idxOf name < names.length := List.idxOf_lt_length_of_mem h
  have hshift : others.length + (names.length - 1 - names.idxOf name) =
      names.length + others.length - 1 - names.idxOf name := by omega
  rw [value_valuation_idxOf hn (List.mem_append_left _ h), value_valuation_idxOf (List.nodup_append.1 hn).1 h,
    Nat.testBit_shiftRight]
  simp only [bit, size, List.idxOf_append, if_pos h, List.length_append, hshift]

theorem value_valuation_collect {vs others : Variables} (hn : vs.names.Nodup) (ho : others.names.Nodup)
    (hs : others.names ⊆ vs.names) {name : String} (h : name ∈ others.names) (row : Nat) :
    (others.valuation (vs.collect others row)).value name = (vs.valuation row).value name := by
  rw [value_valuation_idxOf hn (hs h), value_valuation_idxOf ho h]
  exact testBit_collect vs (List.getElem?_idxOf h) row

end Variables

namespace Table

def columnsOf (t : Table) (kind : ColumnKind) : List Column := t.columns.filter (·.kind = kind)

def vars (t : Table) : Variables := ⟨(t.columnsOf .primitive).map (·.label)⟩

structure HasSize (t : Table) (n : Nat) : Prop where
  primitive : t.primitiveCount = n
  rows : t.rows.length = 2 ^ n

/-- Every column of values of `t'` is a column of `t`, and each of `count` rows has the value that is in the row of
`t'` at its place. -/
def TakesValues (t t' : Table) (count : Nat) (place : Nat → Nat) : Prop :=
  ∀ l ∈ t'.valueColumns.map (·.label), ∃ vs vs', t.columnValues l = .ok (some vs) ∧
    t'.columnValues l = .ok (some vs') ∧ ∀ i < count, ∃ b, vs[i]? = some b ∧ vs'[place i]? = some b

/-- The columns of a compound with `n` variables are those of its operands and its own, which a join does not have,
and the values in its rows are those in the tables of the operands. -/
structure ExtendsOperands (t t₁ t₂ : Table) (n n₁ n₂ : Nat) (c : Connective) (label : String) : Prop where
  size : t.HasSize n
  sizeLeft : t₁.HasSize n₁
  sizeRight : t₂.HasSize n₂
  primitive : t.columnsOf .primitive =
    t₁.columnsOf .primitive ++ (t₂.columnsOf .primitive).filter (· ∉ t₁.columns)
  derived : t.columnsOf .derived = t₁.columnsOf .derived ++ (t₂.columnsOf .derived).filter (· ∉ t₁.columns) ++
    if c = .join then [] else [⟨label, .derived⟩]
  left : t.TakesValues t₁ (2 ^ n) fun i => i >>> (n - n₁)
  right : t.TakesValues t₂ (2 ^ n) (t.vars.collect t₂.vars)

section Columns

variable {φ : Formula} (hφ : φ.Plain) (separator : String)
include hφ

theorem columnsOf_primitive :
    (ofFormula φ separator).columnsOf .primitive = φ.symbols.map (⟨·, .primitive⟩) := by
  simp [columnsOf, columns_ofFormula hφ, List.filter_append, List.filter_map, Function.comp_def]

theorem columnsOf_derived :
    (ofFormula φ separator).columnsOf .derived = φ.compounds.map fun χ => ⟨χ.label, .derived⟩ := by
  simp [columnsOf, columns_ofFormula hφ, List.filter_append, List.filter_map, Function.comp_def]

theorem vars_ofFormula : (ofFormula φ separator).vars = ⟨φ.symbols⟩ := by
  simp [vars, columnsOf_primitive hφ, Function.comp_def]

theorem hasSize_ofFormula (hn : φ.symbols.length ≤ 127) :
    (ofFormula φ separator).HasSize φ.symbols.length where
  primitive := by rw [primitiveCount_ofFormula, Enumeration.ofFormula_eq hφ]
  rows := by rw [rows_ofFormula, List.length_map, List.length_range, Enumeration.rowCount_ofFormula hφ hn]

theorem primitive_mem_columns {name : String} :
    ⟨name, .primitive⟩ ∈ (ofFormula φ separator).columns ↔ name ∈ φ.symbols := by
  simp [columns_ofFormula hφ]

theorem derived_mem_columns {χ : Formula} (hχ : χ.Plain) :
    ⟨χ.label, .derived⟩ ∈ (ofFormula φ separator).columns ↔ χ ∈ φ.compounds := by
  have hinj : ∀ θ ∈ φ.compounds, θ.label = χ.label → θ = χ := fun θ hθ h =>
    Formula.label_injective (hφ.of_mem (Formula.mem_postorder_of_mem_compounds hθ)) hχ h
  simp only [columns_ofFormula hφ, List.mem_append, List.mem_map, List.mem_cons, Column.mk.injEq, reduceCtorEq,
    and_false, false_or, exists_false, and_true]
  exact ⟨fun ⟨θ, hθ, h⟩ => hinj θ hθ h ▸ hθ, fun h => ⟨χ, h, rfl⟩⟩

theorem exists_part_of_label {l : String} (h : l ∈ (ofFormula φ separator).valueColumns.map (·.label)) :
    ∃ χ ∈ φ.parts, χ.kind ≠ .join ∧ χ.label = l := by
  obtain ⟨col, hcol, rfl⟩ := List.mem_map.1 h
  obtain ⟨hmem, hvalue⟩ := List.mem_filter.1 hcol
  rw [columns_ofFormula hφ, List.mem_append, List.mem_cons] at hmem
  rcases hmem with hmem | rfl | hmem
  · obtain ⟨name, hname, rfl⟩ := List.mem_map.1 hmem
    exact ⟨.symbol name, Formula.mem_parts.2 (Formula.symbol_mem_postorder hname), by simp, rfl⟩
  · simp [Column.isSeparator] at hvalue
  · obtain ⟨χ, hχ, rfl⟩ := List.mem_map.1 hmem
    exact ⟨χ, (List.mem_filter.1 hχ).1, by simp [Formula.kind_of_mem_compounds hχ], rfl⟩

end Columns

/-- The rows of a table have the values of another table, if every one has the values of the other's variables. -/
theorem takesValues_ofFormula {φ χ : Formula} (hφ : φ.Plain) (hn : φ.symbols.length ≤ 127)
    (hχ : χ.postorder ⊆ φ.postorder) {place : Nat → Nat}
    (hplace : ∀ i < 2 ^ φ.symbols.length, place i < 2 ^ χ.symbols.length)
    (hv : ∀ i, ∀ name ∈ χ.symbols, ((⟨χ.symbols⟩ : Variables).valuation (place i)).value name =
      ((⟨φ.symbols⟩ : Variables).valuation i).value name) (separator separator' : String) :
    (ofFormula φ separator).TakesValues (ofFormula χ separator') (2 ^ φ.symbols.length) place := by
  have hroot : χ ∈ φ.postorder := hχ χ.self_mem_postorder
  have hcount := Enumeration.rowCount_ofFormula hφ hn
  have hcount' := Enumeration.rowCount_ofFormula (hφ.of_mem hroot)
    (Nat.le_trans (Formula.length_symbols_le_of_mem hroot) hn)
  intro l hl
  obtain ⟨θ, hθ, hk, rfl⟩ := exists_part_of_label (hφ.of_mem hroot) separator' hl
  have hpart : θ ∈ φ.parts := Formula.mem_parts.2 (hχ (Formula.mem_parts.1 hθ))
  refine ⟨_, _, columnValues_label hφ hpart hk separator, columnValues_label (hφ.of_mem hroot) hθ hk separator',
    fun i hi => ?_⟩
  -- the variables of a subformula have the same values in both rows
  have hholds : θ.Holds ((⟨χ.symbols⟩ : Variables).valuation (place i)).value ↔
      θ.Holds ((⟨φ.symbols⟩ : Variables).valuation i).value :=
    Formula.holds_congr fun name h => hv i name (Formula.symbols_subset_of_mem (Formula.mem_parts.1 hθ) h)
  refine ⟨_, by rw [List.getElem?_map, hcount, List.getElem?_range hi, Option.map_some], ?_⟩
  rw [List.getElem?_map, hcount', List.getElem?_range (hplace i hi), Option.map_some,
    Enumeration.ofFormula_eq hφ, Enumeration.ofFormula_eq (hφ.of_mem hroot), decide_eq_decide.2 hholds]

/-- A binary formula with at most 127 variables extends the tables of its operands, whatever variables and
subformulas they share. -/
theorem ofFormula_extendsOperands {c : Connective} {φ ψ : Formula} (hp : (Formula.binary c φ ψ).Plain)
    (hn : (Formula.binary c φ ψ).symbols.length ≤ 127) (separator separator₁ separator₂ : String) :
    (ofFormula (.binary c φ ψ) separator).ExtendsOperands (ofFormula φ separator₁) (ofFormula ψ separator₂)
      (Formula.binary c φ ψ).symbols.length φ.symbols.length ψ.symbols.length c (Formula.binary c φ ψ).label := by
  obtain ⟨hφ, hψ⟩ := Formula.plain_binary.1 hp
  have hleft : φ.symbols.length ≤ 127 :=
    Nat.le_trans (Formula.length_symbols_le_of_mem (Formula.postorder_subset_left φ.self_mem_postorder)) hn
  have hright : ψ.symbols.length ≤ 127 :=
    Nat.le_trans (Formula.length_symbols_le_of_mem (Formula.postorder_subset_right ψ.self_mem_postorder)) hn
  have hnodup : (Formula.binary c φ ψ).symbols.Nodup := nodup_eraseDups _
  have hsymbols := Formula.symbols_binary (c := c) (φ := φ) (ψ := ψ)
  refine {
    size := hasSize_ofFormula hp separator hn
    sizeLeft := hasSize_ofFormula hφ separator₁ hleft
    sizeRight := hasSize_ofFormula hψ separator₂ hright
    primitive := ?primitive
    derived := ?derived
    left := ?left
    right := ?right }
  case primitive =>
    rw [columnsOf_primitive hp, columnsOf_primitive hφ, columnsOf_primitive hψ, hsymbols, List.map_append,
      List.filter_map]
    refine congrArg _ (congrArg _ (List.filter_congr fun name _ => ?_))
    simp only [Function.comp_apply, primitive_mem_columns hφ]
  case derived =>
    rw [columnsOf_derived hp, columnsOf_derived hφ, columnsOf_derived hψ, Formula.compounds_binary,
      List.map_append, List.map_append, List.filter_map]
    refine congrArg₂ _ (congrArg _ (congrArg _ (List.filter_congr fun χ hχ => ?_))) ?_
    · have hχ : χ.Plain := hψ.of_mem (Formula.mem_postorder_of_mem_compounds hχ)
      simp only [Function.comp_apply, derived_mem_columns hφ _ hχ]
    · by_cases hc : c = .join <;> simp [hc]
  case left =>
    have hcounts : (Formula.binary c φ ψ).symbols.length - φ.symbols.length =
        (ψ.symbols.filter (· ∉ φ.symbols)).length := by
      rw [hsymbols, List.length_append, Nat.add_sub_cancel_left]
    rw [hcounts]
    refine takesValues_ofFormula hp hn Formula.postorder_subset_left (fun i hi => ?_) (fun i name h => ?_) _ _
    · rw [hsymbols, List.length_append, Nat.add_comm, Nat.pow_add] at hi
      rw [Nat.shiftRight_eq_div_pow]
      exact Nat.div_lt_of_lt_mul hi
    · have h' := Variables.value_valuation_shiftRight (hsymbols ▸ hnodup) h i
      rw [h', hsymbols]
  case right =>
    rw [vars_ofFormula hp, vars_ofFormula hψ]
    refine takesValues_ofFormula hp hn Formula.postorder_subset_right (fun i _ => ?_) (fun i name h => ?_) _ _
    · exact Variables.collect_lt _ ψ.symbols i
    · have hs : ψ.symbols ⊆ (Formula.binary c φ ψ).symbols :=
        Formula.symbols_subset_of_mem (Formula.postorder_subset_right ψ.self_mem_postorder)
      exact Variables.value_valuation_collect hnodup (nodup_eraseDups _) hs h i

/-- Formulas that share a variable and a subformula, in another order on each side. -/
theorem ofFormula_extendsOperands_overlap :
    let φ : Formula := .binary .and (.symbol "a") (.not (.symbol "b"))
    let ψ : Formula := .binary .or (.not (.symbol "b")) (.binary .xor (.symbol "c") (.symbol "a"))
    let e : Formula := .binary .join φ ψ
    (e.Plain ∧ e.symbols.length ≤ 127) ∧
      (ofFormula e "").ExtendsOperands (ofFormula φ "") (ofFormula ψ "") 3 2 3 .join e.label ∧
      (ofFormula e "").rows.length = 8 ∧ (ofFormula φ "").rows.length = 4 ∧ (ofFormula ψ "").rows.length = 8 ∧
      (ofFormula e "").columns.map (·.label) =
        ["a", "b", "c", "", "¬b", "(a ∧ ¬b)", "(c ⊕ a)", "(¬b ∨ (c ⊕ a))"] ∧
      (ofFormula ψ "").vars = ⟨["b", "c", "a"]⟩ ∧
      (List.range 8).map ((ofFormula e "").vars.collect (ofFormula ψ "").vars) = [0, 2, 4, 6, 1, 3, 5, 7] ∧
      (ofFormula e "").columnValues "(a ∧ ¬b)" =
        .ok (some [false, false, false, false, true, true, false, false]) ∧
      (ofFormula φ "").columnValues "(a ∧ ¬b)" = .ok (some [false, false, true, false]) ∧
      (ofFormula e "").columnValues "(c ⊕ a)" =
        .ok (some [false, true, false, true, true, false, true, false]) ∧
      (ofFormula ψ "").columnValues "(c ⊕ a)" =
        .ok (some [false, true, true, false, false, true, true, false]) := by
  intro φ ψ e
  have hsizes : e.symbols.length = 3 ∧ φ.symbols.length = 2 ∧ ψ.symbols.length = 3 := by decide
  obtain ⟨hn, hn₁, hn₂⟩ := hsizes
  have hextends : (ofFormula e "").ExtendsOperands (ofFormula φ "") (ofFormula ψ "")
      e.symbols.length φ.symbols.length ψ.symbols.length .join e.label :=
    ofFormula_extendsOperands (by decide) (by decide) "" "" ""
  rw [hn, hn₁, hn₂] at hextends
  exact ⟨by decide, hextends, hextends.size.rows, hextends.sizeLeft.rows, hextends.sizeRight.rows, by decide,
    by decide, by decide, by decide, by decide, by decide, by decide⟩

end Table

end TruthTables
