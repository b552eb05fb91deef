import Mathlib.Algebra.Group.Nat.Defs
import Mathlib.Data.Nat.Bitwise
import TruthTables.Proofs.FirstOccurrences
import TruthTables.Variables

/-! # The valuation of a row -/
namespace TruthTables

namespace Valuation

theorem value_ofList_of_mem {bindings : List (String × Bool)} (hn : (bindings.map Prod.fst).Nodup)
    {name : String} {b : Bool} (h : (name, b) ∈ bindings) : (ofList bindings).value name = b := by
  induction bindings using List.reverseRecOn with
  | nil => simp at h
  | append_singleton bindings a ih =>
    obtain ⟨other, d⟩ := a
    rw [List.map_append, List.map_singleton, ← List.concat_eq_append, List.nodup_concat] at hn
    rw [value_ofList_append]
    rcases List.mem_append.1 h with h | h
    · have hm : name ∈ bindings.map Prod.fst := List.mem_map.2 ⟨_, h, rfl⟩
      have hne : name ≠ other := fun he => hn.1 (he ▸ hm)
      rw [if_neg hne]
      exact ih hn.2 h
    · obtain ⟨rfl, rfl⟩ := Prod.mk.inj (List.mem_singleton.1 h)
      exact if_pos rfl

end Valuation

namespace Variables

theorem ofList_of_nodup {names : List String} (h : names.Nodup) : ofList names = ⟨names⟩ :=
  congrArg mk (eraseDups_of_nodup h)

theorem value_valuation {vs : Variables} (hn : vs.names.Nodup) {place : Nat} {name : String}
    (h : vs.names[place]? = some name) (row : Nat) :
    (vs.valuation row).value name = row.testBit (vs.size - 1 - place) := by
  refine Valuation.value_ofList_of_mem ?_ ?_
  · rw [List.map_map]
    exact (List.zipIdx_map_fst 0 vs.names).symm ▸ hn
  · exact List.mem_map.2 ⟨(name, place), List.mk_mem_zipIdx_iff_getElem?.2 h, rfl⟩

theorem rowCount_of_le {vs : Variables} (h : vs.size ≤ maxCount) : vs.rowCount = 2 ^ vs.size := by
  have hle : 2 ^ vs.size ≤ 2 ^ maxCount := Nat.pow_le_pow_right (by decide) h
  have hlt : 2 ^ maxCount ≤ 1 <<< 128 - 1 := by decide
  rw [rowCount, Nat.one_shiftLeft]
  exact Nat.min_eq_left (Nat.le_trans hle hlt)

/-- The number of the row in which the variables have the values that `v` gives them. -/
def rowOf (vs : Variables) (v : String → Bool) : Nat :=
  Nat.ofBits fun bit : Fin vs.size => vs.names.reverse[bit.val]?.any v

theorem rowOf_lt (vs : Variables) (v : String → Bool) : vs.rowOf v < 2 ^ vs.size :=
  Nat.ofBits_lt_two_pow _

theorem value_valuation_rowOf {vs : Variables} (hn : vs.names.Nodup) (v : String → Bool) {name : String}
    (h : name ∈ vs.names) : (vs.valuation (vs.rowOf v)).value name = v name := by
  obtain ⟨place, hplace⟩ := List.mem_iff_getElem?.1 h
  obtain ⟨hlt, -⟩ := List.getElem?_eq_some_iff.1 hplace
  have hsize : vs.size = vs.names.length := rfl
  have hbit : vs.size - 1 - place < vs.size := by omega
  have hback : vs.names.length - 1 - (vs.size - 1 - place) = place := by omega
  rw [value_valuation hn hplace, rowOf, Nat.testBit_ofBits_lt _ _ hbit]
  simp only [List.getElem?_reverse hbit, hback, hplace]
  rfl

theorem eq_of_value_valuation {vs : Variables} (hn : vs.names.Nodup) {i j : Nat} (hi : i < 2 ^ vs.size)
    (hj : j < 2 ^ vs.size)
    (h : ∀ name ∈ vs.names, (vs.valuation i).value name = (vs.valuation j).value name) : i = j := by
  apply Nat.eq_of_testBit_eq
  intro bit
  by_cases hbit : bit < vs.size
  · have hsize : vs.size = vs.names.length := rfl
    have hplace : vs.names[vs.size - 1 - bit]? = some _ :=
      List.getElem?_eq_getElem (by omega)
    have hback : vs.size - 1 - (vs.size - 1 - bit) = bit := by omega
    have hname := h _ (List.mem_of_getElem? hplace)
    rwa [value_valuation hn hplace, value_valuation hn hplace, hback] at hname
  · have hle : 2 ^ vs.size ≤ 2 ^ bit := Nat.pow_le_pow_right (by decide) (Nat.not_lt.1 hbit)
    rw [Nat.testBit_lt_two_pow (Nat.lt_of_lt_of_le hi hle),
      Nat.testBit_lt_two_pow (Nat.lt_of_lt_of_le hj hle)]

theorem rowCount_le (vs : Variables) : vs.rowCount ≤ 2 ^ vs.size := by
  rw [rowCount, Nat.one_shiftLeft]
  exact Nat.min_le_left ..

/-- If the row of a choice of values is counted, the choice is made in this row and in no other. -/
theorem existsUnique_row {vs : Variables} (hn : vs.names.Nodup) {v : String → Bool} (h : vs.rowOf v < vs.rowCount) :
    ∃! row, row < vs.rowCount ∧ ∀ name ∈ vs.names, (vs.valuation row).value name = v name := by
  refine ⟨vs.rowOf v, ⟨h, fun name => value_valuation_rowOf hn v⟩, fun row ⟨hrow, hv⟩ => ?_⟩
  apply eq_of_value_valuation hn (Nat.lt_of_lt_of_le hrow vs.rowCount_le) (rowOf_lt vs v)
  intro name hname
  rw [hv name hname, value_valuation_rowOf hn v hname]

end Variables

end TruthTables
