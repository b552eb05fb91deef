import Mathlib.Data.Finset.Card
import Mathlib.Data.List.Lex
import TruthTables.Proofs.RowNumbers

/-! # Variables and the bits of a row number -/
namespace TruthTables

abbrev RowWord := BitVec 128

namespace RowWord

def amount? (n : Nat) : Option Nat := if n < 2 ^ 32 then some n else none

/-- No shift goes over the whole width of a word. -/
def shiftLeft? (w : RowWord) (n : Nat) : Option RowWord := if n < 128 then some (w <<< n) else none

def shiftRight? (w : RowWord) (n : Nat) : Option RowWord := if n < 128 then some (w >>> n) else none

/-- The bit that a shift brings to the lowest place, where there is such a shift. -/
def bitAt (w : RowWord) (n : Nat) : Bool := ((amount? n).bind w.shiftRight?).any fun w => w &&& 1#128 = 1#128

theorem amount?_of_lt {n : Nat} (h : n < 128) : amount? n = some n := if_pos (by omega)

theorem bind_amount?_eq_none {n : Nat} {f : Nat → Option RowWord} (hf : f n = none) : (amount? n).bind f = none := by
  rw [amount?]
  split
  · exact hf
  · rfl

theorem bitAt_eq (w : RowWord) (n : Nat) : w.bitAt n = w.getLsbD n := by
  rw [bitAt]
  by_cases h : n < 128
  · rw [amount?_of_lt h, Option.bind_some, shiftRight?, if_pos h, Option.any_some,
      BitVec.and_one_eq_setWidth_ofBool_getLsbD, BitVec.getLsbD_ushiftRight, Nat.add_zero]
    cases w.getLsbD n <;> decide
  · rw [bind_amount?_eq_none (if_neg h), BitVec.getLsbD_of_ge w n (Nat.not_lt.1 h)]
    rfl

end RowWord

theorem Valuation.value_ofList_of_not_mem {bindings : List (String × Bool)} {name : String}
    (h : name ∉ bindings.map Prod.fst) : (ofList bindings).value name = false := by
  have hlookup : bindings.reverse.lookup name = none := by
    rw [List.lookup_eq_none_iff]
    intro p hp
    rw [bne_iff_ne]
    rintro rfl
    exact h (List.mem_map_of_mem (List.mem_reverse.1 hp))
  rw [value, ofList, hlookup]
  rfl

namespace Variables

section Count

/-- The number of rows as a word: a bit that is shifted past the bits of the variables, or the largest word if it is
shifted too far. -/
def countWord (vs : Variables) : RowWord :=
  ((RowWord.amount? vs.size).bind (RowWord.shiftLeft? 1#128)).getD (BitVec.allOnes 128)

theorem rowCount_eq (vs : Variables) : vs.rowCount = min (2 ^ vs.size) (2 ^ 128 - 1) := by
  rw [rowCount, Nat.one_shiftLeft, Nat.one_shiftLeft]

theorem toNat_countWord (vs : Variables) : vs.countWord.toNat = vs.rowCount := by
  rw [rowCount_eq, countWord]
  by_cases h : vs.size < 128
  · have hlt : 2 ^ vs.size < 2 ^ 128 := Nat.pow_lt_pow_right (by decide) h
    rw [RowWord.amount?_of_lt h, Option.bind_some, RowWord.shiftLeft?, if_pos h, Option.getD_some,
      BitVec.toNat_shiftLeft, BitVec.toNat_ofNat, Nat.one_mod_two_pow (by decide), Nat.one_shiftLeft,
      Nat.mod_eq_of_lt hlt]
    omega
  · have hle : 2 ^ 128 ≤ 2 ^ vs.size := Nat.pow_le_pow_right (by decide) (Nat.not_lt.1 h)
    rw [RowWord.bind_amount?_eq_none (if_neg h), Option.getD_none, BitVec.toNat_allOnes]
    omega

end Count

section Numbers

/-- A name without a number takes the next one. -/
def number (ids : List (String × Nat)) (name : String) : List (String × Nat) :=
  if ids.any (·.1 = name) then ids else ids ++ [(name, ids.length)]

theorem number_zipIdx (names : List String) (name : String) :
    number names.zipIdx name = if name ∈ names then names.zipIdx else (names ++ [name]).zipIdx := by
  have hmem : names.zipIdx.any (·.1 = name) = decide (name ∈ names) := by
    rw [Bool.eq_iff_iff, List.any_eq_true, decide_eq_true_eq, ← List.zipIdx_map_fst 0 names, List.mem_map]
    simp only [decide_eq_true_eq, List.zipIdx_map_fst]
  rw [number, hmem, List.zipIdx_append]
  by_cases h : name ∈ names <;> simp [h]

theorem foldl_number (names : List String) : names.foldl number [] = (ofList names).names.zipIdx := by
  induction names using List.reverseRecOn with
  | nil => rfl
  | append_singleton names name ih =>
    rw [List.foldl_append, ih, List.foldl_cons, List.foldl_nil, number_zipIdx, ofList, ofList, eraseDups_concat]
    simp only [List.mem_eraseDups]
    split <;> rfl

theorem map_bit (vs : Variables) : (List.range vs.size).map vs.bit = (List.range vs.size).reverse := by
  apply List.ext_getElem
  · simp
  · intro place hp hp'
    simp [bit]

theorem size_ofList (names : List String) : (ofList names).size = names.toFinset.card := by
  have hset : names.toFinset = names.eraseDups.toFinset := by
    ext name
    simp
  rw [hset, List.toFinset_card_of_nodup (nodup_eraseDups names)]
  rfl

end Numbers

section Choices

variable {vs : Variables} (hn : vs.names.Nodup)

def choice (vs : Variables) (row : Nat) : List Bool := vs.names.map (vs.valuation row).value

def lowBits : (n i : Nat) → List Bool
  | 0, _ => []
  | n + 1, i => i.testBit n :: lowBits n i

theorem length_lowBits (n i : Nat) : (lowBits n i).length = n := by
  induction n with
  | zero => rfl
  | succ n ih => rw [lowBits, List.length_cons, ih]

theorem getElem?_lowBits {n place : Nat} (h : place < n) (i : Nat) :
    (lowBits n i)[place]? = some (i.testBit (n - 1 - place)) := by
  induction n generalizing place with
  | zero => omega
  | succ n ih =>
    cases place with
    | zero => rfl
    | succ place =>
      have hbit : n + 1 - 1 - (place + 1) = n - 1 - place := by omega
      rw [lowBits, List.getElem?_cons_succ, ih (Nat.lt_of_succ_lt_succ h), hbit]

/-- Numbers stand in the lexicographic order of their bits. -/
theorem lowBits_lt {n i j : Nat} (h : i % 2 ^ n < j % 2 ^ n) : lowBits n i < lowBits n j := by
  induction n with
  | zero => omega
  | succ n ih =>
    rw [Nat.mod_pow_succ, Nat.mod_pow_succ, ← Nat.toNat_testBit, ← Nat.toNat_testBit] at h
    have hj : j % 2 ^ n < 2 ^ n := Nat.mod_lt j (Nat.two_pow_pos n)
    rw [lowBits, lowBits]
    cases hbi : i.testBit n <;> cases hbj : j.testBit n <;> simp only [hbi, hbj, Bool.toNat_false, Bool.toNat_true] at h
    case false.false => exact List.Lex.cons (ih (by omega))
    case false.true => exact List.Lex.rel (by decide)
    case true.false => omega
    case true.true => exact List.Lex.cons (ih (by omega))

include hn

theorem choice_eq (row : Nat) : vs.choice row = lowBits vs.size row := by
  apply List.ext_getElem?
  intro place
  by_cases h : place < vs.size
  · have hplace : vs.names[place]? = some vs.names[place] := List.getElem?_eq_getElem h
    rw [choice, List.getElem?_map, hplace, Option.map_some, value_valuation hn hplace, getElem?_lowBits h]
  · have hnames : vs.names.length ≤ place := Nat.not_lt.1 h
    rw [List.getElem?_eq_none, List.getElem?_eq_none]
    · rw [length_lowBits]
      exact hnames
    · rw [choice, List.length_map]
      exact hnames

theorem choice_lt {i j : Nat} (hij : i < j) (hj : j < vs.rowCount) : vs.choice i < vs.choice j := by
  have hlt := Nat.lt_of_lt_of_le hj vs.rowCount_le
  rw [choice_eq hn, choice_eq hn]
  apply lowBits_lt
  rwa [Nat.mod_eq_of_lt hlt, Nat.mod_eq_of_lt (Nat.lt_trans hij hlt)]

/-- The last number that the bits of the variables can make has all of them set. -/
theorem rowOf_eq_last_iff (v : String → Bool) :
    vs.rowOf v = 2 ^ vs.size - 1 ↔ ∀ name ∈ vs.names, v name = true := by
  have last : ∀ name ∈ vs.names, (vs.valuation (2 ^ vs.size - 1)).value name = true := by
    intro name hname
    obtain ⟨place, hplace⟩ := List.mem_iff_getElem?.1 hname
    have hlt : place < vs.size := (List.getElem?_eq_some_iff.1 hplace).1
    rw [value_valuation hn hplace, Nat.testBit_two_pow_sub_one]
    exact decide_eq_true (by omega)
  constructor
  · intro h name hname
    rw [← value_valuation_rowOf hn v hname, h, last name hname]
  · intro h
    have hpos := Nat.two_pow_pos vs.size
    apply eq_of_value_valuation hn (rowOf_lt vs v) (Nat.sub_lt hpos Nat.one_pos)
    intro name hname
    rw [value_valuation_rowOf hn v hname, h name hname, last name hname]

end Choices

/-- Every distinct name is registered once, in the order of first appearance, with its place as its number. The bits
go down from the first variable to the last. -/
structure Registers (vs : Variables) (names : List String) : Prop where
  distinct : vs.names.Nodup
  mem_iff : ∀ name, name ∈ vs.names ↔ name ∈ names
  size : vs.size = names.toFinset.card
  order : vs.names.Pairwise fun a b => names.idxOf a < names.idxOf b
  numbers : names.foldl number [] = vs.names.zipIdx
  bit_add : ∀ place < vs.size, vs.bit place + 1 + place = vs.size
  bits : (List.range vs.size).map vs.bit = (List.range vs.size).reverse

/-- The number of rows and the values in a row, as words give them. -/
structure ReadsWords (vs : Variables) : Prop where
  row_count : vs.rowCount = min (2 ^ vs.size) (2 ^ 128 - 1)
  row_count_word : vs.rowCount = vs.countWord.toNat
  value : ∀ (row : RowWord) (place : Nat) (name : String), vs.names[place]? = some name →
    (vs.valuation row.toNat).value name = row.bitAt (vs.bit place) ∧
      row.bitAt (vs.bit place) = row.getLsbD (vs.size - 1 - place)
  beyond : ∀ (row : RowWord) (place : Nat) (name : String), vs.names[place]? = some name →
    128 ≤ vs.size - 1 - place → (vs.valuation row.toNat).value name = false
  unknown : ∀ (row : RowWord) (name : String), name ∉ vs.names → (vs.valuation row.toNat).value name = false

/-- Which choices of values the rows make. -/
structure RunsThroughChoices (vs : Variables) : Prop where
  all : vs.size ≤ 127 → ∀ v : String → Bool,
    ∃! row, row < vs.rowCount ∧ ∀ name ∈ vs.names, (vs.valuation row).value name = v name
  all_but_last : vs.size = 128 → ∀ v : String → Bool,
    if ∀ name ∈ vs.names, v name = true then
      ¬∃ row < vs.rowCount, ∀ name ∈ vs.names, (vs.valuation row).value name = v name
    else ∃! row, row < vs.rowCount ∧ ∀ name ∈ vs.names, (vs.valuation row).value name = v name
  ordered : ∀ i j, i < j → j < vs.rowCount → vs.choice i < vs.choice j
  first_false : 128 < vs.size → ∀ row < vs.rowCount, ∀ name ∈ vs.names.take (vs.size - 128),
    (vs.valuation row).value name = false

theorem ofList_registers (names : List String) : (ofList names).Registers names where
  distinct := nodup_eraseDups names
  mem_iff _ := List.mem_eraseDups
  size := size_ofList names
  order := pairwise_idxOf_eraseDups names
  numbers := foldl_number names
  bit_add place h := by
    rw [bit]
    omega
  bits := map_bit _

section Reads

variable {vs : Variables} (hn : vs.names.Nodup)

include hn

theorem value_word {place : Nat} {name : String} (h : vs.names[place]? = some name) (row : RowWord) :
    (vs.valuation row.toNat).value name = row.getLsbD (vs.size - 1 - place) := by
  rw [value_valuation hn h, BitVec.testBit_toNat]

theorem readsWords : vs.ReadsWords where
  row_count := rowCount_eq vs
  row_count_word := (toNat_countWord vs).symm
  value row place name h := by
    rw [value_word hn h, RowWord.bitAt_eq, bit]
    exact ⟨rfl, rfl⟩
  beyond row place name h hbit := by
    rw [value_word hn h, BitVec.getLsbD_of_ge _ _ hbit]
  unknown row name h := by
    apply Valuation.value_ofList_of_not_mem
    rw [List.map_map]
    exact (List.zipIdx_map_fst 0 vs.names).symm ▸ h

/-- With a variable for every bit of a word, only the row is missing in which all of them are true. -/
theorem rows_of_size_eq (h : vs.size = 128) (v : String → Bool) :
    if ∀ name ∈ vs.names, v name = true then
      ¬∃ row < vs.rowCount, ∀ name ∈ vs.names, (vs.valuation row).value name = v name
    else ∃! row, row < vs.rowCount ∧ ∀ name ∈ vs.names, (vs.valuation row).value name = v name := by
  have hcount : vs.rowCount = 2 ^ vs.size - 1 := by
    rw [rowCount_eq, h]
    exact Nat.min_eq_right (Nat.sub_le _ _)
  have hlt := rowOf_lt vs v
  split
  case isTrue hv =>
    rintro ⟨row, hrow, hvalues⟩
    have hlast := (rowOf_eq_last_iff hn v).2 hv
    have heq : row = vs.rowOf v := by
      apply eq_of_value_valuation hn (Nat.lt_of_lt_of_le hrow vs.rowCount_le) hlt
      intro name hname
      rw [hvalues name hname, value_valuation_rowOf hn v hname]
    omega
  case isFalse hv =>
    have hlast := mt (rowOf_eq_last_iff hn v).1 hv
    exact existsUnique_row hn (by omega)

theorem runsThroughChoices : vs.RunsThroughChoices where
  all h v := existsUnique_row hn ((rowCount_of_le h).symm ▸ rowOf_lt vs v)
  all_but_last h v := rows_of_size_eq hn h v
  ordered i j hij hj := choice_lt hn hij hj
  first_false h row hrow name hname := by
    obtain ⟨place, hplace⟩ := List.mem_iff_getElem?.1 hname
    have hlt := (List.getElem?_eq_some_iff.1 hplace).1
    rw [List.length_take] at hlt
    rw [List.getElem?_take_of_lt (by omega)] at hplace
    have hword : row < 2 ^ 128 := by
      have hle : vs.rowCount ≤ 2 ^ 128 - 1 := rowCount_eq vs ▸ Nat.min_le_right ..
      omega
    rw [value_valuation hn hplace]
    apply Nat.testBit_lt_two_pow
    exact Nat.lt_of_lt_of_le hword (Nat.pow_le_pow_right (by decide) (by omega))

end Reads

/-- The variables of any list of names have their bits in the order of their first appearance, and a row number gives
each of them its bit. The rows make every choice of values once, as far as 128 bits can count them. -/
theorem ofList_assignsBits (names : List String) :
    (ofList names).Registers names ∧ (ofList names).ReadsWords ∧ (ofList names).RunsThroughChoices :=
  ⟨ofList_registers names, readsWords (nodup_eraseDups names), runsThroughChoices (nodup_eraseDups names)⟩

/-- Two variables, as many as a word has bits, and two more. -/
theorem ofList_assignsBits_limit :
    let two := ofList ["b", "a", "b"]
    let many : Nat → List String := fun n => (List.range n).map fun k => String.ofList (List.replicate (k + 1) 'x')
    (two.size ≤ 127 ∧ ∃! row, row < two.rowCount ∧
        ∀ name ∈ two.names, (two.valuation row).value name = decide (name = "b")) ∧
      ((ofList (many 128)).size = 128 ∧ ¬∃ row < (ofList (many 128)).rowCount,
        ∀ name ∈ (ofList (many 128)).names, ((ofList (many 128)).valuation row).value name = true) ∧
      ((ofList (many 130)).size = 130 ∧ ∀ row < (ofList (many 130)).rowCount,
        ((ofList (many 130)).valuation row).value "x" = false) := by
  intro two many
  have hmany (n : Nat) : ofList (many n) = ⟨many n⟩ := by
    apply ofList_of_nodup
    apply List.Nodup.map _ List.nodup_range
    intro k l h
    simpa using congrArg List.length (String.ofList_injective h)
  have hsize (n : Nat) : (ofList (many n)).size = n := by
    rw [hmany, size, List.length_map, List.length_range]
  have htwo : two.size ≤ 127 := by decide
  have full (names : List String) (h : (ofList names).size = 128) : ¬∃ row < (ofList names).rowCount,
      ∀ name ∈ (ofList names).names, ((ofList names).valuation row).value name = true := by
    have hfull := (ofList_assignsBits names).2.2.all_but_last h fun _ => true
    rwa [if_pos fun _ _ => rfl] at hfull
  have hfirst : "x" ∈ (ofList (many 130)).names.take ((ofList (many 130)).size - 128) := by
    rw [hsize, hmany]
    apply List.mem_of_getElem? (i := 0)
    rw [List.getElem?_take_of_lt (by decide), List.getElem?_map, List.getElem?_range (by decide)]
    rfl
  refine ⟨⟨htwo, (ofList_assignsBits _).2.2.all htwo _⟩, ⟨hsize 128, full _ (hsize 128)⟩, hsize 130, fun row hrow => ?_⟩
  exact (ofList_assignsBits (many 130)).2.2.first_false (by rw [hsize]; decide) row hrow "x" hfirst

end Variables

end TruthTables
