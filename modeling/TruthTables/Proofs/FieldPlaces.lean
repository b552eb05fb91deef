import Mathlib.Algebra.GroupWithZero.Nat
import Mathlib.Data.List.GetD
import TruthTables.Table.Text

/-! # Places in a line of fields -/
namespace TruthTables

namespace Text

/-- The character at a place of a line. Behind the end there are spaces. -/
def charAt (line : String) (i : Nat) : Char := line.toList.getD i ' '

def slice (line : String) (start n : Nat) : String :=
  String.ofList ((List.range n).map fun k => charAt line (start + k))

theorem charAt_append (a b : String) (i : Nat) :
    charAt (a ++ b) i = if i < a.length then charAt a i else charAt b (i - a.length) := by
  simp only [charAt, String.toList_append, ← String.length_toList]
  split
  · rw [List.getD_append _ _ _ _ ‹_›]
  · rw [List.getD_append_right _ _ _ _ (Nat.le_of_not_lt ‹_›)]

theorem charAt_of_length_le {s : String} {i : Nat} (h : s.length ≤ i) : charAt s i = ' ' :=
  List.getD_eq_default _ _ (by rwa [String.length_toList])

theorem charAt_ofList_replicate {n i : Nat} (c : Char) (h : i < n) :
    charAt (String.ofList (List.replicate n c)) i = c := by
  simp [charAt, h]

theorem charAt_spaces (n i : Nat) : charAt (spaces n) i = ' ' := by
  rcases Nat.lt_or_ge i n with h | h
  · exact charAt_ofList_replicate ' ' h
  · exact charAt_of_length_le (by simpa [spaces] using h)

theorem charAt_mem {s : String} {i : Nat} (h : i < s.length) : charAt s i ∈ s.toList := by
  rw [← String.length_toList] at h
  rw [charAt, List.getD_eq_getElem _ _ h]
  exact List.getElem_mem h

theorem slice_eq {line s : String} {start : Nat} (h : ∀ k < s.length, charAt line (start + k) = charAt s k) :
    slice line start s.length = s := by
  rw [slice, ← String.toList_inj, String.toList_ofList]
  refine List.ext_getElem (by rw [List.length_map, List.length_range, String.length_toList]) fun k hk hk' => ?_
  rw [String.length_toList] at hk'
  rw [List.getElem_map, List.getElem_range, h k hk', charAt, List.getD_eq_getElem]

section TrimEnd

theorem toList_eq_trimEnd_append (s : String) :
    s.toList = (trimEnd s).toList ++ (s.toList.reverse.takeWhile isBlank).reverse := by
  rw [trimEnd, String.toList_ofList, ← List.reverse_append, List.takeWhile_append_dropWhile, List.reverse_reverse]

/-- What is left out at the end of a line makes no difference, as long as it is made of spaces. -/
theorem charAt_trimEnd {s : String} {i : Nat} (h : isBlank (charAt s i) = true → charAt s i = ' ') :
    charAt (trimEnd s) i = charAt s i := by
  have hs := toList_eq_trimEnd_append s
  rcases Nat.lt_or_ge i (trimEnd s).toList.length with hi | hi
  · rw [charAt, charAt, hs, List.getD_append _ _ _ _ hi]
  · -- the place is in what was left out, which is blank, or behind the end of both
    rw [charAt_of_length_le (by rwa [← String.length_toList])]
    rcases Nat.lt_or_ge i s.length with hlt | hge
    · refine (h ?_).symm
      rw [charAt, hs, List.getD_append_right _ _ _ _ hi]
      rw [← String.length_toList, hs, List.length_append] at hlt
      have hk : i - (trimEnd s).toList.length < (s.toList.reverse.takeWhile isBlank).reverse.length := by omega
      rw [List.getD_eq_getElem _ _ hk]
      exact List.all_eq_true.1 List.all_takeWhile _ (List.mem_reverse.1 (List.getElem_mem hk))
    · rw [charAt_of_length_le hge]

theorem getLast?_trimEnd {s : String} {c : Char} (h : (trimEnd s).toList.getLast? = some c) :
    isBlank c = false := by
  have hnot := List.head?_dropWhile_not isBlank s.toList.reverse
  rw [trimEnd, String.toList_ofList, List.getLast?_reverse] at h
  rw [h] at hnot
  exact hnot

theorem mem_of_mem_trimEnd {s : String} {c : Char} (h : c ∈ (trimEnd s).toList) : c ∈ s.toList := by
  rw [toList_eq_trimEnd_append s]
  exact List.mem_append_left _ h

end TrimEnd

section Justify

theorem justify_length (alignment : Alignment) (s : String) : justify alignment s.length s = s := by
  cases alignment <;> simp [justify, Alignment.before, spaces]

theorem not_mem_justify {alignment : Alignment} {width : Nat} {s : String} {c : Char} (hc : c ≠ ' ')
    (hs : c ∉ s.toList) : c ∉ (justify alignment width s).toList := by
  simp [justify, spaces, hc, hs]

/-- A single character in the middle of a field, or one place before the middle. -/
theorem charAt_justify_singleton (width : Nat) (c : Char) (k : Nat) :
    charAt (justify .center width (String.singleton c)) k = if k = (width - 1) / 2 then c else ' ' := by
  have hbefore : (spaces ((width - 1) / 2)).length = (width - 1) / 2 := by simp [spaces]
  have hone : (String.singleton c).length = 1 := by simp
  simp only [justify, Alignment.before, hone, charAt_append, charAt_spaces, String.length_append, hbefore]
  rcases Nat.lt_trichotomy k ((width - 1) / 2) with hk | rfl | hk
  · rw [if_pos (by omega), if_pos hk, if_neg (by omega)]
  · rw [if_pos (by omega), if_neg (by omega), if_pos rfl, Nat.sub_self]
    simp [charAt]
  · rw [if_neg (by omega), if_neg (by omega)]

theorem charAt_justify_empty (alignment : Alignment) (width k : Nat) :
    charAt (justify alignment width "") k = ' ' := by
  simp [justify, charAt_append, charAt_spaces]

end Justify

section Fields

def spread (fields : List String) : String := String.join (fields.map (· ++ "  "))

theorem spread_cons (f : String) (fields : List String) : spread (f :: fields) = f ++ "  " ++ spread fields := by
  rw [spread, List.map_cons, String.join_cons, spread]

theorem charAt_spread_cons (f : String) (fields : List String) (i : Nat) :
    charAt (spread (f :: fields)) i = if i < f.length + 2 then (if i < f.length then charAt f i else ' ')
      else charAt (spread fields) (i - (f.length + 2)) := by
  have hgap : "  " = spaces 2 := rfl
  have hlength : (spaces 2).length = 2 := rfl
  rw [spread_cons, hgap, charAt_append, charAt_append, charAt_spaces, String.length_append, hlength]

theorem charAt_intercalate (fields : List String) (i : Nat) :
    charAt (String.intercalate "  " fields) i = charAt (spread fields) i := by
  induction fields generalizing i with
  | nil => rfl
  | cons f fields ih =>
    cases fields with
    | nil =>
      have hend : charAt (spread []) (i - (f.length + 2)) = ' ' := charAt_of_length_le (Nat.zero_le _)
      rw [String.intercalate_singleton, charAt_spread_cons, hend]
      rcases Nat.lt_or_ge i f.length with hi | hi
      · rw [if_pos (by omega), if_pos hi]
      · rw [charAt_of_length_le hi, if_neg (Nat.not_lt.2 hi), ite_self]
    | cons g fields =>
      rw [String.intercalate_cons_cons, spread_cons, charAt_append, charAt_append (f ++ "  "), ih]

/-- Where a field starts in a line of fields with two blanks between them. -/
def fieldStart (fields : List String) (j : Nat) : Nat := ((fields.take j).map (·.length + 2)).sum

theorem fieldStart_succ (f : String) (fields : List String) (j : Nat) :
    fieldStart (f :: fields) (j + 1) = f.length + 2 + fieldStart fields j := by
  rw [fieldStart, List.take_succ_cons, List.map_cons, List.sum_cons, fieldStart]

theorem charAt_field {fields : List String} {j : Nat} {f : String} (hj : fields[j]? = some f) {k : Nat}
    (hk : k < f.length) : charAt (spread fields) (fieldStart fields j + k) = charAt f k := by
  induction fields generalizing j with
  | nil => exact nomatch hj
  | cons g fields ih =>
    rw [charAt_spread_cons]
    cases j with
    | zero =>
      obtain rfl := Option.some.inj hj
      have hstart : fieldStart (g :: fields) 0 = 0 := rfl
      rw [hstart, Nat.zero_add, if_pos (by omega), if_pos hk]
    | succ j =>
      have hplace : fieldStart (g :: fields) (j + 1) + k - (g.length + 2) = fieldStart fields j + k := by
        rw [fieldStart_succ]
        omega
      rw [if_neg (by rw [fieldStart_succ]; omega), hplace, ih hj]

theorem charAt_eq_space {fields : List String} {i : Nat}
    (h : ∀ j f k, fields[j]? = some f → k < f.length → i = fieldStart fields j + k → charAt f k = ' ') :
    charAt (spread fields) i = ' ' := by
  induction fields generalizing i with
  | nil => exact charAt_of_length_le (Nat.zero_le i)
  | cons g fields ih =>
    rw [charAt_spread_cons]
    split
    · split
      · exact h 0 g i rfl ‹_› (Nat.zero_add i).symm
      · rfl
    · refine ih fun j f k hj hk hi => h (j + 1) f k hj hk ?_
      rw [fieldStart_succ]
      omega

end Fields

end Text

end TruthTables
