import TruthTables.Proofs.LongestMatch

/-! # The first alternative that matches -/
namespace TruthTables

namespace Token

inductive Alternative
  | blanks
  | sign (w : List Char) (t : Token)
  | keyword (w : List Char) (t : Token)
  | letters
  deriving DecidableEq

namespace Alternative

/-- Whether a word begins or ends between the end of `w` and the text `r`. -/
def boundary (w r : List Char) : Bool := w.getLast?.any Text.isWord != r.head?.any Text.isWord

/-- Gives back the last of `n` characters, one after the other, until a boundary is met. -/
def backtrack (cs : List Char) : (n : Nat) → Option (List Char)
  | 0 => none
  | n + 1 =>
    if boundary (cs.take (n + 1)) (cs.drop (n + 1)) then some (cs.take (n + 1)) else backtrack cs n

def take? (cs : List Char) : Alternative → Option Piece
  | blanks => if cs.takeWhile Text.isBlank = [] then none else some (cs.takeWhile Text.isBlank, none)
  | sign w t => if w.isPrefixOf cs then some (w, some t) else none
  | keyword w t => if w.isPrefixOf cs && boundary w (cs.drop w.length) then some (w, some t) else none
  | letters =>
    (backtrack cs (cs.takeWhile Char.isAlpha).length).map fun w => (w, some (symbol (String.ofList w)))

def all : List Alternative :=
  [blanks,
   sign ['&'] (connective .and), sign ['∧'] (connective .and), sign ['^'] (connective .and),
   keyword ['a', 'n', 'd'] (connective .and),
   sign ['+'] (connective .or), sign ['∨'] (connective .or), keyword ['v'] (connective .or),
   keyword ['o', 'r'] (connective .or),
   sign ['#'] (connective .xor), sign ['⊕'] (connective .xor), keyword ['x', 'o', 'r'] (connective .xor),
   sign ['-', '>'] (connective .implies), sign ['→'] (connective .implies),
   keyword ['i', 'm', 'p', 'l'] (connective .implies),
   sign ['<', '-', '>'] (connective .iff), sign ['='] (connective .iff), sign ['≡'] (connective .iff),
   sign ['↔'] (connective .iff), keyword ['i', 'f', 'f'] (connective .iff),
   sign ['-'] not, sign ['~'] not, sign ['¬'] not, keyword ['n', 'o', 't'] not,
   sign [','] (connective .join),
   letters,
   sign ['('] opening, sign ['['] opening, sign ['\x7b'] opening,
   sign [')'] closing, sign [']'] closing, sign ['\x7d'] closing]

/-- What the first alternative takes that takes anything. -/
def leftmost? (cs : List Char) : Option Piece := all.findSome? (take? cs)

def isSign : Alternative → Bool
  | sign _ _ => true
  | _ => false

def isWord : Alternative → Bool
  | keyword _ _ | letters => true
  | _ => false

theorem filter_isSign : all.filter isSign = signs.map fun s => sign s.1 s.2 := by decide

theorem filter_isWord : all.filter isWord = (keywords.map fun k => keyword k.1 k.2) ++ [letters] := by decide

section Leftmost

variable {c : Char} {cs w : List Char} {t : Option Token}

/-- Alternatives that take nothing can be left out. -/
theorem findSome?_filter {f : Alternative → Option Piece} {p : Alternative → Bool}
    {as : List Alternative} (h : ∀ a ∈ as, p a = false → f a = none) :
    as.findSome? f = (as.filter p).findSome? f := by
  induction as with
  | nil => rfl
  | cons a as ih =>
    have ih' := ih fun b hb => h b (List.mem_cons_of_mem a hb)
    cases hp : p a with
    | true => rw [List.filter_cons_of_pos hp, List.findSome?_cons, List.findSome?_cons, ih']
    | false =>
      rw [List.filter_cons_of_neg (by simp [hp]), List.findSome?_cons, h a (List.mem_cons_self ..) hp, ih']

theorem take?_blanks_of_not_blank (hb : Text.isBlank c = false) : take? (c :: cs) blanks = none := by
  simp [take?, hb]

theorem take?_sign_of_isAlpha (hc : c.isAlpha = true) {s : List Char × Token} (hs : s ∈ signs) :
    take? (c :: cs) (sign s.1 s.2) = none := by
  obtain ⟨d, ds, hw, hd, -⟩ := sign_start hs
  have hdc : d ≠ c := by
    rintro rfl
    exact absurd (hd.symm.trans hc) (by decide)
  simp [take?, hw, hdc]

theorem take?_keyword_of_not_isAlpha (hc : c.isAlpha = false) {k : List Char × Token}
    (hk : k ∈ keywords) : take? (c :: cs) (keyword k.1 k.2) = none := by
  obtain ⟨hne, hletters⟩ := keyword_letters hk
  cases hw : k.1 with
  | nil => exact absurd hw hne
  | cons d ds =>
    have hdc : d ≠ c := by
      rintro rfl
      have hd := hletters d (by rw [hw]; exact List.mem_cons_self ..)
      exact absurd (hc.symm.trans hd) (by decide)
    simp [take?, hdc]

theorem take?_letters_of_not_isAlpha (hc : c.isAlpha = false) : take? (c :: cs) letters = none := by
  simp [take?, hc, backtrack]

theorem boundary_of_letters {w r : List Char} (hw : w ≠ []) (ha : ∀ d ∈ w, d.isAlpha = true) :
    boundary w r = !r.head?.any Text.isWord := by
  have hlast := Text.isWord_of_isAlpha (ha _ (List.getLast_mem hw))
  rw [boundary, List.getLast?_eq_some_getLast hw]
  simp [hlast]

/-- A keyword is taken if it is the whole run of letters, and nothing follows that would continue it. -/
theorem take?_keyword_of_isAlpha (cs : List Char) {k : List Char × Token} (hk : k ∈ keywords) :
    take? cs (keyword k.1 k.2) =
      if (cs.dropWhile Char.isAlpha).head?.any Text.isWord then none
      else if cs.takeWhile Char.isAlpha = k.1 then some (k.1, some k.2) else none := by
  obtain ⟨hne, hletters⟩ := keyword_letters hk
  by_cases hp : k.1 <+: cs
  · obtain ⟨r, rfl⟩ := hp
    have hprefix : k.1.isPrefixOf (k.1 ++ r) = true := List.isPrefixOf_iff_prefix.2 (List.prefix_append _ _)
    rw [take?, hprefix, List.drop_left, boundary_of_letters hne hletters]
    cases hr : r.head?.any Text.isWord with
    | false =>
      obtain ⟨htake, hdrop⟩ :=
        takeWhile_append_stop hletters (not_isAlpha_of_not_isWord (any_eq_false_iff.1 hr))
      simp [htake, hdrop, hr]
    | true =>
      -- the letters may go on, but then the run of letters is longer than the keyword
      rw [List.takeWhile_append_of_pos hletters, List.dropWhile_append_of_pos hletters]
      cases r with
      | nil => simp at hr
      | cons d r =>
        by_cases hd : d.isAlpha = true
        · simp [hd]
        · simpa [hd] using hr
  · have hprefix : k.1.isPrefixOf cs = false := by
      rw [Bool.eq_false_iff, ne_eq, List.isPrefixOf_iff_prefix]
      exact hp
    have hrun : cs.takeWhile Char.isAlpha ≠ k.1 := fun h => hp (h ▸ List.takeWhile_prefix _)
    simp [take?, hprefix, hrun]

theorem backtrack_eq_none {n : Nat}
    (h : ∀ m, 0 < m → m ≤ n → boundary (cs.take m) (cs.drop m) = false) : backtrack cs n = none := by
  induction n with
  | zero => rfl
  | succ n ih =>
    rw [backtrack, h (n + 1) (Nat.succ_pos n) (Nat.le_refl _)]
    exact ih fun m hm hle => h m hm (Nat.le_succ_of_le hle)

theorem boundary_inside {run : List Char} (hletters : ∀ d ∈ run, d.isAlpha = true) (rest : List Char)
    {m : Nat} (hm : 0 < m) (hlt : m < run.length) :
    boundary ((run ++ rest).take m) ((run ++ rest).drop m) = false := by
  have hne : run.take m ≠ [] := List.ne_nil_of_length_pos (by rw [List.length_take]; omega)
  rw [List.take_append_of_le_length (Nat.le_of_lt hlt), List.drop_append_of_le_length (Nat.le_of_lt hlt),
    boundary_of_letters hne fun d hd => hletters d (List.mem_of_mem_take hd),
    List.drop_eq_getElem_cons hlt, List.cons_append, List.head?_cons, Option.any_some,
    Text.isWord_of_isAlpha (hletters _ (List.getElem_mem hlt))]
  rfl

/-- A run of letters is taken as a whole, or not at all where the word goes on after it. -/
theorem backtrack_run {run : List Char} (hne : run ≠ []) (hletters : ∀ d ∈ run, d.isAlpha = true)
    (rest : List Char) :
    backtrack (run ++ rest) run.length = if rest.head?.any Text.isWord then none else some run := by
  obtain ⟨n, hn⟩ := Nat.exists_eq_add_one_of_ne_zero (mt List.eq_nil_of_length_eq_zero hne)
  rw [hn, backtrack, ← hn, List.take_left, List.drop_left, boundary_of_letters hne hletters]
  cases rest.head?.any Text.isWord with
  | false => rfl
  | true => exact backtrack_eq_none fun m hm hle => boundary_inside hletters rest hm (by omega)

theorem take?_letters_of_isAlpha (hc : c.isAlpha = true) (cs : List Char) :
    take? (c :: cs) letters =
      if ((c :: cs).dropWhile Char.isAlpha).head?.any Text.isWord then none
      else some ((c :: cs).takeWhile Char.isAlpha,
        some (symbol (String.ofList ((c :: cs).takeWhile Char.isAlpha)))) := by
  have hne : (c :: cs).takeWhile Char.isAlpha ≠ [] := by simp [hc]
  have hrun := backtrack_run hne (List.all_eq_true.1 List.all_takeWhile)
    ((c :: cs).dropWhile Char.isAlpha)
  rw [List.takeWhile_append_dropWhile] at hrun
  rw [take?, hrun]
  split <;> rfl

theorem findSome?_keywords {ks : List (List Char × Token)} {run : List Char}
    {f : Alternative → Option Piece}
    (h : ∀ k ∈ ks, f (keyword k.1 k.2) = if run = k.1 then some (k.1, some k.2) else none) :
    (ks.map fun k => keyword k.1 k.2).findSome? f = (ks.lookup run).map fun t => (run, some t) := by
  induction ks with
  | nil => rfl
  | cons k ks ih =>
    obtain ⟨w, t⟩ := k
    have ih' := ih fun k hk => h k (List.mem_cons_of_mem _ hk)
    rw [List.map_cons, List.findSome?_cons, h (w, t) (List.mem_cons_self ..), ih', List.lookup_cons]
    by_cases hw : run = w
    · simp [hw]
    · simp [hw, beq_false_of_ne hw]

theorem findSome?_signs (ss : List (List Char × Token)) (cs : List Char) :
    (ss.map fun s => sign s.1 s.2).findSome? (take? cs) =
      (ss.find? fun s => s.1.isPrefixOf cs).map fun s => (s.1, some s.2) := by
  induction ss with
  | nil => rfl
  | cons s ss ih =>
    rw [List.map_cons, List.findSome?_cons, ih, List.find?_cons, take?]
    cases s.1.isPrefixOf cs <;> rfl

theorem leftmost?_eq_piece? (cs : List Char) : leftmost? cs = piece? cs := by
  cases cs with
  | nil => decide
  | cons c cs =>
    by_cases hb : Text.isBlank c = true
    · have hblanks : take? (c :: cs) blanks = some ((c :: cs).takeWhile Text.isBlank, none) := by
        simp [take?, hb]
      rw [piece?_of_blank hb, leftmost?, all, List.findSome?_cons, hblanks]
    · rw [Bool.not_eq_true] at hb
      by_cases ha : c.isAlpha = true
      · have hother : ∀ a ∈ all, isWord a = false → take? (c :: cs) a = none := by
          intro a hm hw
          cases a with
          | blanks => exact take?_blanks_of_not_blank hb
          | sign w t =>
            have hs : sign w t ∈ signs.map fun s => sign s.1 s.2 :=
              filter_isSign ▸ List.mem_filter.2 ⟨hm, rfl⟩
            obtain ⟨s, hs, he⟩ := List.mem_map.1 hs
            exact he ▸ take?_sign_of_isAlpha ha hs
          | keyword w t => simp [isWord] at hw
          | letters => simp [isWord] at hw
        rw [piece?_of_isAlpha ha, leftmost?, findSome?_filter hother, filter_isWord, List.findSome?_append]
        have hkeyword : ∀ k ∈ keywords, _ := fun k hk => take?_keyword_of_isAlpha (c :: cs) hk
        have hletters := take?_letters_of_isAlpha ha cs
        cases hr : ((c :: cs).dropWhile Char.isAlpha).head?.any Text.isWord with
        | true =>
          simp only [hr, if_true] at hkeyword hletters ⊢
          have hnone : (keywords.map fun k => keyword k.1 k.2).findSome? (take? (c :: cs)) = none :=
            List.findSome?_eq_none_iff.2 (List.forall_mem_map.2 hkeyword)
          rw [hnone, List.findSome?_singleton, hletters]
          rfl
        | false =>
          simp only [hr, Bool.false_eq_true, if_false] at hkeyword hletters ⊢
          rw [findSome?_keywords hkeyword, List.findSome?_singleton, hletters, ofWord]
          cases keywords.lookup ((c :: cs).takeWhile Char.isAlpha) <;> rfl
      · rw [Bool.not_eq_true] at ha
        have hother : ∀ a ∈ all, isSign a = false → take? (c :: cs) a = none := by
          intro a hm hs
          cases a with
          | blanks => exact take?_blanks_of_not_blank hb
          | sign w t => simp [isSign] at hs
          | keyword w t =>
            have hk : keyword w t ∈ (keywords.map fun k => keyword k.1 k.2) ++ [letters] :=
              filter_isWord ▸ List.mem_filter.2 ⟨hm, rfl⟩
            rcases List.mem_append.1 hk with hk | hk
            · obtain ⟨k, hk, he⟩ := List.mem_map.1 hk
              exact he ▸ take?_keyword_of_not_isAlpha ha hk
            · simp at hk
          | letters => exact take?_letters_of_not_isAlpha ha
        rw [piece?_of_sign hb ha, leftmost?, findSome?_filter hother, filter_isSign, findSome?_signs]

/-- The first alternative that takes anything takes the longest piece that a rule takes. -/
theorem leftmost?_iff : leftmost? cs = some (w, t) ↔ Longest cs w t := by
  rw [leftmost?_eq_piece?, longest_iff]

end Leftmost

end Alternative

end Token

end TruthTables
