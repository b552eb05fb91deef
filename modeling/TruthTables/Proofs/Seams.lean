import Mathlib.Data.List.Find
import TruthTables.Proofs.Spellings

/-! # Texts side by side -/
namespace TruthTables

namespace Token

/-- The text `ds` starts with white space, or with a letter that continues no word at the end of `cs`. -/
def Seam (cs ds : List Char) : Prop :=
  ∀ d ∈ ds.head?, Text.isBlank d = true ∨ d.isAlpha = true ∧ ∀ c ∈ cs.getLast?, c.isAlpha = false

section Seam

variable {cs ds w : List Char} {t : Token}

theorem seam_of_blank (hd : ∀ d ∈ ds.head?, Text.isBlank d = true) : Seam cs ds := fun d h => .inl (hd d h)

theorem Seam.tail {c : Char} (h : Seam (c :: cs) ds) : Seam cs ds := by
  intro d hd
  refine (h d hd).imp_right fun ⟨ha, hlast⟩ => ⟨ha, fun e he => hlast e ?_⟩
  rw [List.getLast?_cons, Option.mem_def.1 he]
  rfl

/-- No sign contains white space or a letter, so none reaches over the seam. -/
theorem Seam.isPrefixOf_append (h : Seam cs ds) {s : List Char × Token} (hs : s ∈ signs) :
    s.1.isPrefixOf (cs ++ ds) = s.1.isPrefixOf cs := by
  rw [Bool.eq_iff_iff, List.isPrefixOf_iff_prefix, List.isPrefixOf_iff_prefix]
  refine ⟨fun hp => ?_, fun hp => hp.trans (List.prefix_append ..)⟩
  have hall : ∀ s ∈ signs, (s.1.all fun c => !Text.isBlank c && !c.isAlpha) = true := by decide
  obtain ⟨r, hr⟩ := hp
  rcases List.append_eq_append_iff.1 hr with ⟨v, hcs, -⟩ | ⟨v, hw, hds⟩
  · exact ⟨v, hcs.symm⟩
  · cases v with
    | nil => exact ⟨[], by rw [hw, List.append_nil, List.append_nil]⟩
    | cons d v =>
      have hd : !Text.isBlank d && !d.isAlpha := by
        refine List.all_eq_true.1 (hall s hs) d ?_
        rw [hw]
        simp
      rcases h d (by rw [hds]; rfl) with hb | ⟨ha, -⟩
      · simp [hb] at hd
      · simp [ha] at hd

/-- The letters at the start of a text end in it or with it, and what is in the text decides whether they are a
word. -/
theorem Seam.head?_dropWhile (h : Seam cs ds) (hne : cs ≠ []) :
    ∃ w r, cs = w ++ r ∧ (∀ c ∈ w, c.isAlpha = true) ∧ (∀ c ∈ r.head?, c.isAlpha = false) ∧
      (∀ c ∈ (r ++ ds).head?, c.isAlpha = false) ∧ (r ++ ds).head?.any Text.isWord = r.head?.any Text.isWord := by
  have hw : ∀ c ∈ cs.takeWhile Char.isAlpha, c.isAlpha = true := List.all_eq_true.1 List.all_takeWhile
  have hsplit : cs = cs.takeWhile Char.isAlpha ++ cs.dropWhile Char.isAlpha :=
    List.takeWhile_append_dropWhile.symm
  refine ⟨_, _, hsplit, hw, ?_⟩
  cases hr : cs.dropWhile Char.isAlpha with
  | cons c r => simp [head_of_dropWhile_eq_cons hr]
  | nil =>
    -- the text ends with a letter, so that white space comes next
    rw [hr, List.append_nil] at hsplit
    have hblank : ∀ d ∈ ds.head?, Text.isBlank d = true := fun d hd => by
      refine (h d hd).resolve_right fun ⟨_, hlast⟩ => ?_
      have hletter := hw (cs.getLast hne) (hsplit ▸ List.getLast_mem hne)
      exact absurd ((hlast _ (List.getLast?_eq_some_getLast hne)).symm.trans hletter) (by decide)
    refine ⟨by simp, fun d hd => ?_, ?_⟩
    · exact Bool.eq_false_iff.2 fun ha => absurd ((hblank d hd).symm.trans (Text.isBlank_of_isAlpha ha)) (by decide)
    · exact any_eq_false_iff.2 fun d hd => Text.isWord_of_isBlank (hblank d hd)

theorem Seam.first?_append (h : Seam cs ds) (hne : cs ≠ []) : first? (cs ++ ds) = first? cs := by
  obtain ⟨w, r, rfl, hw, hr, hrds, hword⟩ := h.head?_dropWhile hne
  obtain ⟨htake, hdrop⟩ := takeWhile_append_stop hw hr
  obtain ⟨htake', hdrop'⟩ := takeWhile_append_stop hw hrds
  have hsigns : signs.find? (fun s => s.1.isPrefixOf (w ++ r ++ ds)) = signs.find? fun s => s.1.isPrefixOf (w ++ r) :=
    List.find?_congr fun s hs => h.isPrefixOf_append hs
  rw [first?, first?, hsigns, htake, hdrop, List.append_assoc, htake', hdrop', hword]

theorem Seam.first?_cons_append {c : Char} (h : Seam (c :: cs) ds) : first? (c :: (cs ++ ds)) = first? (c :: cs) :=
  h.first?_append (List.cons_ne_nil c cs)

theorem prefix_of_first? (h : first? cs = some (t, w)) : w <+: cs := by
  unfold first? at h
  split at h
  · obtain ⟨s, hs, he⟩ := Option.map_eq_some_iff.1 h
    obtain ⟨-, rfl⟩ := Prod.mk.inj he
    have hp : s.1.isPrefixOf cs = true := List.find?_some (p := fun s : List Char × Token => s.1.isPrefixOf cs) hs
    exact List.isPrefixOf_iff_prefix.1 hp
  · rename_i c ds hw
    split at h
    · simp at h
    · obtain ⟨-, rfl⟩ := Prod.mk.inj (Option.some.inj h)
      exact hw ▸ List.takeWhile_prefix _

theorem spelling_of_first? (h : first? cs = some (t, w)) : Spelling t w := by
  unfold first? at h
  split at h
  · obtain ⟨s, hs, he⟩ := Option.map_eq_some_iff.1 h
    obtain ⟨rfl, rfl⟩ := Prod.mk.inj he
    exact .sign (List.mem_of_find?_eq_some hs)
  · rename_i c ds hw
    split at h
    · simp at h
    · obtain ⟨rfl, rfl⟩ := Prod.mk.inj (Option.some.inj h)
      have hletters : ∀ d ∈ c :: ds, d.isAlpha = true := hw ▸ List.all_eq_true.1 List.all_takeWhile
      exact (rule_ofWord (r := []) (List.cons_ne_nil c ds) hletters (by simp)).spelling

theorem dropWhile_ne_nil_of_first? (h : first? cs = none) (hne : cs ≠ []) : cs.dropWhile Char.isAlpha ≠ [] := by
  intro hd
  have hsplit : cs.takeWhile Char.isAlpha = cs := by
    simpa [hd] using List.takeWhile_append_dropWhile (p := Char.isAlpha) (l := cs)
  cases cs with
  | nil => exact hne rfl
  | cons c cs => simp [first?, hsplit, hd] at h

end Seam

end Token

namespace Lexeme

/-- A lexeme with `n` more bytes before it. -/
def shift (n : Nat) (l : Lexeme) : Lexeme := { l with pos := n + l.pos }

end Lexeme

def LexicalError.shift (n : Nat) (e : LexicalError) : LexicalError := { e with pos := n + e.pos }

namespace Lexeme

open Token (Seam)

section Scan

variable {cs ds : List Char}

/-- Only the offsets depend on where a text starts. -/
theorem scan_shift (n pos skip : Nat) (cs : List Char) :
    scan (n + pos) skip cs = ((scan pos skip cs).map (List.map (shift n))).mapError (LexicalError.shift n) := by
  fun_induction scan pos skip cs with
  | case1 pos skip => cases skip <;> rfl
  | case2 pos skip c cs ih => rw [scan, Nat.add_assoc, ih]
  | case3 pos c cs hb ih => rw [scan, if_pos hb, Nat.add_assoc, ih]
  | case4 pos c cs hb hf =>
    rw [scan, if_neg hb, hf]
    simp only [errorAt, Nat.add_assoc]
    rfl
  | case5 pos c cs hb t word hf e hs ih =>
    rw [hs] at ih
    rw [scan, if_neg hb, hf]
    simp only [Nat.add_assoc, ih]
    rfl
  | case6 pos c cs hb t word hf ls hs ih =>
    rw [hs] at ih
    rw [scan, if_neg hb, hf]
    simp only [Nat.add_assoc, ih]
    rfl

theorem errorAt_append {c : Char} (h : (c :: cs).dropWhile Char.isAlpha ≠ []) (pos : Nat) (ds : List Char) :
    errorAt pos c (cs ++ ds) = errorAt pos c cs := by
  have hw : ∀ d ∈ (c :: cs).takeWhile Char.isAlpha, d.isAlpha = true := List.all_eq_true.1 List.all_takeWhile
  obtain ⟨d, r, hr⟩ := List.exists_cons_of_ne_nil h
  have hd : d.isAlpha = false := Token.head_of_dropWhile_eq_cons hr
  have hsplit : c :: (cs ++ ds) = (c :: cs).takeWhile Char.isAlpha ++ (d :: r ++ ds) := by
    rw [← List.append_assoc, ← hr, List.takeWhile_append_dropWhile, List.cons_append]
  obtain ⟨htake, hdrop⟩ := Token.takeWhile_append_stop hw (r := d :: r ++ ds) (by simpa using hd)
  rw [errorAt, errorAt, hsplit, htake, hdrop, hr]
  rfl

/-- Up to the seam a text is read as if it ended there, and what comes after is read by itself. -/
theorem scan_append (h : Seam cs ds) (pos : Nat) {skip : Nat} (hskip : skip ≤ cs.length) :
    scan pos skip (cs ++ ds) = (scan pos skip cs).bind fun ls =>
      (scan (pos + byteSize cs) 0 ds).map (ls.filter (·.token ≠ .eof) ++ ·) := by
  fun_induction scan pos skip cs with
  | case1 pos skip =>
    obtain rfl : skip = 0 := Nat.le_zero.1 hskip
    cases hs : scan pos 0 ds <;> simp [Except.bind, Except.map, byteSize, hs]
  | case2 pos skip c cs ih =>
    rw [List.cons_append, scan, ih h.tail (Nat.le_of_succ_le_succ hskip)]
    simp only [byteSize, List.foldr_cons, Nat.add_assoc]
  | case3 pos c cs hb ih =>
    rw [List.cons_append, scan, if_pos hb, ih h.tail (Nat.zero_le _)]
    simp only [byteSize, List.foldr_cons, Nat.add_assoc]
  | case4 pos c cs hb hf =>
    have hne := Token.dropWhile_ne_nil_of_first? hf (List.cons_ne_nil c cs)
    rw [List.cons_append, scan, if_neg hb, h.first?_cons_append, hf]
    exact congrArg Except.error (errorAt_append hne pos ds)
  | case5 pos c cs hb t word hf e hs ih =>
    have hword := (Token.prefix_of_first? hf).length_le
    rw [hs] at ih
    rw [List.cons_append, scan, if_neg hb, h.first?_cons_append, hf]
    simp only [ih h.tail (Nat.sub_le_of_le_add hword)]
    rfl
  | case6 pos c cs hb t word hf ls hs ih =>
    have hword := (Token.prefix_of_first? hf).length_le
    have ht : t ≠ .eof := (Token.spelling_of_first? hf).ne_eof
    rw [hs] at ih
    rw [List.cons_append, scan, if_neg hb, h.first?_cons_append, hf]
    have hfilter : (⟨t, pos⟩ :: ls).filter (fun l : Lexeme => l.token ≠ .eof) =
        ⟨t, pos⟩ :: ls.filter fun l : Lexeme => l.token ≠ .eof := List.filter_cons_of_pos (decide_eq_true ht)
    simp only [ih h.tail (Nat.sub_le_of_le_add hword), byteSize, List.foldr_cons, ← Nat.add_assoc, Except.bind,
      hfilter]
    cases scan (pos + c.utf8Size + cs.foldr (fun c n => c.utf8Size + n) 0) 0 ds <;> rfl

end Scan

theorem mem_of_head? {w t : String} (hne : w ≠ "") {d : Char} (h : d ∈ (w ++ t).toList.head?) : d ∈ w.toList := by
  rw [String.toList_append, List.head?_append_of_ne_nil _ (mt String.toList_eq_nil_iff.1 hne)] at h
  exact List.mem_of_head? h

theorem scan_toList (n : Nat) (t : String) :
    scan n 0 t.toList = ((ofString t).map (List.map (shift n))).mapError (LexicalError.shift n) :=
  scan_shift n 0 0 t.toList

theorem ofString_append {s t : String} (h : Seam s.toList t.toList) :
    ofString (s ++ t) = (ofString s).bind fun ls =>
      ((ofString t).map fun ls' => ls.filter (·.token ≠ .eof) ++ ls'.map (shift s.utf8ByteSize)).mapError
        (LexicalError.shift s.utf8ByteSize) := by
  rw [ofString, String.toList_append, scan_append h 0 (Nat.zero_le _), byteSize_toList, Nat.zero_add,
    scan_toList s.utf8ByteSize t, ← ofString]
  cases ofString s with
  | error e => rfl
  | ok ls => cases ofString t <;> rfl

theorem ofString_blank_append {w : String} (hw : Text.Blank w) (t : String) :
    ofString (w ++ t) = ((ofString t).map (List.map (shift w.utf8ByteSize))).mapError
      (LexicalError.shift w.utf8ByteSize) := by
  rw [ofString, String.toList_append, scan_blanks hw, byteSize_toList, Nat.zero_add, scan_toList]

/-- Two texts with white space between them are read one after the other: the first error counts, and without one
the tokens of the second text follow those of the first, as many bytes later as stand before the second text. -/
theorem ofString_append_blank_append (s w t : String) (hne : w ≠ "") (hw : Text.Blank w) :
    (∀ e, ofString s = .error e → ofString (s ++ w ++ t) = .error e) ∧
      (∀ ls e, ofString s = .ok ls → ofString t = .error e →
        ofString (s ++ w ++ t) = .error ⟨s.utf8ByteSize + w.utf8ByteSize + e.pos, e.found⟩) ∧
      ∀ ls ls', ofString s = .ok ls → ofString t = .ok ls' →
        ofString (s ++ w ++ t) = .ok (ls.filter (·.token ≠ .eof) ++
          ls'.map fun l => ⟨l.token, s.utf8ByteSize + w.utf8ByteSize + l.pos⟩) := by
  have hseam : Seam s.toList (w ++ t).toList :=
    Token.seam_of_blank fun d hd => hw d (mem_of_head? hne hd)
  have hread := ofString_append hseam
  rw [ofString_blank_append hw] at hread
  rw [String.append_assoc, hread]
  refine ⟨fun e he => ?_, fun ls e hs he => ?_, fun ls ls' hs ht => ?_⟩
  · rw [he]
    rfl
  · rw [hs, he, Nat.add_assoc]
    rfl
  · rw [hs, ht]
    simp [Except.bind, Except.map, Except.mapError, shift, Function.comp_def, Nat.add_assoc]

/-- Signs that would be one without the white space, and errors before and after it. -/
theorem ofString_append_blank_append_arrow :
    let w := "\t\u3000"
    (w ≠ "" ∧ Text.Blank w) ∧
      (ofString "a %" = .error ⟨2, '%'⟩ ∧ ofString ("a %" ++ w ++ "1") = .error ⟨2, '%'⟩) ∧
      (ofString "a -" = .ok [⟨.symbol "a", 0⟩, ⟨.not, 2⟩, ⟨.eof, 3⟩] ∧ ofString "> b" = .error ⟨0, '>'⟩ ∧
        ofString ("a -" ++ w ++ "> b") = .error ⟨7, '>'⟩) ∧
      ofString " b" = .ok [⟨.symbol "b", 1⟩, ⟨.eof, 2⟩] ∧
        ofString ("a -" ++ w ++ " b") = .ok [⟨.symbol "a", 0⟩, ⟨.not, 2⟩, ⟨.symbol "b", 8⟩, ⟨.eof, 9⟩] := by
  intro w
  have hne : w ≠ "" := by decide
  have hw : Text.Blank w := by decide
  have hbad : ofString "a %" = .error ⟨2, '%'⟩ := by decide +kernel
  have hnot : ofString "a -" = .ok [⟨.symbol "a", 0⟩, ⟨.not, 2⟩, ⟨.eof, 3⟩] := by decide +kernel
  have hhead : ofString "> b" = .error ⟨0, '>'⟩ := by decide +kernel
  have hb : ofString " b" = .ok [⟨.symbol "b", 1⟩, ⟨.eof, 2⟩] := by decide +kernel
  have hfirst := (ofString_append_blank_append "a %" w "1" hne hw).1 _ hbad
  have hsecond := (ofString_append_blank_append "a -" w "> b" hne hw).2.1 _ _ hnot hhead
  have hboth := (ofString_append_blank_append "a -" w " b" hne hw).2.2 _ _ hnot hb
  exact ⟨⟨hne, hw⟩, ⟨hbad, hfirst⟩, ⟨hnot, hhead, hsecond⟩, hb, hboth⟩

end Lexeme

end TruthTables
