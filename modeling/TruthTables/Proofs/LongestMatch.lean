import Mathlib.Data.List.Nodup
import TruthTables.Proofs.Words

/-! # The longest piece of text that a rule takes -/
namespace TruthTables

namespace Token

abbrev Piece := List Char × Option Token

/-- The text `w` is taken where the text `r` follows it, as white space or as a token. -/
inductive Rule : (w r : List Char) → Option Token → Prop
  | blank {w r} : w ≠ [] → (∀ c ∈ w, Text.isBlank c = true) → Rule w r none
  | sign {w r t} : (w, t) ∈ signs → Rule w r (some t)
  | keyword {w r t} : (w, t) ∈ keywords → (∀ c ∈ r.head?, Text.isWord c = false) → Rule w r (some t)
  | name {w r} : w ≠ [] → (∀ c ∈ w, c.isAlpha = true) → String.ofList w ∉ keywordNames →
      (∀ c ∈ r.head?, Text.isWord c = false) → Rule w r (some (symbol (String.ofList w)))

/-- A rule takes `w` at the start of the text `cs`, and no rule takes more. -/
def Longest (cs w : List Char) (t : Option Token) : Prop :=
  (∃ r, cs = w ++ r ∧ Rule w r t) ∧ ∀ w' r' t', cs = w' ++ r' → Rule w' r' t' → w'.length ≤ w.length

theorem not_isAlpha_of_not_isWord {r : List Char} (hr : ∀ c ∈ r.head?, Text.isWord c = false) :
    ∀ c ∈ r.head?, c.isAlpha = false := fun c hc => Bool.eq_false_iff.2 fun ha =>
  absurd ((hr c hc).symm.trans (Text.isWord_of_isAlpha ha)) (by decide)

section Classes

variable {c : Char} {cs w r : List Char} {t : Option Token}

theorem sign_start {s : List Char × Token} (h : s ∈ signs) :
    ∃ c ds, s.1 = c :: ds ∧ c.isAlpha = false ∧ Text.isBlank c = false := by
  have hall : ∀ s ∈ signs, s.1.head?.any (fun c => !c.isAlpha && !Text.isBlank c) = true := by decide
  have hs := hall s h
  cases hw : s.1 with
  | nil => simp [hw] at hs
  | cons c ds =>
    rw [hw] at hs
    simpa using hs

theorem keyword_letters {k : List Char × Token} (h : k ∈ keywords) :
    k.1 ≠ [] ∧ ∀ c ∈ k.1, c.isAlpha = true := by
  have hall : (keywords.all fun k => !k.1.isEmpty && k.1.all Char.isAlpha) = true := by decide
  simpa using List.all_eq_true.1 hall k h

theorem lookup_keyword {k : List Char × Token} (h : k ∈ keywords) : keywords.lookup k.1 = some k.2 := by
  have hall : ∀ k ∈ keywords, keywords.lookup k.1 = some k.2 := by decide
  exact hall k h

private theorem head_isAlpha (hcs : c :: cs = w ++ r) (hw : w ≠ []) (ha : ∀ d ∈ w, d.isAlpha = true) :
    c.isAlpha = true := by
  cases w with
  | nil => exact absurd rfl hw
  | cons d w =>
    obtain ⟨rfl, -⟩ := List.cons.inj hcs
    exact ha c (List.mem_cons_self ..)

private theorem head_sign (hcs : c :: cs = w ++ r) {t : Token} (h : (w, t) ∈ signs) :
    c.isAlpha = false ∧ Text.isBlank c = false := by
  obtain ⟨d, ds, rfl, hd⟩ : ∃ d ds, w = d :: ds ∧ d.isAlpha = false ∧ Text.isBlank d = false :=
    sign_start h
  obtain ⟨rfl, -⟩ := List.cons.inj hcs
  exact hd

private theorem head_isBlank (hcs : c :: cs = w ++ r) (hw : w ≠ [])
    (hb : ∀ d ∈ w, Text.isBlank d = true) : Text.isBlank c = true := by
  cases w with
  | nil => exact absurd rfl hw
  | cons d w =>
    obtain ⟨rfl, -⟩ := List.cons.inj hcs
    exact hb c (List.mem_cons_self ..)

theorem Rule.of_blank (h : Rule w r t) (hcs : c :: cs = w ++ r) (hc : Text.isBlank c = true) :
    t = none ∧ w ≠ [] ∧ ∀ d ∈ w, Text.isBlank d = true := by
  have hletter : c.isAlpha ≠ true := fun ha => by simp [Text.isBlank_of_isAlpha ha] at hc
  cases h with
  | blank hw hb => exact ⟨rfl, hw, hb⟩
  | sign hs => exact absurd ((head_sign hcs hs).2.symm.trans hc) (by decide)
  | keyword hk _ => exact absurd (head_isAlpha hcs (keyword_letters hk).1 (keyword_letters hk).2) hletter
  | name hw ha _ _ => exact absurd (head_isAlpha hcs hw ha) hletter

theorem Rule.of_isAlpha (h : Rule w r t) (hcs : c :: cs = w ++ r) (hc : c.isAlpha = true) :
    t = some (ofWord w) ∧ w = (c :: cs).takeWhile Char.isAlpha ∧ r = (c :: cs).dropWhile Char.isAlpha ∧
      ∀ d ∈ r.head?, Text.isWord d = false := by
  have run (ha : ∀ d ∈ w, d.isAlpha = true) (hr : ∀ d ∈ r.head?, Text.isWord d = false) :
      w = (c :: cs).takeWhile Char.isAlpha ∧ r = (c :: cs).dropWhile Char.isAlpha := by
    obtain ⟨htake, hdrop⟩ := takeWhile_append_stop ha (not_isAlpha_of_not_isWord hr)
    rw [hcs, htake, hdrop]
    exact ⟨rfl, rfl⟩
  cases h with
  | blank hw hb =>
    exact absurd ((head_isBlank hcs hw hb).symm.trans (Text.isBlank_of_isAlpha hc)) (by decide)
  | sign hs => exact absurd ((head_sign hcs hs).1.symm.trans hc) (by decide)
  | keyword hk hr =>
    obtain ⟨hw, hrest⟩ := run (keyword_letters hk).2 hr
    exact ⟨by rw [ofWord, lookup_keyword hk]; rfl, hw, hrest, hr⟩
  | name hw ha hn hr =>
    obtain ⟨htake, hrest⟩ := run ha hr
    exact ⟨by rw [ofWord_of_not_mem hn], htake, hrest, hr⟩

theorem Rule.of_sign (h : Rule w r t) (hcs : c :: cs = w ++ r) (hb : Text.isBlank c = false)
    (ha : c.isAlpha = false) : ∃ s ∈ signs, w = s.1 ∧ t = some s.2 := by
  cases h with
  | blank hw hall => exact absurd (hb.symm.trans (head_isBlank hcs hw hall)) (by decide)
  | sign hs => exact ⟨_, hs, rfl, rfl⟩
  | keyword hk _ =>
    obtain ⟨hw, hletters⟩ := keyword_letters hk
    exact absurd (ha.symm.trans (head_isAlpha hcs hw hletters)) (by decide)
  | name hw hletters _ _ => exact absurd (ha.symm.trans (head_isAlpha hcs hw hletters)) (by decide)

theorem rule_ofWord (hw : w ≠ []) (ha : ∀ d ∈ w, d.isAlpha = true)
    (hr : ∀ d ∈ r.head?, Text.isWord d = false) : Rule w r (some (ofWord w)) := by
  cases hk : keywords.lookup w with
  | none =>
    have hn := lookup_keywords_eq_none_iff.1 hk
    rw [ofWord_of_not_mem hn]
    exact .name hw ha hn hr
  | some t =>
    obtain ⟨l, k, hl, -⟩ := List.lookup_eq_some_iff.1 hk
    have hm : (w, t) ∈ keywords := by rw [hl]; simp
    rw [ofWord, hk]
    exact .keyword hm hr

end Classes

/-- White space as far as it goes, or else the first token. -/
def piece? (cs : List Char) : Option Piece :=
  if cs.takeWhile Text.isBlank = [] then (first? cs).map fun p => (p.2, some p.1)
  else some (cs.takeWhile Text.isBlank, none)

section Piece

variable {c : Char} {cs w : List Char} {t : Option Token}

theorem piece?_nil : piece? [] = none := by rfl

theorem piece?_of_blank (hc : Text.isBlank c = true) :
    piece? (c :: cs) = some ((c :: cs).takeWhile Text.isBlank, none) := by
  simp [piece?, hc]

theorem piece?_of_isAlpha (hc : c.isAlpha = true) :
    piece? (c :: cs) = if ((c :: cs).dropWhile Char.isAlpha).head?.any Text.isWord then none
      else some ((c :: cs).takeWhile Char.isAlpha, some (ofWord ((c :: cs).takeWhile Char.isAlpha))) := by
  have hb := Text.isBlank_of_isAlpha hc
  have htake : (c :: cs).takeWhile Char.isAlpha = c :: cs.takeWhile Char.isAlpha := by simp [hc]
  rw [piece?, if_pos (by simp [hb]), first?, htake]
  dsimp only
  split <;> rfl

theorem piece?_of_sign (hb : Text.isBlank c = false) (ha : c.isAlpha = false) :
    piece? (c :: cs) = (signs.find? fun s => s.1.isPrefixOf (c :: cs)).map fun s => (s.1, some s.2) := by
  simp [piece?, first?, hb, ha, Function.comp_def]

end Piece

section Longest

variable {c : Char} {cs w : List Char} {t : Option Token}

theorem Rule.ne_nil {w r : List Char} {t : Option Token} (h : Rule w r t) : w ≠ [] := by
  cases h with
  | blank hw _ => exact hw
  | sign hs =>
    obtain ⟨c, ds, hw, -⟩ := sign_start hs
    simpa using (congrArg (· ≠ []) hw).mpr (List.cons_ne_nil c ds)
  | keyword hk _ => exact (keyword_letters hk).1
  | name hw _ _ _ => exact hw

theorem longest_blank_iff (hc : Text.isBlank c = true) :
    Longest (c :: cs) w t ↔ w = (c :: cs).takeWhile Text.isBlank ∧ t = none := by
  have hne : (c :: cs).takeWhile Text.isBlank ≠ [] := by simp [hc]
  have hrule : Rule ((c :: cs).takeWhile Text.isBlank) ((c :: cs).dropWhile Text.isBlank) none :=
    .blank hne (List.all_eq_true.1 List.all_takeWhile)
  constructor
  · rintro ⟨⟨r, hcs, h⟩, hmax⟩
    obtain ⟨rfl, -, hw⟩ := h.of_blank hcs hc
    have hle := hmax _ _ _ List.takeWhile_append_dropWhile.symm hrule
    rw [hcs, List.takeWhile_append_of_pos hw, List.length_append] at hle
    have hnil : r.takeWhile Text.isBlank = [] := List.eq_nil_of_length_eq_zero (by omega)
    rw [hcs, List.takeWhile_append_of_pos hw, hnil, List.append_nil]
    exact ⟨rfl, rfl⟩
  · rintro ⟨rfl, rfl⟩
    refine ⟨⟨_, List.takeWhile_append_dropWhile.symm, hrule⟩, fun w' r' t' hcs h => ?_⟩
    obtain ⟨-, -, hw'⟩ := h.of_blank hcs hc
    rw [hcs, List.takeWhile_append_of_pos hw', List.length_append]
    exact Nat.le_add_right _ _

theorem longest_word_iff (hc : c.isAlpha = true) :
    Longest (c :: cs) w t ↔
      (∀ d ∈ ((c :: cs).dropWhile Char.isAlpha).head?, Text.isWord d = false) ∧
        w = (c :: cs).takeWhile Char.isAlpha ∧ t = some (ofWord w) := by
  constructor
  · rintro ⟨⟨r, hcs, h⟩, -⟩
    obtain ⟨ht, hw, rfl, hr⟩ := h.of_isAlpha hcs hc
    exact ⟨hr, hw, ht⟩
  · rintro ⟨hr, rfl, rfl⟩
    have hne : (c :: cs).takeWhile Char.isAlpha ≠ [] := by simp [hc]
    have hrule := rule_ofWord hne (List.all_eq_true.1 List.all_takeWhile) hr
    refine ⟨⟨_, List.takeWhile_append_dropWhile.symm, hrule⟩, fun w' r' t' hcs h => ?_⟩
    obtain ⟨-, rfl, -, -⟩ := h.of_isAlpha hcs hc
    exact Nat.le_refl _

/-- The first sign that a text starts with is the longest one. -/
theorem find?_signs_eq_some_iff {s : List Char × Token} :
    signs.find? (fun s => s.1.isPrefixOf cs) = some s ↔
      s ∈ signs ∧ s.1 <+: cs ∧ ∀ s' ∈ signs, s'.1 <+: cs → s'.1.length ≤ s.1.length := by
  have hpair : signs.Pairwise fun s s' => s.1.isPrefixOf s'.1 = false := by decide
  have hnodup : (signs.map Prod.fst).Nodup := by decide
  have longest_of_find? : ∀ s, signs.find? (fun s => s.1.isPrefixOf cs) = some s →
      s ∈ signs ∧ s.1 <+: cs ∧ ∀ s' ∈ signs, s'.1 <+: cs → s'.1.length ≤ s.1.length := by
    intro s hs
    obtain ⟨hp, before, after, hsplit, hbefore⟩ := List.find?_eq_some_iff_append.1 hs
    refine ⟨List.mem_of_find?_eq_some hs, List.isPrefixOf_iff_prefix.1 hp, fun s' hs' hp' => ?_⟩
    rw [hsplit, List.mem_append, List.mem_cons] at hs'
    rcases hs' with hs' | rfl | hs'
    · have hno := hbefore s' hs'
      simp [List.isPrefixOf_iff_prefix.2 hp'] at hno
    · exact Nat.le_refl _
    · rw [hsplit] at hpair
      have hno := (List.pairwise_cons.1 (List.pairwise_append.1 hpair).2.1).1 s' hs'
      rcases List.prefix_or_prefix_of_prefix (List.isPrefixOf_iff_prefix.1 hp) hp' with hss' | hs's
      · exact absurd (hno.symm.trans (List.isPrefixOf_iff_prefix.2 hss')) (by decide)
      · exact hs's.length_le
  refine ⟨longest_of_find? s, fun ⟨hs, hp, hmax⟩ => ?_⟩
  cases hfind : signs.find? (fun s => s.1.isPrefixOf cs) with
  | none => exact absurd (List.isPrefixOf_iff_prefix.2 hp) (List.find?_eq_none.1 hfind s hs)
  | some s' =>
    obtain ⟨hs', hp', hmax'⟩ := longest_of_find? s' hfind
    have hss' := List.prefix_of_prefix_length_le hp hp' (hmax' s hs hp)
    have heq : s.1 = s'.1 := hss'.eq_of_length_le (hmax s' hs' hp')
    rw [List.inj_on_of_nodup_map hnodup hs hs' heq]

theorem longest_sign_iff (hb : Text.isBlank c = false) (ha : c.isAlpha = false) :
    Longest (c :: cs) w t ↔
      ∃ s, signs.find? (fun s => s.1.isPrefixOf (c :: cs)) = some s ∧ (s.1, some s.2) = (w, t) := by
  constructor
  · rintro ⟨⟨r, hcs, h⟩, hmax⟩
    obtain ⟨s, hs, rfl, rfl⟩ := h.of_sign hcs hb ha
    refine ⟨s, find?_signs_eq_some_iff.2 ⟨hs, ⟨r, hcs.symm⟩, fun s' hs' => ?_⟩, rfl⟩
    rintro ⟨r', hcs'⟩
    exact hmax _ _ _ hcs'.symm (.sign hs')
  · rintro ⟨s, hs, he⟩
    obtain ⟨rfl, rfl⟩ := Prod.mk.inj he
    obtain ⟨hm, ⟨r, hcs⟩, hmax⟩ := find?_signs_eq_some_iff.1 hs
    refine ⟨⟨r, hcs.symm, .sign hm⟩, fun w' r' t' hcs' h => ?_⟩
    obtain ⟨s', hs', rfl, rfl⟩ := h.of_sign hcs' hb ha
    exact hmax s' hs' ⟨r', hcs'.symm⟩

/-- White space and the first token are the longest pieces of text that a rule takes. -/
theorem longest_iff : Longest cs w t ↔ piece? cs = some (w, t) := by
  cases cs with
  | nil =>
    rw [piece?_nil]
    refine ⟨?_, nofun⟩
    rintro ⟨⟨r, hcs, h⟩, -⟩
    exact absurd (List.append_eq_nil_iff.1 hcs.symm).1 h.ne_nil
  | cons c cs =>
    by_cases hb : Text.isBlank c = true
    · rw [longest_blank_iff hb, piece?_of_blank hb, Option.some.injEq, Prod.mk.injEq, eq_comm,
        eq_comm (a := t)]
    · rw [Bool.not_eq_true] at hb
      by_cases ha : c.isAlpha = true
      · rw [longest_word_iff ha, piece?_of_isAlpha ha]
        rw [← any_eq_false_iff]
        cases ((c :: cs).dropWhile Char.isAlpha).head?.any Text.isWord with
        | true => simp
        | false =>
          simp only [true_and, Bool.false_eq_true, if_false, Option.some.injEq, Prod.mk.injEq]
          constructor
          · rintro ⟨rfl, rfl⟩
            exact ⟨rfl, rfl⟩
          · rintro ⟨rfl, rfl⟩
            exact ⟨rfl, rfl⟩
      · rw [Bool.not_eq_true] at ha
        rw [longest_sign_iff hb ha, piece?_of_sign hb ha, Option.map_eq_some_iff]

end Longest

end Token

end TruthTables
