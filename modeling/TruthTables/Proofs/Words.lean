import TruthTables.Proofs.Labels
import TruthTables.Token.Lexer

/-! # Words and the tokens that are read from them -/
namespace TruthTables

def keywordNames : List String := ["and", "v", "or", "xor", "impl", "iff", "not"]

/-- The words that stand for symbols. -/
def ProperName (name : String) : Prop :=
  name ≠ "" ∧ (∀ c ∈ name.toList, c.isAlpha = true) ∧ name ∉ keywordNames

instance (name : String) : Decidable (ProperName name) :=
  decidable_of_iff (name ≠ "" ∧ name.toList.all Char.isAlpha ∧ name ∉ keywordNames) (by
    rw [List.all_eq_true, ProperName])

theorem ProperName.toList_ne_nil {name : String} (h : ProperName name) : name.toList ≠ [] :=
  fun hl => h.1 (String.toList_eq_nil_iff.1 hl)

theorem ProperName.plain {name : String} (h : ProperName name) : PlainName name := by
  refine ⟨fun hc => ?_, fun hc => ?_, fun hc => ?_, fun hc => ?_⟩
  all_goals exact absurd (h.2.1 _ hc) (by decide)

namespace Text

theorem toNat_of_isAlpha {c : Char} (h : c.isAlpha = true) :
    65 ≤ c.toNat ∧ c.toNat ≤ 90 ∨ 97 ≤ c.toNat ∧ c.toNat ≤ 122 := by
  rcases Bool.or_eq_true_iff.1 h with h | h
  · obtain ⟨h₁, h₂⟩ : 65 ≤ c.val ∧ c.val ≤ 90 := of_decide_eq_true h
    exact .inl ⟨UInt32.le_iff_toNat_le.1 h₁, UInt32.le_iff_toNat_le.1 h₂⟩
  · obtain ⟨h₁, h₂⟩ := Bool.and_eq_true_iff.1 h
    exact .inr ⟨UInt32.le_iff_toNat_le.1 (of_decide_eq_true h₁),
      UInt32.le_iff_toNat_le.1 (of_decide_eq_true h₂)⟩

theorem isBlank_of_isAlpha {c : Char} (h : c.isAlpha = true) : isBlank c = false := by
  have hc := toNat_of_isAlpha h
  simp only [isBlank, inRanges, blankRanges, Bool.and_eq_false_iff, Bool.or_eq_false_iff,
    decide_eq_false_iff_not]
  omega

theorem isWord_of_isAlpha {c : Char} (h : c.isAlpha = true) : isWord c = true := by
  have hc := toNat_of_isAlpha h
  obtain ⟨ranges, hr⟩ : ∃ ranges, wordRanges =
      (0x30, 0x39) :: (0x41, 0x5a) :: (0x5f, 0x5f) :: (0x61, 0x7a) :: ranges := ⟨_, rfl⟩
  rw [isWord, hr]
  simp only [inRanges, Bool.and_eq_true, Bool.or_eq_true, decide_eq_true_eq]
  omega

end Text

namespace Token

theorem keywordNames_eq : keywordNames = keywords.map fun k => String.ofList k.1 := by decide

theorem lookup_keywords_eq_none_iff {word : List Char} :
    keywords.lookup word = none ↔ String.ofList word ∉ keywordNames := by
  rw [keywordNames_eq, List.lookup_eq_none_iff, List.mem_map]
  constructor
  · rintro h ⟨k, hk, he⟩
    simpa [String.ofList_injective he] using h k hk
  · intro h k hk
    rw [bne_iff_ne]
    rintro rfl
    exact h ⟨k, hk, rfl⟩

theorem ofWord_of_not_mem {word : List Char} (h : String.ofList word ∉ keywordNames) :
    ofWord word = symbol (String.ofList word) := by
  rw [ofWord, lookup_keywords_eq_none_iff.2 h]
  rfl

theorem symbol_not_mem_keywords (name : String) : symbol name ∉ keywords.map Prod.snd := by
  simp [keywords]

theorem symbol_not_mem_signs (name : String) : symbol name ∉ signs.map Prod.snd := by
  simp [signs]

/-- A text starts with a symbol only where its first letters are a proper name. -/
theorem properName_of_first? {cs word : List Char} {name : String}
    (h : first? cs = some (symbol name, word)) : ProperName name := by
  unfold first? at h
  split at h
  · obtain ⟨s, hs, he⟩ := Option.map_eq_some_iff.1 h
    refine absurd ?_ (symbol_not_mem_signs name)
    exact List.mem_map.2 ⟨s, List.mem_of_find?_eq_some hs, (Prod.mk.inj he).1⟩
  · rename_i c ds hw
    split at h
    · simp at h
    · have he : ofWord (c :: ds) = symbol name := (Prod.mk.inj (Option.some.inj h)).1
      unfold ofWord at he
      cases hk : keywords.lookup (c :: ds) with
      | some t =>
        rw [hk] at he
        obtain ⟨l, r, hl, -⟩ := List.lookup_eq_some_iff.1 hk
        refine absurd (List.mem_map.2 ⟨(c :: ds, t), ?_, he⟩) (symbol_not_mem_keywords name)
        rw [hl]
        simp
      | none =>
        rw [hk] at he
        obtain rfl := symbol.inj he
        refine ⟨by simp, ?_, lookup_keywords_eq_none_iff.1 hk⟩
        rw [String.toList_ofList, ← hw]
        exact List.all_eq_true.1 List.all_takeWhile

theorem any_eq_false_iff {o : Option Char} {p : Char → Bool} :
    o.any p = false ↔ ∀ c ∈ o, p c = false := by
  cases o <;> simp

theorem takeWhile_append_stop {p : Char → Bool} {w r : List Char} (hw : ∀ c ∈ w, p c = true)
    (hr : ∀ c ∈ r.head?, p c = false) : (w ++ r).takeWhile p = w ∧ (w ++ r).dropWhile p = r := by
  rw [List.takeWhile_append_of_pos hw, List.dropWhile_append_of_pos hw]
  cases r with
  | nil => simp
  | cons c r => simp [hr c rfl]

def EndsWord (r : List Char) : Prop := ∀ c ∈ r.head?, c.isAlpha = false ∧ Text.isWord c = false

theorem first?_name {name : String} (hn : ProperName name) {r : List Char} (hr : EndsWord r) :
    first? (name.toList ++ r) = some (symbol name, name.toList) := by
  have hne := hn.toList_ne_nil
  obtain ⟨-, ha, hk⟩ := hn
  obtain ⟨htake, hdrop⟩ := takeWhile_append_stop ha fun c hc => (hr c hc).1
  have hword : r.head?.any Text.isWord = false := any_eq_false_iff.2 fun c hc => (hr c hc).2
  rw [first?, htake, hdrop]
  cases hl : name.toList with
  | nil => exact absurd hl hne
  | cons c ds =>
    have he : String.ofList (c :: ds) = name := by rw [← hl, String.ofList_toList]
    simp only [hword, Bool.false_eq_true, if_false]
    rw [ofWord_of_not_mem (he ▸ hk), he]

theorem first?_sign (c : Connective) (r : List Char) :
    first? (c.sign :: r) = some (connective c, [c.sign]) := by
  cases c <;> rfl

end Token

namespace Lexeme

/-- A token that has been read is the first of the tokens, and the rest is read after its last character. -/
theorem scan_of_first? {word r : List Char} {t : Token} {c : Char} (hc : Text.isBlank c = false)
    (h : Token.first? (c :: word ++ r) = some (t, c :: word)) (pos : Nat) :
    scan pos 0 (c :: word ++ r) =
      (scan (pos + byteSize (c :: word)) 0 r).map (⟨t, pos⟩ :: ·) := by
  have hskip : scan (pos + c.utf8Size) word.length (word ++ r) =
      scan (pos + byteSize (c :: word)) 0 r := by
    rw [scan_skip, List.take_left, List.drop_left, Nat.add_assoc]
    rfl
  rw [List.cons_append] at h ⊢
  rw [scan, hc, h]
  simp only [Bool.false_eq_true, if_false, List.length_cons, Nat.add_sub_cancel, hskip]
  cases scan (pos + byteSize (c :: word)) 0 r <;> rfl

/-- Before the text `r`, the text `cs` is read as the tokens `ts`. -/
def Scans (cs r : List Char) (ts : List Token) : Prop :=
  ∀ pos, ∃ us, us.map (·.token) = ts ∧
    scan pos 0 (cs ++ r) = (scan (pos + byteSize cs) 0 r).map (us ++ ·)

theorem Scans.append {cs ds r : List Char} {ts ts' : List Token} (h : Scans cs (ds ++ r) ts)
    (h' : Scans ds r ts') : Scans (cs ++ ds) r (ts ++ ts') := by
  intro pos
  obtain ⟨us, hus, hcs⟩ := h pos
  obtain ⟨vs, hvs, hds⟩ := h' (pos + byteSize cs)
  refine ⟨us ++ vs, by rw [List.map_append, hus, hvs], ?_⟩
  rw [List.append_assoc, hcs, hds, byteSize_append, Nat.add_assoc]
  cases scan (pos + (byteSize cs + byteSize ds)) 0 r with
  | error e => rfl
  | ok ls => exact congrArg Except.ok (List.append_assoc us vs ls).symm

theorem Scans.token {word r : List Char} {t : Token} {c : Char} (hc : Text.isBlank c = false)
    (h : Token.first? (c :: word ++ r) = some (t, c :: word)) : Scans (c :: word) r [t] :=
  fun pos => ⟨[⟨t, pos⟩], rfl, scan_of_first? hc h pos⟩

theorem Scans.blank {c : Char} (hc : Text.isBlank c = true) (r : List Char) : Scans [c] r [] := by
  intro pos
  refine ⟨[], rfl, ?_⟩
  have hone : byteSize [c] = c.utf8Size := by simp [byteSize]
  rw [List.cons_append, List.nil_append, scan, if_pos hc, hone]
  cases scan (pos + c.utf8Size) 0 r <;> rfl

theorem Scans.name {name : String} (hn : ProperName name) {r : List Char} (hr : Token.EndsWord r) :
    Scans name.toList r [.symbol name] := by
  have hf := Token.first?_name hn hr
  cases hl : name.toList with
  | nil => exact absurd hl hn.toList_ne_nil
  | cons c word =>
    rw [hl] at hf
    exact .token (Text.isBlank_of_isAlpha (hn.2.1 c (by rw [hl]; exact List.mem_cons_self ..))) hf

theorem properName_of_scan {pos skip : Nat} {cs : List Char} {ls : List Lexeme}
    (h : scan pos skip cs = .ok ls) :
    ∀ l ∈ ls, ∀ name, l.token = .symbol name → ProperName name := by
  fun_induction scan pos skip cs generalizing ls with
  | case1 pos skip =>
    obtain rfl := Except.ok.inj h
    simp
  | case2 pos skip c cs ih => exact ih h
  | case3 pos c cs hb ih => exact ih h
  | case4 pos c cs hb hf => simp at h
  | case5 pos c cs hb t word hf e hs ih => simp at h
  | case6 pos c cs hb t word hf rest hs ih =>
    obtain rfl := Except.ok.inj h
    intro l hl name hn
    rcases List.mem_cons.1 hl with rfl | hl
    · obtain rfl : t = .symbol name := hn
      exact Token.properName_of_first? hf
    · exact ih hs l hl name hn

theorem properName_of_ofString {s : String} {ls : List Lexeme} (h : ofString s = .ok ls) :
    ∀ l ∈ ls, ∀ name, l.token = .symbol name → ProperName name := properName_of_scan h

end Lexeme

end TruthTables
