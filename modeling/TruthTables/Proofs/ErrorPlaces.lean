import Mathlib.Order.Bounds.Defs
import TruthTables.Proofs.Seams

/-! # Where a lexical error is -/
namespace TruthTables

namespace Token

section Truncation

variable {cs w r x rest : List Char} {t : Option Token} {ps : List Piece}

theorem Rule.of_append (h : Rule w (r ++ x) t) : Rule w r t := by
  have head_mem : ∀ c ∈ r.head?, c ∈ (r ++ x).head? := fun c hc => by
    rw [List.head?_append, Option.mem_def.1 hc]
    rfl
  cases h with
  | blank hw hb => exact .blank hw hb
  | sign hs => exact .sign hs
  | keyword hk hr => exact .keyword hk fun c hc => hr c (head_mem c hc)
  | name hw ha hn hr => exact .name hw ha hn fun c hc => hr c (head_mem c hc)

/-- A rule that takes a piece takes it in a longer text as well, unless the piece is a word that may go on. -/
theorem Rule.append (h : Rule w r t) (hr : r ≠ [] ∨ ∃ c ∈ w, c.isAlpha = false) (x : List Char) :
    Rule w (r ++ x) t := by
  have ends (ha : ∀ c ∈ w, c.isAlpha = true) (hword : ∀ c ∈ r.head?, Text.isWord c = false) :
      ∀ c ∈ (r ++ x).head?, Text.isWord c = false := by
    rcases hr with hr | ⟨c, hc, hn⟩
    · rwa [List.head?_append_of_ne_nil _ hr]
    · exact absurd (hn.symm.trans (ha c hc)) (by decide)
  cases h with
  | blank hw hb => exact .blank hw hb
  | sign hs => exact .sign hs
  | keyword hk hword => exact .keyword hk (ends (keyword_letters hk).2 hword)
  | name hw ha hn hword => exact .name hw ha hn (ends ha hword)

theorem Longest.of_append (h : Longest (w ++ (r ++ x)) w t) : Longest (w ++ r) w t := by
  obtain ⟨⟨r₀, hcs, hrule⟩, hmax⟩ := h
  obtain rfl := List.append_cancel_left hcs
  refine ⟨⟨r, rfl, hrule.of_append⟩, fun w' r' t' hcs' h' => ?_⟩
  by_cases hr' : r' ≠ [] ∨ ∃ c ∈ w', c.isAlpha = false
  · refine hmax w' (r' ++ x) t' ?_ (h'.append hr' x)
    rw [← List.append_assoc, hcs', List.append_assoc]
  · -- a word that ends with the part goes on to the same letter in the whole text
    obtain ⟨rfl, hletters⟩ : r' = [] ∧ ∀ c ∈ w', c.isAlpha = true := by simpa using hr'
    rw [List.append_nil] at hcs'
    obtain ⟨c, v, rfl⟩ := List.exists_cons_of_ne_nil hrule.ne_nil
    have hc : c.isAlpha = true := hletters c (by rw [← hcs']; exact List.mem_cons_self ..)
    have hcs : c :: (v ++ (r ++ x)) = (c :: v) ++ (r ++ x) := rfl
    obtain ⟨-, hw, -⟩ := hrule.of_isAlpha hcs hc
    have hrun : (c :: v) = w' ++ x.takeWhile Char.isAlpha := by
      rw [← List.takeWhile_append_of_pos hletters, ← hcs', List.append_assoc]
      exact hw
    rw [hrun, List.length_append]
    exact Nat.le_add_right ..

theorem Munches.of_append (h : Munches cs ps rest) (hrest : rest = r ++ x) :
    Munches (ps.flatMap Prod.fst ++ r) ps r := by
  induction h with
  | stop => exact .stop
  | @take w cs t ps rest hl hm ih =>
    have hcs := hm.text_eq
    rw [hrest, ← List.append_assoc] at hcs
    rw [List.flatMap_cons, List.append_assoc]
    exact .take (hcs ▸ hl).of_append (ih hrest)

/-- Where no rule takes anything, none does in a part of the text that is longer than the letters at its start. -/
theorem Stuck.of_append {c : Char} (h : Stuck (w ++ c :: (r ++ x))) (hc : c.isAlpha = false) :
    Stuck (w ++ c :: r) := by
  intro w' r' t' hcs hrule
  refine h w' (r' ++ x) t' ?_ (hrule.append ?_ x)
  · rw [← List.append_assoc w', ← hcs, List.append_assoc, List.cons_append]
  · by_cases hr' : r' = []
    · rw [hr', List.append_nil] at hcs
      exact .inr ⟨c, by rw [← hcs]; simp, hc⟩
    · exact .inl hr'

theorem longest_letters (hw : w ≠ []) (ha : ∀ c ∈ w, c.isAlpha = true) :
    Longest (w ++ []) w (some (ofWord w)) := by
  obtain ⟨htake, hdrop⟩ := takeWhile_append_stop ha (r := []) (by simp)
  obtain ⟨c, v, rfl⟩ := List.exists_cons_of_ne_nil hw
  have hend : ∀ d ∈ ((c :: v ++ []).dropWhile Char.isAlpha).head?, Text.isWord d = false := by
    rw [hdrop]
    exact nofun
  exact (longest_word_iff (ha c (List.mem_cons_self ..))).2 ⟨hend, htake.symm, rfl⟩

theorem stuck_letters {c : Char} (hw : w ≠ []) (ha : ∀ d ∈ w, d.isAlpha = true) (hc : c.isAlpha = false)
    (hword : Text.isWord c = true) : Stuck (w ++ c :: r) := by
  intro w' r' t' hcs hrule
  obtain ⟨d, v, rfl⟩ := List.exists_cons_of_ne_nil hw
  obtain ⟨-, -, hr, hend⟩ := hrule.of_isAlpha hcs (ha d (List.mem_cons_self ..))
  obtain ⟨-, hdrop⟩ := takeWhile_append_stop ha (r := c :: r) (by simpa using hc)
  have hr' : r' = c :: r := hr.trans hdrop
  exact absurd ((hend c (by rw [hr']; rfl)).symm.trans hword) (by decide)

end Truncation

end Token

/-- What a lexical error says about a text: the part before the character that it names is the longest one that can
be read, and every longer part has the same error. -/
structure LexicalError.Delimits (e : LexicalError) (s : String) : Prop where
  boundary : String.Pos.Raw.IsValid s ⟨e.pos⟩
  inside : e.pos < s.utf8ByteSize
  found : ∃ t u, s = t ++ String.singleton e.found ++ u ∧ t.utf8ByteSize = e.pos
  longest : IsGreatest {n | ∃ t u, s = t ++ u ∧ t.utf8ByteSize = n ∧ ∃ ls, Lexeme.ofString t = .ok ls} e.pos
  beyond : ∀ t u, s = t ++ u → e.pos < t.utf8ByteSize → Lexeme.ofString t = .error e

namespace Lexeme

open Token (Piece Munches Stuck Seam)

section Error

variable {s t u : String} {cs ds : List Char} {ps : List Piece}

theorem exists_ofString_of_letters (hm : Munches s.toList ps cs) (ha : ∀ c ∈ cs, c.isAlpha = true) :
    ∃ ls, ofString s = .ok ls := by
  rw [ofString, scan_of_munches hm]
  by_cases hne : cs = []
  · subst hne
    exact ⟨_, rfl⟩
  · rw [← List.append_nil cs, scan_of_longest (Token.longest_letters hne ha)]
    exact ⟨_, rfl⟩

/-- The part of a text before a character of it, and the parts that contain the character. -/
theorem exists_of_byteSize_lt {p r : List Char} {c : Char} (h : t.toList ++ u.toList = p ++ c :: r)
    (hlt : byteSize p < t.utf8ByteSize) : ∃ r', t.toList = p ++ c :: r' ∧ r = r' ++ u.toList := by
  rw [← byteSize_toList] at hlt
  rcases List.append_eq_append_iff.1 h with ⟨v, hp, -⟩ | ⟨v, ht, hr⟩
  · rw [hp, byteSize_append] at hlt
    omega
  · cases v with
    | nil =>
      rw [ht, List.append_nil] at hlt
      omega
    | cons d v =>
      obtain ⟨rfl, rfl⟩ := List.cons.inj hr
      exact ⟨v, ht, rfl⟩

theorem ofString_of_longer {w r : List Char} {c : Char} (hm : Munches (t ++ u).toList ps (w ++ c :: r))
    (hs : Stuck (w ++ c :: r)) (hw : ∀ d ∈ w, d.isAlpha = true) (hc : c.isAlpha = false)
    (hlt : byteSize (ps.flatMap Prod.fst ++ w) < t.utf8ByteSize) :
    ofString t = .error ⟨byteSize (ps.flatMap Prod.fst) + byteSize w, c⟩ := by
  have htext := hm.text_eq
  rw [String.toList_append, ← List.append_assoc] at htext
  obtain ⟨r', ht, rfl⟩ := exists_of_byteSize_lt htext hlt
  have hm' : Munches t.toList ps (w ++ c :: r') := by
    rw [ht, List.append_assoc]
    exact hm.of_append (x := u.toList) (by rw [List.append_assoc, List.cons_append])
  exact ofString_eq_iff.2 ⟨ps, _, hm', hs.of_append hc, .error hw hc⟩

theorem delimits_of_ofString {e : LexicalError} (h : ofString s = .error e) : e.Delimits s := by
  obtain ⟨ps, rest, hm, hs, ho⟩ := ofString_eq_iff.1 h
  cases ho with
  | @error w c r hw hc =>
    let p := ps.flatMap Prod.fst ++ w
    have hpos : byteSize (ps.flatMap Prod.fst) + byteSize w = byteSize p := (byteSize_append ..).symm
    have htext : s.toList = p ++ c :: r := by rw [hm.text_eq, List.append_assoc]
    have hsplit : s = String.ofList p ++ String.singleton c ++ String.ofList r := by
      rw [← String.toList_inj, htext]
      simp
    have hread : Munches (String.ofList p).toList ps w := by
      rw [String.toList_ofList]
      exact hm.of_append rfl
    have beyond : ∀ t u, s = t ++ u → byteSize p < t.utf8ByteSize → ofString t = .error ⟨byteSize p, c⟩ := by
      rintro t u rfl hlt
      rw [← hpos]
      exact ofString_of_longer hm hs hw hc hlt
    rw [hpos]
    refine {
      boundary := isValid_byteSize htext
      inside := ?inside
      found := ⟨_, _, hsplit, utf8ByteSize_ofList p⟩
      longest := ⟨⟨_, _, hsplit.trans (String.append_assoc ..), utf8ByteSize_ofList p,
        exists_ofString_of_letters hread hw⟩, ?longest⟩
      beyond := beyond }
    case inside =>
      rw [← byteSize_toList s, htext, byteSize_append p]
      exact Nat.lt_add_of_pos_right (byteSize_pos (List.cons_ne_nil c r))
    case longest =>
      rintro n ⟨t, u, ht, rfl, ls, hok⟩
      apply Nat.le_of_not_lt
      intro hlt
      rw [beyond t u ht hlt] at hok
      exact absurd hok nofun

/-- Letters that are spoiled by the word character after them: it is the character that the error names. -/
theorem ofString_spoiled {w : String} {c : Char} (hne : w ≠ "") (hw : ∀ d ∈ w.toList, d.isAlpha = true)
    (hc : c.isAlpha = false) (hword : Text.isWord c = true) (u : String) :
    ofString (w ++ String.singleton c ++ u) = .error ⟨w.utf8ByteSize, c⟩ := by
  have htext : (w ++ String.singleton c ++ u).toList = w.toList ++ c :: u.toList := by simp
  have hs : Stuck (w.toList ++ c :: u.toList) :=
    Token.stuck_letters (mt String.toList_eq_nil_iff.1 hne) hw hc hword
  refine ofString_eq_iff.2 ⟨[], _, .stop, htext ▸ hs, ?_⟩
  rw [htext, ← byteSize_toList, ← Nat.zero_add (byteSize w.toList)]
  exact .error hw hc

end Error

/-- A text that cannot be read can be read up to the character that the error names and no further. Where letters
after a text without letters at its end are spoiled by a word character, the error names that character. -/
theorem ofString_error_delimits :
    (∀ s e, ofString s = .error e → e.Delimits s) ∧
      ∀ (t w u : String) (c : Char), (∃ ls, ofString t = .ok ls) → (∀ d ∈ t.toList.getLast?, d.isAlpha = false) →
        w ≠ "" → (∀ d ∈ w.toList, d.isAlpha = true) → c.isAlpha = false → Text.isWord c = true →
          ofString (t ++ (w ++ String.singleton c ++ u)) = .error ⟨t.utf8ByteSize + w.utf8ByteSize, c⟩ := by
  refine ⟨fun s e => delimits_of_ofString, fun t w u c ⟨ls, ht⟩ hlast hne hw hc hword => ?_⟩
  have hseam : Seam t.toList (w ++ String.singleton c ++ u).toList := by
    intro d hd
    rw [String.append_assoc] at hd
    exact .inr ⟨hw d (mem_of_head? hne hd), hlast⟩
  rw [ofString_append hseam, ht, ofString_spoiled hne hw hc hword]
  rfl

/-- A sign without its end, and a word that an accented letter spoils. -/
theorem ofString_error_delimits_spoiled :
    (ofString "p <-q" = .error ⟨2, '<'⟩ ∧ LexicalError.Delimits ⟨2, '<'⟩ "p <-q") ∧
      (ofString "x∧" = .ok [⟨.symbol "x", 0⟩, ⟨.connective .and, 1⟩, ⟨.eof, 4⟩] ∧ Text.isWord 'é' = true) ∧
        ofString ("x∧" ++ ("ab" ++ String.singleton 'é' ++ ")")) = .error ⟨6, 'é'⟩ := by
  have hsign : ofString "p <-q" = .error ⟨2, '<'⟩ := by decide +kernel
  have hx : ofString "x∧" = .ok [⟨.symbol "x", 0⟩, ⟨.connective .and, 1⟩, ⟨.eof, 4⟩] := by decide +kernel
  have hword : Text.isWord 'é' = true := by decide
  have hlast : ∀ d ∈ "x∧".toList.getLast?, d.isAlpha = false := by simp
  have hletters : ∀ d ∈ "ab".toList, d.isAlpha = true := by simp
  have hspoiled := ofString_error_delimits.2 "x∧" "ab" ")" 'é' ⟨_, hx⟩ hlast (by decide) hletters (by decide) hword
  exact ⟨⟨hsign, ofString_error_delimits.1 _ _ hsign⟩, ⟨hx, hword⟩, hspoiled⟩

end Lexeme

end TruthTables
