import TruthTables.Proofs.FirstAlternative

/-! # Texts are cut into their longest pieces -/
namespace TruthTables

theorem utf8ByteSize_ofList (cs : List Char) : (String.ofList cs).utf8ByteSize = byteSize cs := by
  induction cs with
  | nil => rfl
  | cons c cs ih =>
    rw [String.ofList_cons, String.utf8ByteSize_append, String.utf8ByteSize_singleton, ih]
    rfl

theorem byteSize_toList (s : String) : byteSize s.toList = s.utf8ByteSize := by
  rw [← utf8ByteSize_ofList, String.ofList_toList]

theorem byteSize_pos {cs : List Char} (h : cs ≠ []) : 0 < byteSize cs := by
  cases cs with
  | nil => exact absurd rfl h
  | cons c cs => exact Nat.add_pos_left (Char.utf8Size_pos c) _

namespace Token

/-- A text falls into pieces, each the longest that a rule takes where it stands, and a rest. -/
inductive Munches : (cs : List Char) → List Piece → (rest : List Char) → Prop
  | stop {cs} : Munches cs [] cs
  | take {w r t ps rest} : Longest (w ++ r) w t → Munches r ps rest → Munches (w ++ r) ((w, t) :: ps) rest

def Stuck (cs : List Char) : Prop := ∀ w r t, cs = w ++ r → ¬ Rule w r t

inductive Spelling : Token → List Char → Prop
  | sign {t w} : (w, t) ∈ signs → Spelling t w
  | keyword {t w} : (w, t) ∈ keywords → Spelling t w
  | name {name} : ProperName name → Spelling (symbol name) name.toList

section Pieces

variable {cs w r rest : List Char} {t : Token} {ps : List Piece}

theorem Rule.isBlank (h : Rule w r none) : ∀ c ∈ w, Text.isBlank c = true := by
  cases h with
  | blank _ hb => exact hb

theorem Rule.spelling (h : Rule w r (some t)) : Spelling t w := by
  cases h with
  | sign hs => exact .sign hs
  | keyword hk _ => exact .keyword hk
  | name hw ha hn _ =>
    have hproper : ProperName (String.ofList w) :=
      ⟨by simpa using hw, by simpa using ha, hn⟩
    simpa using Spelling.name hproper

theorem Spelling.eq_ofList {name : String} (h : Spelling (symbol name) w) : name = String.ofList w := by
  generalize ht : symbol name = t at h
  cases h with
  | sign hs => exact absurd (List.mem_map.2 ⟨_, hs, ht.symm⟩) (symbol_not_mem_signs name)
  | keyword hk => exact absurd (List.mem_map.2 ⟨_, hk, ht.symm⟩) (symbol_not_mem_keywords name)
  | name _ => rw [String.ofList_toList, symbol.inj ht]

theorem Spelling.ne_eof (h : Spelling t w) : t ≠ eof := by
  rintro rfl
  cases h with
  | sign hs => exact absurd (List.mem_map.2 ⟨_, hs, rfl⟩ : eof ∈ signs.map Prod.snd) (by decide)
  | keyword hk => exact absurd (List.mem_map.2 ⟨_, hk, rfl⟩ : eof ∈ keywords.map Prod.snd) (by decide)

theorem Munches.text_eq (h : Munches cs ps rest) : cs = ps.flatMap Prod.fst ++ rest := by
  induction h with
  | stop => rfl
  | take _ _ ih => rw [List.flatMap_cons, List.append_assoc, ← ih]

theorem Munches.rule (h : Munches cs ps rest) : ∀ p ∈ ps, ∃ r, Rule p.1 r p.2 := by
  induction h with
  | stop => exact nofun
  | take hl _ ih =>
    obtain ⟨⟨r, -, hr⟩, -⟩ := hl
    exact List.forall_mem_cons.2 ⟨⟨r, hr⟩, ih⟩

theorem Munches.length_le (h : Munches cs ps rest) : ps.length ≤ cs.length := by
  induction h with
  | stop => exact Nat.zero_le _
  | take hl _ ih =>
    obtain ⟨⟨r, -, hr⟩, -⟩ := hl
    have hw := List.length_pos_iff.2 hr.ne_nil
    rw [List.length_cons, List.length_append]
    omega

theorem exists_longest {w r : List Char} {t : Option Token} (h : Rule w r t) :
    ∃ w' t', Longest (w ++ r) w' t' := by
  by_cases hmax : ∀ w' r' t', w ++ r = w' ++ r' → Rule w' r' t' → w'.length ≤ w.length
  · exact ⟨w, t, ⟨r, rfl, h⟩, hmax⟩
  · push Not at hmax
    obtain ⟨w', r', t', hcs, h', hlt⟩ := hmax
    have hlen := congrArg List.length hcs
    rw [List.length_append, List.length_append] at hlen
    have hshort : r'.length < r.length := by omega
    rw [hcs]
    exact exists_longest h'
termination_by r.length

theorem stuck_iff : Stuck cs ↔ piece? cs = none := by
  constructor
  · intro h
    rw [Option.eq_none_iff_forall_ne_some]
    rintro ⟨w, t⟩ hp
    obtain ⟨⟨r, hcs, hr⟩, -⟩ := longest_iff.2 hp
    exact h w r t hcs hr
  · rintro h w r t rfl hr
    obtain ⟨w', t', hl⟩ := exists_longest hr
    exact absurd (h.symm.trans (longest_iff.1 hl)) nofun

theorem head_of_takeWhile_eq_nil {p : Char → Bool} (h : cs.takeWhile p = []) :
    ∀ c ∈ cs.head?, p c = false := by
  cases cs with
  | nil => exact nofun
  | cons c cs => simpa [List.takeWhile_cons] using h

theorem head_of_dropWhile_eq_cons {p : Char → Bool} {c : Char} (h : cs.dropWhile p = c :: r) : p c = false := by
  have hhead := List.head?_dropWhile_not p cs
  rw [h] at hhead
  simpa using hhead

theorem first?_of_piece? (h : piece? cs = some (w, some t)) :
    (∀ c ∈ cs.head?, Text.isBlank c = false) ∧ first? cs = some (t, w) := by
  unfold piece? at h
  split at h
  · rename_i hb
    obtain ⟨⟨t', w'⟩, hf, he⟩ := Option.map_eq_some_iff.1 h
    obtain ⟨rfl, ht⟩ := Prod.mk.inj he
    exact ⟨head_of_takeWhile_eq_nil hb, Option.some.inj ht ▸ hf⟩
  · simp at h

theorem Stuck.first?_eq_none (h : Stuck cs) :
    (∀ c ∈ cs.head?, Text.isBlank c = false) ∧ first? cs = none := by
  have hp := stuck_iff.1 h
  unfold piece? at hp
  split at hp
  · rename_i hb
    exact ⟨head_of_takeWhile_eq_nil hb, Option.map_eq_none_iff.1 hp⟩
  · simp at hp

theorem exists_munches (cs : List Char) : ∃ ps rest, Munches cs ps rest ∧ Stuck rest := by
  cases hp : piece? cs with
  | none => exact ⟨[], cs, .stop, stuck_iff.2 hp⟩
  | some p =>
    obtain ⟨w, t⟩ := p
    have hl := longest_iff.2 hp
    obtain ⟨r, hcs, hr⟩ := hl.1
    have hshort : r.length < cs.length := by
      rw [hcs, List.length_append]
      exact Nat.lt_add_of_pos_left (List.length_pos_iff.2 hr.ne_nil)
    obtain ⟨ps, rest, hm, hs⟩ := exists_munches r
    exact ⟨(w, t) :: ps, rest, hcs ▸ .take (hcs ▸ hl) hm, hs⟩
termination_by cs.length

/-- Where no rule takes anything there are letters at most, and then another character. -/
theorem Stuck.letters (h : Stuck cs) (hne : cs ≠ []) :
    ∃ w c r, cs = w ++ c :: r ∧ (∀ d ∈ w, d.isAlpha = true) ∧ c.isAlpha = false := by
  have hw : ∀ d ∈ cs.takeWhile Char.isAlpha, d.isAlpha = true := List.all_eq_true.1 List.all_takeWhile
  have hsplit : cs.takeWhile Char.isAlpha ++ cs.dropWhile Char.isAlpha = cs :=
    List.takeWhile_append_dropWhile
  cases hr : cs.dropWhile Char.isAlpha with
  | nil =>
    rw [hr, List.append_nil] at hsplit
    rw [hsplit] at hw
    exact absurd (rule_ofWord hne hw (by simp)) (h cs [] _ (List.append_nil cs).symm)
  | cons c r =>
    exact ⟨_, c, r, by rw [← hr, hsplit], hw, head_of_dropWhile_eq_cons hr⟩

end Pieces

end Token

namespace Lexeme

open Token (Piece Munches Stuck)

/-- The tokens of pieces of which the first starts at the offset `pos`. -/
def ofPieces (pos : Nat) : List Piece → List Lexeme
  | [] => []
  | (w, t) :: ps => (t.map (⟨·, pos⟩)).toList ++ ofPieces (pos + byteSize w) ps

/-- What a text is read as that falls into pieces and the rest: the tokens and the end of the text where nothing is
left, and else an error at the first character that is no letter. -/
inductive ReadsAs (ps : List Piece) : (rest : List Char) → Except LexicalError (List Lexeme) → Prop
  | tokens : ReadsAs ps [] (.ok (ofPieces 0 ps ++ [⟨.eof, byteSize (ps.flatMap Prod.fst)⟩]))
  | error {w c r} : (∀ d ∈ w, d.isAlpha = true) → c.isAlpha = false →
      ReadsAs ps (w ++ c :: r) (.error ⟨byteSize (ps.flatMap Prod.fst) + byteSize w, c⟩)

section Scan

variable {cs w r rest : List Char} {t : Option Token} {ps : List Piece}
  {res : Except LexicalError (List Lexeme)}

theorem scan_blanks (hw : ∀ c ∈ w, Text.isBlank c = true) (pos : Nat) (r : List Char) :
    scan pos 0 (w ++ r) = scan (pos + byteSize w) 0 r := by
  induction w generalizing pos with
  | nil => rfl
  | cons c w ih =>
    obtain ⟨hc, hw⟩ := List.forall_mem_cons.1 hw
    rw [List.cons_append, scan, if_pos hc, ih hw, Nat.add_assoc]
    rfl

/-- One step of the tokenizer takes the longest piece. -/
theorem scan_of_longest (h : Token.Longest (w ++ r) w t) (pos : Nat) :
    scan pos 0 (w ++ r) =
      (scan (pos + byteSize w) 0 r).map ((t.map (⟨·, pos⟩)).toList ++ ·) := by
  cases t with
  | none =>
    obtain ⟨⟨r', -, hr⟩, -⟩ := h
    rw [scan_blanks hr.isBlank]
    cases scan (pos + byteSize w) 0 r <;> rfl
  | some t =>
    obtain ⟨hb, hf⟩ := Token.first?_of_piece? (Token.longest_iff.1 h)
    obtain ⟨⟨r', -, hr⟩, -⟩ := h
    cases w with
    | nil => exact absurd rfl hr.ne_nil
    | cons c w => exact scan_of_first? (hb c rfl) hf pos

/-- The pieces that have been taken are tokens of the result, and only the rest remains to be read. -/
theorem scan_of_munches (h : Munches cs ps rest) (pos : Nat) :
    scan pos 0 cs =
      (scan (pos + byteSize (ps.flatMap Prod.fst)) 0 rest).map (ofPieces pos ps ++ ·) := by
  induction h generalizing pos with
  | stop => cases hs : scan pos 0 _ <;> simp [ofPieces, byteSize, hs, Except.map]
  | @take w r t ps rest hl _ ih =>
    rw [scan_of_longest hl, ih, List.flatMap_cons, byteSize_append, Nat.add_assoc]
    cases scan (pos + (byteSize w + byteSize (ps.flatMap Prod.fst))) 0 rest with
    | error e => rfl
    | ok ls => exact congrArg Except.ok (List.append_assoc _ _ ls).symm

theorem scan_of_stuck (h : Stuck rest) (ho : ReadsAs ps rest res) :
    (scan (byteSize (ps.flatMap Prod.fst)) 0 rest).map (ofPieces 0 ps ++ ·) = res := by
  cases ho with
  | tokens => rfl
  | @error w c r hw hc =>
    obtain ⟨hb, hf⟩ := h.first?_eq_none
    obtain ⟨htake, hdrop⟩ :=
      Token.takeWhile_append_stop hw (r := c :: r) (by simpa using hc)
    cases hcs : w ++ c :: r with
    | nil => simp at hcs
    | cons d ds =>
      rw [hcs] at hb hf htake hdrop
      rw [scan, hb d rfl, hf]
      simp only [Bool.false_eq_true, if_false, errorAt, htake, hdrop]
      rfl

/-- The result is what the longest pieces say, up to where no rule takes anything. -/
theorem ofString_eq_iff {s : String} :
    ofString s = res ↔ ∃ ps rest, Munches s.toList ps rest ∧ Stuck rest ∧ ReadsAs ps rest res := by
  have read : ∀ {ps rest res}, Munches s.toList ps rest → Stuck rest → ReadsAs ps rest res →
      ofString s = res := by
    intro ps rest res hm hs ho
    rw [ofString, scan_of_munches hm, Nat.zero_add, scan_of_stuck hs ho]
  constructor
  · rintro rfl
    obtain ⟨ps, rest, hm, hs⟩ := Token.exists_munches s.toList
    obtain ⟨res, ho⟩ : ∃ res, ReadsAs ps rest res := by
      by_cases hne : rest = []
      · subst hne
        exact ⟨_, .tokens⟩
      · obtain ⟨w, c, r, rfl, hw, hc⟩ := hs.letters hne
        exact ⟨_, .error hw hc⟩
    exact ⟨ps, rest, hm, hs, read hm hs ho ▸ ho⟩
  · rintro ⟨ps, rest, hm, hs, ho⟩
    exact read hm hs ho

theorem munches_of_ofString {s : String} {ls : List Lexeme} (h : ofString s = .ok ls) :
    ∃ ps, Munches s.toList ps [] ∧ ls = ofPieces 0 ps ++ [⟨.eof, byteSize s.toList⟩] := by
  obtain ⟨ps, rest, hm, -, ho⟩ := ofString_eq_iff.1 h
  cases ho
  have htext := hm.text_eq
  rw [List.append_nil] at htext
  exact ⟨ps, hm, by rw [htext]⟩

end Scan

/-- The pieces of a text make it up, and the tokens of the pieces make up the list, each with the offset of its
piece. -/
structure Partition (s : String) (ps : List Piece) (ls : List Lexeme) : Prop where
  text : s.toList = ps.flatMap Prod.fst
  blank : ∀ w, (w, none) ∈ ps → w ≠ [] ∧ ∀ c ∈ w, Text.isBlank c = true
  spelling : ∀ w t, (w, some t) ∈ ps → Token.Spelling t w
  name : ∀ w name, (w, some (.symbol name)) ∈ ps → name = String.ofList w
  tokens : ls.map (·.token) = ps.filterMap Prod.snd ++ [.eof]
  offset : ∀ before w t after, ps = before ++ (w, some t) :: after →
    ls[(before.filterMap Prod.snd).length]? =
      some ⟨t, (String.ofList (before.flatMap Prod.fst)).utf8ByteSize⟩
  boundary : ∀ l ∈ ls, String.Pos.Raw.IsValid s ⟨l.pos⟩
  increasing : ls.Pairwise (·.pos < ·.pos)
  last : ls.getLast? = some ⟨.eof, s.utf8ByteSize⟩
  only_last : ∀ l ∈ ls.dropLast, l.token ≠ .eof

section Pieces

variable {ps : List Piece}

theorem map_token_ofPieces (pos : Nat) (ps : List Piece) :
    (ofPieces pos ps).map (·.token) = ps.filterMap Prod.snd := by
  induction ps generalizing pos with
  | nil => rfl
  | cons p ps ih =>
    obtain ⟨w, t⟩ := p
    cases t <;> simp [ofPieces, ih]

theorem length_ofPieces (pos : Nat) (ps : List Piece) :
    (ofPieces pos ps).length = (ps.filterMap Prod.snd).length := by
  rw [← map_token_ofPieces pos, List.length_map]

theorem ofPieces_append (pos : Nat) (ps qs : List Piece) :
    ofPieces pos (ps ++ qs) = ofPieces pos ps ++ ofPieces (pos + byteSize (ps.flatMap Prod.fst)) qs := by
  induction ps generalizing pos with
  | nil => rfl
  | cons p ps ih =>
    rw [List.cons_append, ofPieces, ih, List.flatMap_cons, byteSize_append, Nat.add_assoc,
      ← List.append_assoc]
    rfl

theorem exists_piece_of_mem {pos : Nat} {l : Lexeme} (h : l ∈ ofPieces pos ps) :
    ∃ before w after, ps = before ++ (w, some l.token) :: after ∧
      l.pos = pos + byteSize (before.flatMap Prod.fst) := by
  induction ps generalizing pos with
  | nil => simp [ofPieces] at h
  | cons p ps ih =>
    rcases List.mem_append.1 h with h | h
    · obtain ⟨t, ht, rfl⟩ : ∃ t, p.2 = some t ∧ ⟨t, pos⟩ = l := by simpa using h
      exact ⟨[], p.1, ps, by rw [← ht]; rfl, rfl⟩
    · obtain ⟨before, w, after, hps, hpos⟩ := ih h
      refine ⟨p :: before, w, after, by rw [hps, List.cons_append], ?_⟩
      rw [hpos, List.flatMap_cons, byteSize_append, Nat.add_assoc]

theorem pos_of_mem_ofPieces (hps : ∀ p ∈ ps, p.1 ≠ []) {pos : Nat} {l : Lexeme} (h : l ∈ ofPieces pos ps) :
    pos ≤ l.pos ∧ l.pos < pos + byteSize (ps.flatMap Prod.fst) := by
  obtain ⟨before, w, after, rfl, hpos⟩ := exists_piece_of_mem h
  have hw := byteSize_pos (hps (w, some l.token) (by simp))
  rw [List.flatMap_append, List.flatMap_cons, byteSize_append, byteSize_append, hpos]
  omega

theorem pairwise_ofPieces (hps : ∀ p ∈ ps, p.1 ≠ []) (pos : Nat) :
    (ofPieces pos ps).Pairwise (·.pos < ·.pos) := by
  induction ps generalizing pos with
  | nil => exact .nil
  | cons p ps ih =>
    obtain ⟨hp, hps⟩ := List.forall_mem_cons.1 hps
    refine List.pairwise_append.2 ⟨?_, ih hps _, fun l hl l' hl' => ?_⟩
    · cases p.2 <;> simp
    · obtain ⟨t, -, rfl⟩ : ∃ t, p.2 = some t ∧ ⟨t, pos⟩ = l := by simpa using hl
      have hw := byteSize_pos hp
      have hpos := (pos_of_mem_ofPieces hps hl').1
      exact Nat.lt_of_lt_of_le (Nat.lt_add_of_pos_right hw) hpos

end Pieces

theorem isValid_byteSize {s : String} {cs ds : List Char} (h : s.toList = cs ++ ds) :
    String.Pos.Raw.IsValid s ⟨byteSize cs⟩ := by
  refine String.Pos.Raw.isValid_iff_exists_append.2 ⟨String.ofList cs, String.ofList ds, ?_, ?_⟩
  · rw [← String.ofList_append, ← h, String.ofList_toList]
  · rw [← utf8ByteSize_ofList]
    rfl

theorem partition_ofPieces {s : String} {ps : List Piece} (h : Munches s.toList ps []) :
    Partition s ps (ofPieces 0 ps ++ [⟨.eof, byteSize s.toList⟩]) := by
  have htext : s.toList = ps.flatMap Prod.fst := by
    rw [← List.append_nil (ps.flatMap Prod.fst)]
    exact h.text_eq
  have hspelling : ∀ w t, (w, some t) ∈ ps → Token.Spelling t w := fun w t hp => by
    obtain ⟨r, hr⟩ := h.rule _ hp
    exact hr.spelling
  have hps : ∀ p ∈ ps, p.1 ≠ [] := fun p hp => by
    obtain ⟨r, hr⟩ := h.rule p hp
    exact hr.ne_nil
  have hlt : ∀ l ∈ ofPieces 0 ps, l.pos < byteSize s.toList := fun l hl => by
    rw [htext, ← Nat.zero_add (byteSize _)]
    exact (pos_of_mem_ofPieces hps hl).2
  constructor
  case text => exact htext
  case blank =>
    intro w hp
    obtain ⟨r, hr⟩ := h.rule _ hp
    exact ⟨hr.ne_nil, hr.isBlank⟩
  case spelling => exact hspelling
  case name => exact fun w name hp => (hspelling w _ hp).eq_ofList
  case tokens => rw [List.map_append, map_token_ofPieces]; rfl
  case offset =>
    rintro before w t after rfl
    rw [ofPieces_append, List.append_assoc, ← length_ofPieces 0 before,
      List.getElem?_append_right (Nat.le_refl _), Nat.sub_self, utf8ByteSize_ofList, Nat.zero_add]
    rfl
  case boundary =>
    intro l hl
    rcases List.mem_append.1 hl with hl | hl
    · obtain ⟨before, w, after, hsplit, hpos⟩ := exists_piece_of_mem hl
      have hcut : s.toList = before.flatMap Prod.fst ++ ((w, some l.token) :: after).flatMap Prod.fst := by
        rw [htext, hsplit, List.flatMap_append]
      rw [hpos, Nat.zero_add]
      exact isValid_byteSize hcut
    · obtain rfl := List.mem_singleton.1 hl
      exact isValid_byteSize (List.append_nil _).symm
  case increasing =>
    refine List.pairwise_append.2 ⟨pairwise_ofPieces hps 0, List.pairwise_singleton .., fun l hl l' hl' => ?_⟩
    obtain rfl := List.mem_singleton.1 hl'
    exact hlt l hl
  case last => rw [List.getLast?_append, byteSize_toList]; rfl
  case only_last =>
    intro l hl
    rw [List.dropLast_concat] at hl
    obtain ⟨before, w, after, rfl, -⟩ := exists_piece_of_mem hl
    exact (hspelling w _ (by simp)).ne_eof

/-- The tokenizer, whose rules are tried one after the other, takes the longest piece at every place, and when it
comes to the end the pieces and their tokens partition the text. It takes no more steps than there are
characters. -/
theorem ofString_maximalMunch (s : String) :
    (∀ cs w t, Token.Alternative.leftmost? cs = some (w, t) ↔ Token.Longest cs w t) ∧
      (∀ res, ofString s = res ↔
        ∃ ps rest, Munches s.toList ps rest ∧ Stuck rest ∧ ReadsAs ps rest res) ∧
      (∀ ls, ofString s = .ok ls → ∃ ps, Munches s.toList ps [] ∧ Partition s ps ls) ∧
      ∀ ps rest, Munches s.toList ps rest → ps.length ≤ s.length := by
  refine ⟨fun _ _ _ => Token.Alternative.leftmost?_iff, fun _ => ofString_eq_iff, fun ls h => ?_,
    fun _ _ h => h.length_le⟩
  obtain ⟨ps, hm, rfl⟩ := munches_of_ofString h
  exact ⟨ps, hm, partition_ofPieces hm⟩

theorem ofString_maximalMunch_arrow :
    ∃ ls ps, ofString "p →q" = .ok ls ∧
      ls = [⟨.symbol "p", 0⟩, ⟨.connective .implies, 2⟩, ⟨.symbol "q", 5⟩, ⟨.eof, 6⟩] ∧
      Munches "p →q".toList ps [] ∧ Partition "p →q" ps ls ∧ ps.length ≤ 4 := by
  have h : ofString "p →q" =
      .ok [⟨.symbol "p", 0⟩, ⟨.connective .implies, 2⟩, ⟨.symbol "q", 5⟩, ⟨.eof, 6⟩] := by rfl
  obtain ⟨-, -, hok, hlength⟩ := ofString_maximalMunch "p →q"
  obtain ⟨ps, hm, hp⟩ := hok _ h
  exact ⟨_, ps, h, rfl, hm, hp, hlength ps [] hm⟩

end Lexeme

end TruthTables
