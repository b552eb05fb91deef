import TruthTables.Formula.Read
import TruthTables.Proofs.MaximalMunch
import TruthTables.Proofs.TokenPlaces

/-! # Spellings and white space do not matter -/
namespace TruthTables

namespace Text

theorem isWord_of_isBlank {c : Char} (h : isBlank c = true) : isWord c = false := by
  have hall : ∀ r ∈ blankRanges, ∀ n ∈ List.range' r.1 (r.2 + 1 - r.1), inRanges n wordRanges = false := by
    decide +kernel
  obtain ⟨r, hr, hlo, hhi⟩ := exists_of_inRanges h
  exact hall r hr _ (List.mem_range'_1.2 ⟨hlo, by omega⟩)

def Blank (s : String) : Prop := ∀ c ∈ s.toList, isBlank c = true

instance (s : String) : Decidable (Blank s) := decidable_of_iff (s.toList.all isBlank) List.all_eq_true

end Text

namespace Token

def spellings : Token → List String
  | symbol name => [name]
  | connective .and => ["&", "∧", "^", "and"]
  | connective .or => ["+", "∨", "v", "or"]
  | connective .xor => ["#", "⊕", "xor"]
  | connective .implies => ["->", "→", "impl"]
  | connective .iff => ["<->", "=", "≡", "↔", "iff"]
  | connective .join => [","]
  | not => ["-", "~", "¬", "not"]
  | opening => ["(", "[", "\x7b"]
  | closing => [")", "]", "\x7d"]
  | eof => []

def Proper : Token → Prop
  | symbol name => ProperName name
  | _ => True

instance : (t : Token) → Decidable t.Proper
  | symbol name => inferInstanceAs (Decidable (ProperName name))
  | connective _ | not | opening | closing | eof => .isTrue trivial

theorem spelling_iff {t : Token} {s : String} : Spelling t s.toList ↔ s ∈ t.spellings ∧ t.Proper := by
  constructor
  · intro h
    have known : ∀ p ∈ signs ++ keywords, String.ofList p.1 ∈ p.2.spellings ∧ p.2.Proper := by decide
    generalize hw : s.toList = w at h
    have hs : s = String.ofList w := by rw [← hw, String.ofList_toList]
    cases h with
    | sign hm => exact hs ▸ known _ (List.mem_append_left _ hm)
    | keyword hm => exact hs ▸ known _ (List.mem_append_right _ hm)
    | name hn =>
      rw [String.ofList_toList] at hs
      exact ⟨List.mem_singleton.2 hs, hn⟩
  · rintro ⟨hs, ht⟩
    have known {u : Token} (hu : ∀ s ∈ u.spellings, (s.toList, u) ∈ signs ++ keywords) (hs : s ∈ u.spellings) :
        Spelling u s.toList := by
      rcases List.mem_append.1 (hu s hs) with hm | hm
      · exact .sign hm
      · exact .keyword hm
    cases t with
    | symbol name =>
      obtain rfl := List.mem_singleton.1 hs
      exact .name ht
    | connective c => exact known (by cases c <;> decide) hs
    | not | opening | closing | eof => exact known (by decide) hs

theorem exists_spelling {t : Token} (h : t ≠ eof) : ∃ s, s ∈ t.spellings := by
  refine List.exists_mem_of_ne_nil _ ?_
  cases t with
  | eof => exact absurd rfl h
  | connective c => cases c <;> exact List.cons_ne_nil _ _
  | symbol _ | not | opening | closing => exact List.cons_ne_nil _ _

section Blank

variable {t : Token} {w r : List Char}

theorem Spelling.ne_nil (h : Spelling t w) : w ≠ [] := by
  cases h with
  | sign hs => exact (Rule.sign (r := []) hs).ne_nil
  | keyword hk => exact (keyword_letters hk).1
  | name hn => exact hn.toList_ne_nil

theorem Spelling.not_isBlank (h : Spelling t w) : ∀ c ∈ w, Text.isBlank c = false := by
  cases h with
  | sign hs =>
    have hall : ∀ p ∈ signs, (p.1.all fun c => !Text.isBlank c) = true := by decide
    simpa using hall _ hs
  | keyword hk => exact fun c hc => Text.isBlank_of_isAlpha ((keyword_letters hk).2 c hc)
  | name hn => exact fun c hc => Text.isBlank_of_isAlpha (hn.2.1 c hc)

theorem Spelling.rule (h : Spelling t w) (hr : ∀ c ∈ r.head?, Text.isBlank c = true) : Rule w r (some t) := by
  have hword : ∀ c ∈ r.head?, Text.isWord c = false := fun c hc => Text.isWord_of_isBlank (hr c hc)
  cases h with
  | sign hs => exact .sign hs
  | keyword hk => exact .keyword hk hword
  | @name name hn =>
    have hrule := Rule.name hn.toList_ne_nil hn.2.1 (by simpa using hn.2.2) hword
    simpa using hrule

/-- A piece that is longer would have the white space inside. -/
theorem Spelling.longest (h : Spelling t w) (hr : ∀ c ∈ r.head?, Text.isBlank c = true) :
    Longest (w ++ r) w (some t) := by
  refine ⟨⟨r, rfl, h.rule hr⟩, fun w' r' t' hcs hrule => Nat.le_of_not_lt fun hlt => ?_⟩
  -- what is taken behind the spelling starts with the white space that follows
  obtain ⟨v, rfl, hv⟩ : ∃ v, w' = w ++ v ∧ r = v ++ r' := by
    rcases List.append_eq_append_iff.1 hcs with ⟨v, hw', hr'⟩ | ⟨v, hw, -⟩
    · exact ⟨v, hw', hr'⟩
    · exact absurd (congrArg List.length hw) (by rw [List.length_append]; omega)
  cases v with
  | nil => simp at hlt
  | cons c v =>
    have hc : Text.isBlank c = true := hr c (by rw [hv]; rfl)
    cases t' with
    | none =>
      obtain ⟨d, ds, hw⟩ := List.exists_cons_of_ne_nil h.ne_nil
      have hd : d ∈ w := by rw [hw]; exact List.mem_cons_self ..
      exact absurd ((h.not_isBlank d hd).symm.trans (hrule.isBlank d (List.mem_append_left _ hd))) (by decide)
    | some t' =>
      exact absurd ((hrule.spelling.not_isBlank c (by simp)).symm.trans hc) (by decide)

end Blank

end Token

/-- A token in one of its spellings, and the white space after it. -/
structure Written where
  token : Token
  spelling : String
  gap : String
  spelled : spelling ∈ token.spellings
  proper : token.Proper
  blank : Text.Blank gap

namespace Written

def text (w : Written) : String := w.spelling ++ w.gap

def joined (ws : List Written) : String := String.join (ws.map text)

/-- Only after the last token there may be no white space. -/
def Apart (ws : List Written) : Prop := ∀ w ∈ ws.dropLast, w.gap ≠ ""

instance (ws : List Written) : Decidable (Apart ws) :=
  inferInstanceAs (Decidable (∀ w ∈ ws.dropLast, w.gap ≠ ""))

theorem spelling_token (w : Written) : Token.Spelling w.token w.spelling.toList :=
  Token.spelling_iff.2 ⟨w.spelled, w.proper⟩

theorem joined_cons (w : Written) (ws : List Written) : joined (w :: ws) = w.text ++ joined ws := String.join_cons

theorem Apart.tail {w : Written} {ws : List Written} (h : Apart (w :: ws)) : Apart ws := by
  cases ws with
  | nil => exact nofun
  | cons w' ws => exact fun u hu => h u (List.mem_cons_of_mem _ hu)

theorem Apart.head? {w : Written} {ws : List Written} (h : Apart (w :: ws)) :
    ∀ c ∈ (w.gap.toList ++ (joined ws).toList).head?, Text.isBlank c = true := by
  intro c hc
  cases hgap : w.gap.toList with
  | nil =>
    cases ws with
    | nil => rw [hgap] at hc; cases hc
    | cons w' ws => exact absurd (String.toList_eq_nil_iff.1 hgap) (h w (List.mem_cons_self ..))
  | cons d ds =>
    rw [hgap] at hc
    obtain rfl : d = c := Option.some.inj hc
    exact w.blank d (by rw [hgap]; exact List.mem_cons_self ..)

/-- Every token is read where it is written. -/
theorem scan_joined {ws : List Written} (h : Apart ws) (pos : Nat) :
    Lexeme.scan pos 0 (joined ws).toList =
      .ok (ws.mapIdx (fun k w => ⟨w.token, pos + (joined (ws.take k)).utf8ByteSize⟩) ++
        [⟨.eof, pos + (joined ws).utf8ByteSize⟩]) := by
  induction ws generalizing pos with
  | nil => rfl
  | cons w ws ih =>
    have htext : (joined (w :: ws)).toList = w.spelling.toList ++ (w.gap.toList ++ (joined ws).toList) := by
      rw [joined_cons, text, String.toList_append, String.toList_append, List.append_assoc]
    have hsize (vs : List Written) : pos + (joined (w :: vs)).utf8ByteSize =
        pos + byteSize w.spelling.toList + byteSize w.gap.toList + (joined vs).utf8ByteSize := by
      rw [joined_cons, text, String.utf8ByteSize_append, String.utf8ByteSize_append, byteSize_toList,
        byteSize_toList, Nat.add_assoc, Nat.add_assoc, Nat.add_assoc]
    rw [htext, Lexeme.scan_of_longest (w.spelling_token.longest h.head?), Lexeme.scan_blanks w.blank, ih h.tail,
      List.mapIdx_cons]
    simp only [List.take_succ_cons, hsize]
    rfl

end Written

structure Writing where
  before : String
  words : List Written
  blank : Text.Blank before
  apart : Written.Apart words

namespace Writing

variable (W W' : Writing)

def tokens : List Token := W.words.map (·.token)

def upTo (k : Nat) : String := W.before ++ Written.joined (W.words.take k)

def text : String := W.before ++ Written.joined W.words

def lexemes : List Lexeme :=
  W.words.mapIdx (fun k w => ⟨w.token, (W.upTo k).utf8ByteSize⟩) ++ [⟨.eof, W.text.utf8ByteSize⟩]

theorem exists_tokens_eq_iff {ts : List Token} :
    (∃ W : Writing, W.tokens = ts) ↔ ∀ t ∈ ts, t ≠ .eof ∧ t.Proper := by
  constructor
  · rintro ⟨W, rfl⟩ t ht
    obtain ⟨w, -, rfl⟩ := List.mem_map.1 ht
    exact ⟨w.spelling_token.ne_eof, w.proper⟩
  · intro h
    have hwritten : ∃ ws : List Written, ws.map (·.token) = ts ∧ ∀ w ∈ ws, w.gap = " " := by
      induction ts with
      | nil => exact ⟨[], rfl, nofun⟩
      | cons t ts ih =>
        obtain ⟨⟨hne, hproper⟩, h⟩ := List.forall_mem_cons.1 h
        obtain ⟨s, hs⟩ := Token.exists_spelling hne
        obtain ⟨ws, htokens, hgap⟩ := ih h
        exact ⟨⟨t, s, " ", hs, hproper, by decide⟩ :: ws, by rw [List.map_cons, htokens],
          List.forall_mem_cons.2 ⟨rfl, hgap⟩⟩
    obtain ⟨ws, htokens, hgap⟩ := hwritten
    refine ⟨⟨"", ws, nofun, fun w hw => ?_⟩, htokens⟩
    rw [hgap w (List.dropLast_subset ws hw)]
    decide

theorem ofString_text : Lexeme.ofString W.text = .ok W.lexemes := by
  rw [Lexeme.ofString, text, String.toList_append, Lexeme.scan_blanks W.blank, Written.scan_joined W.apart,
    byteSize_toList]
  simp only [lexemes, upTo, text, String.utf8ByteSize_append, Nat.zero_add]

theorem content_lexemes :
    Parser.content W.lexemes = W.words.mapIdx fun k w => ⟨w.token, (W.upTo k).utf8ByteSize⟩ := by
  refine Parser.content_append_eof (fun l hl => ?_) _ []
  obtain ⟨k, hk, rfl⟩ := List.mem_mapIdx.1 hl
  exact W.words[k].spelling_token.ne_eof

/-- The offsets of the token with the same number in two texts. -/
def SamePlace (p q : Nat) : Prop :=
  ∃ k < W.words.length, p = (W.upTo k).utf8ByteSize ∧ q = (W'.upTo k).utf8ByteSize

variable {W W'}

theorem content_alike (h : W.tokens = W'.tokens) :
    List.Forall₂ (Lexeme.Alike (W.SamePlace W')) (Parser.content W.lexemes) (Parser.content W'.lexemes) := by
  have hlen : W.words.length = W'.words.length := by simpa [tokens] using congrArg List.length h
  rw [content_lexemes, content_lexemes]
  refine List.forall₂_of_length_eq_of_get (by simpa using hlen) fun k hk hk' => ?_
  rw [List.length_mapIdx] at hk hk'
  have htoken : W.words[k].token = W'.words[k].token := by
    simpa [tokens, hk, hk'] using congrArg (·[k]?) h
  simp only [List.get_eq_getElem, List.getElem_mapIdx, htoken]
  exact .mk ⟨k, hk, rfl, rfl⟩

/-- All lists of tokens can be written but for the end of the input and names that are not proper. Every text is read
as the tokens that are written, at the places where they are written, and two texts with the same tokens have the
same formula, or errors of the same kind at the same token. -/
theorem interchangeable :
    (∀ ts, (∃ W : Writing, W.tokens = ts) ↔ ∀ t ∈ ts, t ≠ .eof ∧ t.Proper) ∧
      (∀ W : Writing, Lexeme.ofString W.text = .ok W.lexemes) ∧
      ∀ W W' : Writing, W.tokens = W'.tokens →
        (∃ φ, Formula.ofString W.text = .ok φ ∧ Formula.ofString W'.text = .ok φ) ∨
          ∃ e e', Formula.ofString W.text = .error (.syntactic e) ∧
            Formula.ofString W'.text = .error (.syntactic e') ∧ e.Alike (W.SamePlace W') e' := by
  refine ⟨fun _ => exists_tokens_eq_iff, ofString_text, fun W W' h => ?_⟩
  have hlen : W.lexemes.length = W'.lexemes.length := by
    simpa [lexemes, tokens] using congrArg List.length h
  simp only [Formula.ofString, ofString_text]
  rcases Formula.ofLexemes_alike hlen (content_alike h) with ⟨φ, hφ, hφ'⟩ | ⟨e, e', he, he', halike⟩
  · exact .inl ⟨φ, by rw [hφ], by rw [hφ']⟩
  · exact .inr ⟨e, e', by rw [he], by rw [he'], halike⟩

/-- The same bracket is named, where it stands in either text. -/
theorem interchangeable_open_bracket :
    ∃ W W' : Writing, W.text = "¬ ( a" ∧ W'.text = "\tnot\u3000[ a\n" ∧ W.tokens = W'.tokens ∧
      (∀ t ∈ W.tokens, t ≠ .eof ∧ t.Proper) ∧
      Lexeme.ofString W.text = .ok W.lexemes ∧
      Formula.ofString W.text = .error (.syntactic (.unmatchedBracket 3)) ∧
      Formula.ofString W'.text = .error (.syntactic (.unmatchedBracket 7)) ∧
      (SyntaxError.unmatchedBracket 3).Alike (W.SamePlace W') (.unmatchedBracket 7) := by
  let W : Writing := ⟨"", [⟨.not, "¬", " ", by decide, by decide, by decide⟩,
    ⟨.opening, "(", " ", by decide, by decide, by decide⟩,
    ⟨.symbol "a", "a", "", by decide, by decide, by decide⟩], by decide, by decide⟩
  let W' : Writing := ⟨"\t", [⟨.not, "not", "\u3000", by decide, by decide, by decide⟩,
    ⟨.opening, "[", " ", by decide, by decide, by decide⟩,
    ⟨.symbol "a", "a", "\n", by decide, by decide, by decide⟩], by decide, by decide⟩
  have h : W.tokens = W'.tokens := rfl
  have htext : W.text = "¬ ( a" := rfl
  have htext' : W'.text = "\tnot\u3000[ a\n" := rfl
  have hW : Formula.ofString W.text = .error (.syntactic (.unmatchedBracket 3)) := by
    rw [htext]
    decide +kernel
  have hW' : Formula.ofString W'.text = .error (.syntactic (.unmatchedBracket 7)) := by
    rw [htext']
    decide +kernel
  obtain ⟨hexists, hread, halike⟩ := interchangeable
  rcases halike W W' h with ⟨φ, hφ, -⟩ | ⟨e, e', he, he', hee⟩
  · exact absurd (hW.symm.trans hφ) nofun
  · obtain rfl : .unmatchedBracket 3 = e := ReadError.syntactic.inj (Except.error.inj (hW.symm.trans he))
    obtain rfl : .unmatchedBracket 7 = e' := ReadError.syntactic.inj (Except.error.inj (hW'.symm.trans he'))
    exact ⟨W, W', htext, htext', h, (hexists _).1 ⟨W, rfl⟩, hread W, hW, hW', hee⟩

end Writing

end TruthTables
