import TruthTables.Formula.Read
import TruthTables.Proofs.NestingLimit
import TruthTables.Proofs.TruthTableOfFormula

/-! # Labels are parsed back -/
namespace TruthTables

namespace Formula

def Proper (φ : Formula) : Prop := ∀ name ∈ φ.leaves, ProperName name

instance (φ : Formula) : Decidable φ.Proper :=
  inferInstanceAs (Decidable (∀ name ∈ φ.leaves, ProperName name))

theorem Proper.plain {φ : Formula} (h : φ.Proper) : φ.Plain := fun name hn => (h name hn).plain

def tokens : Formula → List Token
  | symbol name => [.symbol name]
  | not φ => .not :: φ.tokens
  | binary c φ ψ => .opening :: (φ.tokens ++ .connective c :: (ψ.tokens ++ [.closing]))

theorem endsWord_of_endsLabel {r : List Char} (h : EndsLabel r) : Token.EndsWord r := by
  intro c hc
  rcases h c hc with rfl | rfl <;> decide

theorem scans_label {φ : Formula} (hφ : φ.Proper) {r : List Char} (hr : EndsLabel r) :
    Lexeme.Scans φ.label.toList r φ.tokens := by
  induction φ generalizing r with
  | symbol name => exact .name (hφ name (List.mem_singleton_self name)) (endsWord_of_endsLabel hr)
  | not φ ih =>
    rw [toList_label_not]
    have hn : Lexeme.Scans ['¬'] (φ.label.toList ++ r) [.not] := .token (by decide) rfl
    exact hn.append (ih hφ hr)
  | binary c φ ψ ihφ ihψ =>
    have hl : ∀ name ∈ φ.leaves, ProperName name := fun name hn => hφ name (List.mem_append_left _ hn)
    have hr' : ∀ name ∈ ψ.leaves, ProperName name := fun name hn =>
      hφ name (List.mem_append_right _ hn)
    rw [toList_label_binary]
    have hclose : Lexeme.Scans [')'] r [.closing] := .token (by decide) rfl
    have hblank : ∀ s, Lexeme.Scans [' '] s [] := .blank (by decide)
    have hsign : ∀ s, Lexeme.Scans [c.sign] s [.connective c] := fun s =>
      .token (by cases c <;> decide) (Token.first?_sign c s)
    have hopen : ∀ s, Lexeme.Scans ['('] s [.opening] := fun s => .token (by decide) rfl
    have hψ := (ihψ hr' (endsLabel_closing r)).append hclose
    have hmid := (hblank _).append ((hsign _).append ((hblank _).append hψ))
    exact (hopen _).append ((ihφ hl (endsLabel_blank _)).append hmid)

/-- Where there is room for the height of a formula, the tokens of its label are taken as one operand. -/
theorem readsOperand_tokens {φ : Formula} {L : Nat} (hL : φ.height ≤ L) {us : List Lexeme}
    (hus : us.map (·.token) = φ.tokens) : Parser.ReadsOperand (some L) φ.height us φ := by
  induction φ generalizing us with
  | symbol name =>
    obtain ⟨⟨t, pos⟩, rfl, rfl⟩ := List.map_eq_singleton_iff.1 hus
    exact Parser.readsOperand_symbol name pos
  | not φ ih =>
    obtain ⟨⟨t, pos⟩, vs, rfl, rfl, hvs⟩ := List.map_eq_cons_iff.1 hus
    have hlt : ∀ M ∈ some L, φ.height < M := fun M hM => Option.some.inj hM ▸ hL
    exact (ih (Nat.le_of_succ_le hL) hvs).not hlt pos
  | binary c φ ψ ihφ ihψ =>
    rw [height] at hL
    have hlt : ∀ M ∈ some L, max φ.height ψ.height < M := fun M hM => Option.some.inj hM ▸ hL
    obtain ⟨⟨t, pos⟩, xs, rfl, rfl, hxs⟩ := List.map_eq_cons_iff.1 hus
    obtain ⟨vs, pos', ys, rfl, hvs, hys⟩ := Parser.exists_split hxs
    obtain ⟨ws, pos'', zs, rfl, hws, hzs⟩ := Parser.exists_split hys
    obtain rfl := List.map_eq_nil_iff.1 hzs
    obtain ⟨hone, hle⟩ := c.precedence_bounds
    have hφ := (ihφ (by omega) hvs).reads.mono (Nat.le_max_left _ ψ.height)
    have hψ := (ihψ (by omega) hws).reads.mono (Nat.le_max_right φ.height _)
    have hboth := (hφ.lower (Nat.le_succ_of_le hle)).binary (hψ.lower (Nat.succ_le_succ hle)) hlt pos'
    have h := (hboth.lower hone).bracket pos pos''
    simpa only [height, List.append_assoc, List.cons_append] using h

theorem eof_not_mem_tokens (φ : Formula) : .eof ∉ φ.tokens := by
  induction φ with
  | symbol name => simp [tokens]
  | not φ ih => simp [tokens, ih]
  | binary c φ ψ ihφ ihψ => simp [tokens, ihφ, ihψ]

theorem tokens_ne_nil (φ : Formula) : φ.tokens ≠ [] := by
  cases φ <;> simp [tokens]

theorem ofString_label {φ : Formula} (hφ : φ.Proper) (hh : φ.height ≤ maxDepth) :
    ofString φ.label = .ok φ := by
  obtain ⟨us, hus, hscan⟩ := scans_label hφ endsLabel_nil 0
  rw [List.append_nil] at hscan
  have hlex : Lexeme.ofString φ.label = .ok (us ++ [⟨.eof, 0 + byteSize φ.label.toList⟩]) := hscan
  have hcontent : Parser.content (us ++ [⟨.eof, 0 + byteSize φ.label.toList⟩]) = us :=
    Parser.content_append_eof (fun u hu he => eof_not_mem_tokens φ (hus ▸ he ▸ List.mem_map_of_mem hu)) _ []
  have hne : us ≠ [] := fun hnil => tokens_ne_nil φ (by rw [← hus, hnil, List.map_nil])
  have hparse : ofLexemes (us ++ [⟨.eof, 0 + byteSize φ.label.toList⟩]) = .ok φ := by
    refine Outcome.result_eq_ok_iff.2 (Parser.run_of_reads (d := φ.height) (p := 6) ?_ ?_ ?_)
    · rw [hcontent]
      exact (readsOperand_tokens hh hus).reads
    · rwa [hcontent]
    · exact fun M hM => Option.some.inj hM ▸ hh
  exact ofString_eq_ok_iff.2 ⟨_, hlex, hparse⟩

theorem proper_of_ofString {s : String} {φ : Formula} (h : ofString s = .ok φ) :
    φ.Proper ∧ φ.height ≤ maxDepth := by
  obtain ⟨ls, hls, hφ⟩ := ofString_eq_ok_iff.1 h
  have hp := parsed_of_ofLexemesWithin hφ
  refine ⟨fun name hn => ?_, hp.height_le _ rfl⟩
  obtain ⟨l, hl, ht⟩ := List.mem_map.1 (hp.derives.symbol_mem name hn)
  exact Lexeme.properName_of_ofString hls l ((List.takeWhile_sublist _).mem hl) name ht

theorem height_le_of_mem {φ χ : Formula} (h : χ ∈ φ.postorder) : χ.height ≤ φ.height := by
  obtain ⟨l, hl, hh⟩ := postorder_eq_concat φ
  rw [hl, List.mem_append, List.mem_singleton] at h
  rcases h with h | rfl
  · exact Nat.le_of_lt (hh χ h)
  · exact Nat.le_refl _

theorem Proper.of_mem {φ χ : Formula} (hφ : φ.Proper) (h : χ ∈ φ.postorder) : χ.Proper :=
  fun name hn => hφ name (leaves_subset_of_mem h hn)

theorem leaves_repeat_not (n : Nat) (φ : Formula) : (Nat.repeat not n φ).leaves = φ.leaves := by
  induction n with
  | zero => rfl
  | succ n ih => exact ih

theorem height_repeat_not (n : Nat) (φ : Formula) : (Nat.repeat not n φ).height = φ.height + n := by
  induction n with
  | zero => rfl
  | succ n ih => exact congrArg (· + 1) ih

end Formula

namespace Table

theorem exists_of_mem_columns {φ : Formula} (hφ : φ.Plain) {separator : String} {c : Column}
    (hc : c ∈ (ofFormula φ separator).columns) (hk : c.kind ≠ .separator) :
    ∃ χ ∈ φ.postorder, χ.label = c.label := by
  rw [columns_ofFormula hφ, List.mem_append, List.mem_cons] at hc
  rcases hc with hc | rfl | hc
  · obtain ⟨name, hname, rfl⟩ := List.mem_map.1 hc
    exact ⟨.symbol name, Formula.symbol_mem_postorder hname, rfl⟩
  · exact absurd rfl hk
  · obtain ⟨χ, hχ, rfl⟩ := List.mem_map.1 hc
    exact ⟨χ, Formula.mem_postorder_of_mem_compounds hχ, rfl⟩

/-- Printing and parsing undo each other. So a title leads back to the table that it stands over, and the
label of every column with values to the formula that the label is of. -/
theorem labels_parse_back :
    (∀ φ ν, φ.Proper → φ.height ≤ 256 →
      Formula.ofString (Evaluation.run φ ν).root.label = .ok φ) ∧
    (∀ s φ, Formula.ofString s = .ok φ → φ.Proper ∧ φ.height ≤ 256) ∧
    ∀ s φ separator, Formula.ofString s = .ok φ →
      Formula.ofString (ofFormula φ separator).title = .ok φ ∧
      (Formula.ofString (ofFormula φ separator).title).map (ofFormula · separator) =
        .ok (ofFormula φ separator) ∧
      ∀ c ∈ (ofFormula φ separator).columns, c.kind ≠ .separator →
        ∃ χ, Formula.ofString c.label = .ok χ ∧ χ.label = c.label := by
  refine ⟨fun φ ν hφ hh => ?_, fun s φ h => Formula.proper_of_ofString h, fun s φ separator h => ?_⟩
  · rw [Evaluation.label_root]
    exact Formula.ofString_label hφ hh
  · obtain ⟨hφ, hh⟩ := Formula.proper_of_ofString h
    have htitle : Formula.ofString (ofFormula φ separator).title = .ok φ := by
      have ht : (ofFormula φ separator).title = φ.label := Evaluation.label_root φ _
      rw [ht]
      exact Formula.ofString_label hφ hh
    refine ⟨htitle, by rw [htitle]; rfl, fun c hc hk => ?_⟩
    obtain ⟨χ, hχ, hl⟩ := exists_of_mem_columns hφ.plain hc hk
    refine ⟨χ, ?_, hl⟩
    rw [← hl]
    exact Formula.ofString_label (hφ.of_mem hχ) (Nat.le_trans (Formula.height_le_of_mem hχ) hh)

/-- As many negations as a formula may have, around a name that starts like a keyword. -/
theorem labels_parse_back_deepest :
    let φ : Formula := Nat.repeat Formula.not 256 (.symbol "andy")
    (φ.Proper ∧ φ.height = 256 ∧ Formula.ofString φ.label = .ok φ) ∧
      (φ.Proper ∧ φ.height ≤ 256) ∧ Formula.ofString (ofFormula φ "|").title = .ok φ := by
  intro φ
  have hφ : φ.Proper := by
    intro name hn
    rw [Formula.leaves_repeat_not] at hn
    rw [List.mem_singleton.1 hn]
    decide
  have hh : φ.height = 256 := Formula.height_repeat_not 256 _
  have h := labels_parse_back.1 φ .empty hφ (Nat.le_of_eq hh)
  rw [Evaluation.label_root] at h
  exact ⟨⟨hφ, hh, h⟩, labels_parse_back.2.1 _ φ h, (labels_parse_back.2.2 _ φ "|" h).1⟩

end Table

end TruthTables
