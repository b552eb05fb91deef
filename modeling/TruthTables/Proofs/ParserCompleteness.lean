import TruthTables.Proofs.Enclosures
import TruthTables.Proofs.ParserSoundness

/-! # Formulas of the grammar are parsed -/
namespace TruthTables

namespace Outcome

/-- `y` is the only answer that `x` can come to. -/
def Below {α : Type} (x y : Outcome α) : Prop := x = .exhausted ∨ x = y

theorem Below.trans {α : Type} {x y z : Outcome α} (h : x.Below y) (h' : y.Below z) : x.Below z := by
  rcases h with h | rfl
  · exact .inl h
  · exact h'

theorem Below.bind {α β : Type} {x : Outcome α} {a : α} {f : α → Outcome β} {y : Outcome β}
    (hx : x.Below (.done a)) (hf : (f a).Below y) : (x.bind f).Below y := by
  rcases hx with rfl | rfl
  · exact .inl rfl
  · exact hf

theorem Below.eq {α : Type} {x y : Outcome α} (h : x.Below y) (hx : x ≠ .exhausted) : x = y :=
  h.resolve_left hx

end Outcome

namespace Parser

open Grammar

variable {limit : Option Nat} {d p : Nat} {us vs : List Lexeme} {φ ψ : Formula}

theorem climb_below_done {right : Nat → List Lexeme → Parse} {min : Nat} {rest : List Lexeme}
    (h : connective? min rest = none) (rounds : Nat) :
    (climb limit right min rounds φ φ.height rest).Below (.done (φ, φ.height, rest)) := by
  cases rounds with
  | zero => exact .inl rfl
  | succ rounds => rw [climb, h]; exact .inr rfl

/-- An operand takes these tokens, whatever follows them, where there is room for `d` more levels. -/
def ReadsOperand (limit : Option Nat) (d : Nat) (us : List Lexeme) (φ : Formula) : Prop :=
  ∀ fuel depth rest, (∀ L ∈ limit, depth + d ≤ L) →
    (operand limit fuel depth (us ++ rest)).Below (.done (φ, φ.height, rest))

/-- Where these tokens come first, a subformula comes to the loop with their formula on its left, unless
a connective follows that binds more tightly than level `p`. -/
def Reads (limit : Option Nat) (d p : Nat) (us : List Lexeme) (φ : Formula) : Prop :=
  ∀ fuel min depth rest, (∀ L ∈ limit, depth + d ≤ L) → min ≤ p → connective? (p + 1) rest = none →
    ∃ rounds, (subformula limit (fuel + 1) min depth (us ++ rest)).Below
      (climb limit (fun m ls => subformula limit fuel m depth ls) min rounds φ φ.height rest)

theorem Reads.below_done (h : Reads limit d p us φ) (fuel depth : Nat) {min : Nat} {rest : List Lexeme}
    (hd : ∀ L ∈ limit, depth + d ≤ L) (hmin : min ≤ p) (hrest : connective? min rest = none) :
    (subformula limit fuel min depth (us ++ rest)).Below (.done (φ, φ.height, rest)) := by
  cases fuel with
  | zero => exact .inl rfl
  | succ fuel =>
    have hp := connective?_eq_none_mono (Nat.le_succ_of_le hmin) hrest
    obtain ⟨rounds, hr⟩ := h fuel min depth rest hd hmin hp
    exact hr.trans (climb_below_done hrest rounds)

theorem ReadsOperand.reads (h : ReadsOperand limit d us φ) : Reads limit d 6 us φ := by
  intro fuel min depth rest hd _ _
  refine ⟨rest.length + 1, ?_⟩
  rw [subformula]
  exact (h fuel depth rest hd).bind (.inr rfl)

theorem Reads.lower {q : Nat} (h : Reads limit d p us φ) (hqp : q ≤ p) : Reads limit d q us φ :=
  fun fuel min depth rest hd hmin hrest =>
    h fuel min depth rest hd (Nat.le_trans hmin hqp)
      (connective?_eq_none_mono (Nat.succ_le_succ hqp) hrest)

theorem Reads.mono {e : Nat} (h : Reads limit d p us φ) (hde : d ≤ e) : Reads limit e p us φ :=
  fun fuel min depth rest hd => h fuel min depth rest fun L hL =>
    Nat.le_trans (Nat.add_le_add_left hde depth) (hd L hL)

/-- The right operand stops where the loop around it goes on. -/
theorem Reads.binary {c : Connective} (hφ : Reads limit d c.precedence us φ)
    (hψ : Reads limit d (c.precedence + 1) vs ψ) (hh : ∀ L ∈ limit, max φ.height ψ.height < L)
    (pos : Nat) : Reads limit d c.precedence (us ++ ⟨.connective c, pos⟩ :: vs) (.binary c φ ψ) := by
  intro fuel min depth rest hd hmin hrest
  have hc : connective? (c.precedence + 1) (⟨.connective c, pos⟩ :: (vs ++ rest)) = none :=
    connective?_eq_none_iff.2 fun _ _ _ h => by cases h; exact Nat.lt_succ_self _
  obtain ⟨rounds, hr⟩ := hφ fuel min depth _ hd hmin hc
  rw [List.append_assoc, List.cons_append]
  cases rounds with
  | zero => exact ⟨0, hr⟩
  | succ rounds =>
    refine ⟨rounds, hr.trans ?_⟩
    rw [climb, connective?_eq_some_iff.2 ⟨rfl, hmin⟩]
    refine (hψ.below_done fuel depth hd (Nat.le_refl _) hrest).bind ?_
    simp only [nest_eq_done_iff.2 ⟨rfl, hh⟩, Outcome.done_bind]
    exact .inr rfl

theorem readsOperand_symbol (name : String) (pos : Nat) :
    ReadsOperand limit d [⟨.symbol name, pos⟩] (.symbol name) := by
  intro fuel depth rest _
  cases fuel with
  | zero => exact .inl rfl
  | succ fuel => exact .inr rfl

theorem nest_of_room {depth : Nat} (hd : ∀ L ∈ limit, depth + (d + 1) ≤ L) (pos : Nat) :
    nest limit depth pos = .done (depth + 1) ∧ ∀ L ∈ limit, depth + 1 + d ≤ L := by
  refine ⟨nest_eq_done_iff.2 ⟨rfl, fun L hL => ?_⟩, fun L hL => ?_⟩
  · have h := hd L hL
    omega
  · have h := hd L hL
    omega

theorem ReadsOperand.not (h : ReadsOperand limit d us φ) (hh : ∀ L ∈ limit, φ.height < L) (pos : Nat) :
    ReadsOperand limit (d + 1) (⟨.not, pos⟩ :: us) (.not φ) := by
  intro fuel depth rest hd
  cases fuel with
  | zero => exact .inl rfl
  | succ fuel =>
    obtain ⟨hn, hd'⟩ := nest_of_room hd pos
    simp only [List.cons_append, operand, hn, Outcome.done_bind]
    refine (h fuel (depth + 1) rest hd').bind ?_
    rw [nest_eq_done_iff.2 ⟨rfl, hh⟩]
    exact .inr rfl

theorem Reads.bracket (h : Reads limit d 1 us φ) (pos pos' : Nat) :
    ReadsOperand limit (d + 1) (⟨.opening, pos⟩ :: us ++ [⟨.closing, pos'⟩]) φ := by
  intro fuel depth rest hd
  cases fuel with
  | zero => exact .inl rfl
  | succ fuel =>
    obtain ⟨hn, hd'⟩ := nest_of_room hd pos
    simp only [List.cons_append, List.append_assoc, List.nil_append, operand, hn, Outcome.done_bind]
    cases fuel with
    | zero => exact .inl rfl
    | succ fuel =>
      have hc : connective? 0 (⟨.closing, pos'⟩ :: rest) = none :=
        connective?_eq_none_iff.2 fun _ _ _ h => by cases h
      rw [bracketed]
      exact (h.below_done fuel _ hd' (Nat.zero_le 1) hc).bind (.inr rfl)

theorem exists_split {us : List Lexeme} {ts ts' : List Token} {t : Token}
    (h : us.map (·.token) = ts ++ t :: ts') :
    ∃ vs pos ws, us = vs ++ ⟨t, pos⟩ :: ws ∧ vs.map (·.token) = ts ∧ ws.map (·.token) = ts' := by
  obtain ⟨vs, xs, rfl, hvs, hxs⟩ := List.map_eq_append_iff.1 h
  obtain ⟨⟨t', pos⟩, ws, rfl, rfl, hws⟩ := List.map_eq_cons_iff.1 hxs
  exact ⟨vs, pos, ws, rfl, hvs, hws⟩

/-- What is said of operands with `d` levels inside of them, and of what is joined at a level `p`, when it follows
from the same of the parts. -/
structure Followed (O : (d : Nat) → List Lexeme → Formula → Prop)
    (R : (d p : Nat) → List Lexeme → Formula → Prop) : Prop where
  symbol : ∀ name pos, O 0 [⟨.symbol name, pos⟩] (.symbol name)
  not : ∀ {d us φ} pos, O d us φ → O (d + 1) (⟨.not, pos⟩ :: us) (.not φ)
  bracket : ∀ {d us φ} pos pos', R d 1 us φ → O (d + 1) (⟨.opening, pos⟩ :: us ++ [⟨.closing, pos'⟩]) φ
  binary : ∀ {d e us vs φ ψ} (c : Connective) pos, R d c.precedence us φ → R e (c.precedence + 1) vs ψ →
    R (max d e) c.precedence (us ++ ⟨.connective c, pos⟩ :: vs) (.binary c φ ψ)
  operand : ∀ {d us φ}, O d us φ → R d 6 us φ
  lower : ∀ {d p q us φ}, q ≤ p → R d p us φ → R d q us φ

section

variable {O : Nat → List Lexeme → Formula → Prop} {R : Nat → Nat → List Lexeme → Formula → Prop}

private theorem Followed.binary_of_map (hf : Followed O R) {k : Category} {c : Connective} {ts ts' : List Token}
    (hd : Derives k ts φ) (hφ : ∀ us, us.map (·.token) = ts → R (nesting ts) c.precedence us φ)
    (hψ : ∀ us, us.map (·.token) = ts' → R (nesting ts') (c.precedence + 1) us ψ) (us : List Lexeme)
    (h : us.map (·.token) = ts ++ .connective c :: ts') :
    R (nesting (ts ++ .connective c :: ts')) c.precedence us (.binary c φ ψ) := by
  obtain ⟨vs, pos, ws, rfl, hvs, hws⟩ := exists_split h
  rw [hd.nesting_binary]
  exact hf.binary c pos (hφ vs hvs) (hψ ws hws)

/-- What follows from the same of the parts holds of all that is derived. -/
theorem Followed.of_derives (hf : Followed O R) {k : Category} {ts : List Token} (h : Derives k ts φ) :
    (∀ us, us.map (·.token) = ts → R (nesting ts) k.level us φ) ∧
      (k = .unary → ∀ us, us.map (·.token) = ts → O (nesting ts) us φ) := by
  have operand_only {ts : List Token} {φ : Formula}
      (h : ∀ us, us.map (·.token) = ts → O (nesting ts) us φ) :
      (∀ us, us.map (·.token) = ts → R (nesting ts) Category.unary.level us φ) ∧
        (Category.unary = .unary → ∀ us, us.map (·.token) = ts → O (nesting ts) us φ) :=
    ⟨fun us hus => hf.operand (h us hus), fun _ => h⟩
  induction h with
  | join hd _ ih ih' | iff hd _ ih ih' | implies hd _ ih ih' | or hd _ ih ih' | xor hd _ ih ih'
  | and hd _ ih ih' => exact ⟨hf.binary_of_map hd ih.1 ih'.1, nofun⟩
  | ofIff _ ih | ofImplies _ ih | ofOr _ ih | ofAnd _ ih | ofUnary _ ih =>
    exact ⟨fun us hus => hf.lower (by decide) (ih.1 us hus), nofun⟩
  | not hd ih =>
    refine operand_only fun us hus => ?_
    obtain ⟨⟨t, pos⟩, vs, rfl, rfl, hvs⟩ := List.map_eq_cons_iff.1 hus
    rw [hd.nesting_not]
    exact hf.not pos (ih.2 rfl vs hvs)
  | bracket hd ih =>
    refine operand_only fun us hus => ?_
    obtain ⟨xs, pos', ws, rfl, hxs, hws⟩ := exists_split hus
    obtain ⟨⟨t, pos⟩, vs, rfl, rfl, hvs⟩ := List.map_eq_cons_iff.1 hxs
    obtain rfl := List.map_eq_nil_iff.1 hws
    rw [hd.nesting_bracket]
    exact hf.bracket pos pos' (ih.1 vs hvs)
  | symbol name =>
    refine operand_only fun us hus => ?_
    obtain ⟨⟨t, pos⟩, rfl, rfl⟩ := List.map_eq_singleton_iff.1 hus
    exact hf.symbol name pos

end

/-- A derivation is followed where its formula is no higher than the limit. -/
theorem followed_reads (limit : Option Nat) :
    Followed (fun d us φ => (∀ L ∈ limit, φ.height ≤ L) → ReadsOperand limit d us φ)
      (fun d p us φ => (∀ L ∈ limit, φ.height ≤ L) → Reads limit d p us φ) where
  symbol name pos := fun _ => readsOperand_symbol name pos
  not pos h := fun hh => (h fun L hL => Nat.le_of_lt (hh L hL)).not hh pos
  bracket pos pos' h := fun hh => (h hh).bracket pos pos'
  binary c pos hφ hψ := fun hh => by
    have hleft := hφ fun L hL => Nat.le_trans (Nat.le_max_left ..) (Nat.le_of_lt (hh L hL))
    have hright := hψ fun L hL => Nat.le_trans (Nat.le_max_right ..) (Nat.le_of_lt (hh L hL))
    exact (hleft.mono (Nat.le_max_left ..)).binary (hright.mono (Nat.le_max_right ..)) hh pos
  operand h := fun hh => (h hh).reads
  lower hqp h := fun hh => (h hh).lower hqp

theorem run_of_reads {ls : List Lexeme} (h : Reads limit d p (content ls) φ) (hne : content ls ≠ [])
    (hd : ∀ L ∈ limit, d ≤ L) : run limit (enoughFuel ls) ls = .done φ := by
  refine Outcome.Below.eq ?_ (run_ne_exhausted limit ls)
  obtain ⟨rest, hls, hrest⟩ := content_append_rest ls
  have hs := h.below_done (enoughFuel ls) 0 (by simpa using hd) (Nat.zero_le p) (connective?_end hrest 0)
  rw [← hls] at hs
  rw [run_of_content_ne_nil hne]
  exact hs.bind (.inr (finish_end hrest φ))

end Parser

theorem Formula.ofLexemesWithin_none {ls : List Lexeme} {φ : Formula}
    (h : Grammar.Derives .join ((Parser.content ls).map (·.token)) φ) :
    ofLexemesWithin none ls = .ok φ := by
  have hreads : Parser.Reads none _ _ (Parser.content ls) φ :=
    ((Parser.followed_reads none).of_derives h).1 _ rfl (by simp)
  refine Outcome.result_eq_ok_iff.2 (Parser.run_of_reads hreads ?_ (by simp))
  exact fun hnil => h.ne_nil (by rw [hnil, List.map_nil])

theorem Grammar.Derives.unique {k : Category} {ts : List Token} {φ ψ : Formula} (hφ : Derives k ts φ)
    (hψ : Derives k ts ψ) : φ = ψ := by
  let us : List Lexeme := ts.map (⟨·, 0⟩)
  have hus : us.map (·.token) = ts := by simp [us, Function.comp_def]
  have hne := (Parser.ne_exhausted none (Parser.enoughFuel us)).1 0 0 (us ++ [])
    (by simp [Parser.enoughFuel])
  have answer : ∀ χ, Derives k ts χ →
      Parser.subformula none (Parser.enoughFuel us) 0 0 (us ++ []) = .done (χ, χ.height, []) := by
    intro χ hχ
    have h : Parser.Reads none _ _ us χ := ((Parser.followed_reads none).of_derives hχ).1 us hus (by simp)
    exact (h.below_done _ 0 (by simp) (Nat.zero_le _) (Parser.connective?_end rfl 0)).eq hne
  have h := (answer φ hφ).symm.trans (answer ψ hψ)
  exact (Prod.mk.inj (Outcome.done.inj h)).1

end TruthTables
