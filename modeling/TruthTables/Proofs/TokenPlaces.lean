import Mathlib.Data.List.Forall2
import Mathlib.Data.List.TakeWhile
import TruthTables.Proofs.ParserSoundness

/-! # The places of tokens, and what stands after the end, do not matter to the parser -/
namespace TruthTables

variable {R : Nat → Nat → Prop}

/-- The same token at related places. -/
inductive Lexeme.Alike (R : Nat → Nat → Prop) : Lexeme → Lexeme → Prop
  | mk {t p q} : R p q → Alike R ⟨t, p⟩ ⟨t, q⟩

inductive SyntaxError.Alike (R : Nat → Nat → Prop) : SyntaxError → SyntaxError → Prop
  | unexpectedToken {p q t x} : R p q → Alike R (.unexpectedToken p t x) (.unexpectedToken q t x)
  | unexpectedEnd {x} : Alike R (.unexpectedEnd x) (.unexpectedEnd x)
  | unmatchedBracket {p q} : R p q → Alike R (.unmatchedBracket p) (.unmatchedBracket q)
  | trailingInput {p q t} : R p q → Alike R (.trailingInput p t) (.trailingInput q t)
  | emptyExpression : Alike R .emptyExpression .emptyExpression
  | tooDeep {p q} : R p q → Alike R (.tooDeep p) (.tooDeep q)

namespace Outcome

/-- Results that `S` relates, errors that are alike, or no result in either case. -/
inductive Alike (R : Nat → Nat → Prop) {α β : Type} (S : α → β → Prop) : Outcome α → Outcome β → Prop
  | done {a b} : S a b → Alike R S (.done a) (.done b)
  | failed {e e'} : e.Alike R e' → Alike R S (.failed e) (.failed e')
  | exhausted : Alike R S .exhausted .exhausted

theorem Alike.bind {α β γ δ : Type} {S : α → β → Prop} {T : γ → δ → Prop} {x : Outcome α} {y : Outcome β}
    {f : α → Outcome γ} {g : β → Outcome δ} (h : x.Alike R S y)
    (hfg : ∀ a b, S a b → (f a).Alike R T (g b)) : (x.bind f).Alike R T (y.bind g) := by
  cases h with
  | done hab => exact hfg _ _ hab
  | failed he => exact .failed he
  | exhausted => exact .exhausted

end Outcome

namespace Parser

/-- The same tokens at related places, up to the end of the input. -/
inductive SameContent (R : Nat → Nat → Prop) : List Lexeme → List Lexeme → Prop
  | ended {ls ls'} : content ls = [] → content ls' = [] → SameContent R ls ls'
  | cons {t pos pos' ls ls'} : t ≠ .eof → R pos pos' → SameContent R ls ls' →
      SameContent R (⟨t, pos⟩ :: ls) (⟨t, pos'⟩ :: ls')

theorem exists_cons_of_content {ls us : List Lexeme} {l : Lexeme} (h : content ls = l :: us) :
    l.token ≠ .eof ∧ ∃ rest, ls = l :: rest ∧ content rest = us := by
  cases ls with
  | nil => simp [content] at h
  | cons l' ls =>
    obtain ⟨t, pos⟩ := l'
    by_cases ht : t = .eof
    · rw [content_eq_nil_iff.2 (.inr ⟨pos, ls, by rw [ht]⟩)] at h
      cases h
    · rw [content_cons ht] at h
      obtain ⟨rfl, rfl⟩ := List.cons.inj h
      exact ⟨ht, ls, rfl, rfl⟩

theorem SameContent.of_forall₂ {us us' ls ls' : List Lexeme} (h : List.Forall₂ (Lexeme.Alike R) us us')
    (hus : content ls = us) (hus' : content ls' = us') : SameContent R ls ls' := by
  induction h generalizing ls ls' with
  | nil => exact .ended hus hus'
  | cons hl _ ih =>
    obtain @⟨t, pos, pos', hpos⟩ := hl
    obtain ⟨ht, rest, rfl, hrest⟩ := exists_cons_of_content hus
    obtain ⟨-, rest', rfl, hrest'⟩ := exists_cons_of_content hus'
    exact .cons ht hpos (ih hrest hrest')

inductive SameParse (R : Nat → Nat → Prop) : Formula × Nat × List Lexeme → Formula × Nat × List Lexeme → Prop
  | mk {φ n rest rest'} : SameContent R rest rest' → SameParse R (φ, n, rest) (φ, n, rest')

section Alike

variable {limit : Option Nat} {ls ls' : List Lexeme} {pos pos' : Nat}

theorem nest_alike (hpos : R pos pos') (depth : Nat) :
    (nest limit depth pos).Alike R Eq (nest limit depth pos') := by
  unfold nest
  split
  · exact .failed (.tooDeep hpos)
  · exact .done rfl

theorem connective?_alike (h : SameContent R ls ls') (min : Nat) :
    connective? min ls = none ∧ connective? min ls' = none ∨
      ∃ c pos pos' rest rest', connective? min ls = some (c, pos, rest) ∧
        connective? min ls' = some (c, pos', rest') ∧ R pos pos' ∧ SameContent R rest rest' := by
  cases h with
  | ended hnil hnil' => exact .inl ⟨connective?_end hnil min, connective?_end hnil' min⟩
  | @cons t pos pos' ls ls' ht hpos hls =>
    cases t with
    | connective c =>
      by_cases hc : min ≤ c.precedence
      · exact .inr ⟨c, pos, pos', ls, ls', if_pos hc, if_pos hc, hpos, hls⟩
      · exact .inl ⟨if_neg hc, if_neg hc⟩
    | symbol _ | not | opening | closing | eof => exact .inl ⟨rfl, rfl⟩

/-- More rounds than there are tokens make no difference. -/
theorem climb_rounds {right : Nat → List Lexeme → Parse} (hr : ∀ m, Consumes (right m)) {min m n height : Nat}
    {φ : Formula} (hm : ls.length < m) (hn : ls.length < n) :
    climb limit right min m φ height ls = climb limit right min n φ height ls := by
  induction m generalizing n φ height ls with
  | zero => exact absurd hm (Nat.not_lt_zero _)
  | succ m ih =>
    obtain ⟨n, rfl⟩ := Nat.exists_eq_add_of_lt (Nat.zero_lt_of_lt hn)
    rw [Nat.zero_add] at hn ⊢
    rw [climb, climb]
    split
    · rfl
    · rename_i c pos ls' hc
      have hls' := connective?_length hc
      cases hright : right (c.precedence + 1) ls' with
      | done p =>
        obtain ⟨ψ, k, rest⟩ := p
        have hrest := hr _ _ _ _ _ hright
        simp only [Outcome.done_bind]
        congr 1
        funext height
        exact ih (by omega) (by omega)
      | failed e => rfl
      | exhausted => rfl

theorem climb_alike {right right' : Nat → List Lexeme → Parse}
    (hr : ∀ min ls ls', SameContent R ls ls' → (right min ls).Alike R (SameParse R) (right' min ls'))
    (h : SameContent R ls ls') (min rounds : Nat) (φ : Formula) (height : Nat) :
    (climb limit right min rounds φ height ls).Alike R (SameParse R)
      (climb limit right' min rounds φ height ls') := by
  induction rounds generalizing φ height ls ls' with
  | zero => exact .exhausted
  | succ rounds ih =>
    rw [climb, climb]
    rcases connective?_alike h min with ⟨hc, hc'⟩ | ⟨c, pos, pos', rest, rest', hc, hc', hpos, hrest⟩
    · rw [hc, hc']
      exact .done ⟨h⟩
    · rw [hc, hc']
      refine (hr _ _ _ hrest).bind ?_
      rintro _ _ ⟨hls⟩
      refine (nest_alike hpos _).bind ?_
      rintro height _ rfl
      exact ih hls _ height

theorem close_alike (hpos : R pos pos') (h : SameContent R ls ls') (φ : Formula) (height : Nat) :
    (close pos φ height ls).Alike R (SameParse R) (close pos' φ height ls') := by
  cases h with
  | ended hnil hnil' =>
    rw [close_end hnil, close_end hnil']
    exact .failed (.unmatchedBracket hpos)
  | @cons t pos pos' ls ls' ht hpos hls =>
    cases t with
    | closing => exact .done ⟨hls⟩
    | eof => exact absurd rfl ht
    | symbol _ | connective _ | not | opening => exact .failed (.unexpectedToken hpos)

theorem parse_alike (R : Nat → Nat → Prop) (limit : Option Nat) (fuel : Nat) :
    (∀ min depth ls ls', SameContent R ls ls' →
      (subformula limit fuel min depth ls).Alike R (SameParse R) (subformula limit fuel min depth ls')) ∧
    (∀ depth ls ls', SameContent R ls ls' →
      (operand limit fuel depth ls).Alike R (SameParse R) (operand limit fuel depth ls')) ∧
    ∀ pos pos' depth ls ls', R pos pos' → SameContent R ls ls' →
      (bracketed limit fuel pos depth ls).Alike R (SameParse R) (bracketed limit fuel pos' depth ls') := by
  -- the readers call one another, always with less fuel
  induction fuel with
  | zero => exact ⟨fun _ _ _ _ _ => .exhausted, fun _ _ _ _ => .exhausted, fun _ _ _ _ _ _ _ => .exhausted⟩
  | succ fuel ih =>
    obtain ⟨ihs, iho, ihb⟩ := ih
    refine ⟨fun min depth ls ls' h => ?_, fun depth ls ls' h => ?_, fun pos pos' depth ls ls' hpos h => ?_⟩
    · rw [subformula, subformula]
      refine (iho depth ls ls' h).bind ?_
      rintro ⟨φ, height, rest⟩ ⟨_, _, rest'⟩ ⟨hrest⟩
      -- the rests may differ in length behind the end, so both loops are given the rounds of the longer one
      have hconsumes : ∀ m, Consumes (fun ls => subformula limit fuel m depth ls) :=
        fun m => (consumes limit fuel).1 m depth
      dsimp only
      rw [climb_rounds hconsumes (Nat.lt_succ_self _) (Nat.lt_succ_of_le (Nat.le_max_left _ rest'.length)),
        climb_rounds hconsumes (Nat.lt_succ_self rest'.length)
          (Nat.lt_succ_of_le (Nat.le_max_right rest.length _))]
      exact climb_alike (fun m => ihs m depth) hrest min _ φ height
    · cases h with
      | ended hnil hnil' =>
        rw [operand_end hnil, operand_end hnil']
        exact .failed .unexpectedEnd
      | @cons t pos pos' ls ls' ht hpos hls =>
        cases t with
        | symbol name => exact .done ⟨hls⟩
        | not =>
          simp only [operand]
          refine (nest_alike hpos depth).bind ?_
          rintro depth _ rfl
          refine (iho depth ls ls' hls).bind ?_
          rintro ⟨φ, height, rest⟩ _ ⟨hrest⟩
          refine (nest_alike hpos height).bind ?_
          rintro height _ rfl
          exact .done ⟨hrest⟩
        | opening =>
          simp only [operand]
          refine (nest_alike hpos depth).bind ?_
          rintro depth _ rfl
          exact ihb pos pos' depth ls ls' hpos hls
        | eof => exact absurd rfl ht
        | connective _ | closing => exact .failed (.unexpectedToken hpos)
    · rw [bracketed, bracketed]
      refine (ihs 0 depth ls ls' h).bind ?_
      rintro ⟨φ, height, rest⟩ _ ⟨hrest⟩
      exact close_alike hpos hrest φ height

theorem finish_alike (h : SameContent R ls ls') (φ : Formula) : (finish φ ls).Alike R Eq (finish φ ls') := by
  cases h with
  | ended hnil hnil' =>
    rw [finish_end hnil, finish_end hnil']
    exact .done rfl
  | @cons t pos pos' ls ls' ht hpos hls =>
    cases t with
    | closing => exact .failed (.unmatchedBracket hpos)
    | eof => exact absurd rfl ht
    | symbol _ | connective _ | not | opening => exact .failed (.trailingInput hpos)

/-- Only the tokens before the first end of the input have to be alike. -/
theorem run_alike (h : List.Forall₂ (Lexeme.Alike R) (content ls) (content ls')) (limit : Option Nat)
    (fuel : Nat) : (run limit fuel ls).Alike R Eq (run limit fuel ls') := by
  by_cases hnil : content ls = []
  · have hnil' : content ls' = [] := List.forall₂_nil_left_iff.1 (hnil ▸ h)
    rw [run_end hnil, run_end hnil']
    exact .failed .emptyExpression
  · have hnil' : content ls' ≠ [] := fun h' => hnil (List.forall₂_nil_right_iff.1 (h' ▸ h))
    rw [run_of_content_ne_nil hnil, run_of_content_ne_nil hnil']
    refine ((parse_alike R limit fuel).1 0 0 _ _ (.of_forall₂ h rfl rfl)).bind ?_
    rintro ⟨φ, height, rest⟩ _ ⟨hrest⟩
    exact finish_alike hrest φ

end Alike

/-- What stands after the first end of the input can be cut off before the run. -/
theorem run_content (limit : Option Nat) (fuel : Nat) (ls : List Lexeme) :
    run limit fuel (content ls) = run limit fuel ls := by
  have hcut : content (content ls) = content ls := List.takeWhile_idem ..
  have hsame : List.Forall₂ (Lexeme.Alike Eq) (content (content ls)) (content ls) := by
    rw [hcut]
    exact List.forall₂_same.2 fun l _ => .mk rfl
  have hrun := run_alike hsame limit fuel
  generalize run limit fuel (content ls) = x, run limit fuel ls = y at hrun
  cases hrun with
  | done h => rw [h]
  | failed h =>
    cases h with
    | unexpectedToken h | unmatchedBracket h | trailingInput h | tooDeep h => rw [h]
    | unexpectedEnd | emptyExpression => rfl
  | exhausted => rfl

end Parser

theorem Formula.ofLexemes_alike {ls ls' : List Lexeme} (hlen : ls.length = ls'.length)
    (h : List.Forall₂ (Lexeme.Alike R) (Parser.content ls) (Parser.content ls')) :
    (∃ φ, ofLexemes ls = .ok φ ∧ ofLexemes ls' = .ok φ) ∨
      ∃ e e', ofLexemes ls = .error e ∧ ofLexemes ls' = .error e' ∧ e.Alike R e' := by
  have hfuel : Parser.enoughFuel ls = Parser.enoughFuel ls' := by rw [Parser.enoughFuel, hlen]; rfl
  have hrun := Parser.run_alike h (some maxDepth) (Parser.enoughFuel ls)
  generalize hx : Parser.run (some maxDepth) (Parser.enoughFuel ls) ls = x at hrun
  generalize hy : Parser.run (some maxDepth) (Parser.enoughFuel ls) ls' = y at hrun
  rw [hfuel] at hy
  cases hrun with
  | @done φ ψ hφ =>
    obtain rfl : φ = ψ := hφ
    exact .inl ⟨φ, Outcome.result_eq_ok_iff.2 hx, Outcome.result_eq_ok_iff.2 hy⟩
  | failed he => exact .inr ⟨_, _, Outcome.result_eq_error_iff.2 hx, Outcome.result_eq_error_iff.2 hy, he⟩
  | exhausted => exact absurd hx (Parser.run_ne_exhausted _ ls)

end TruthTables
