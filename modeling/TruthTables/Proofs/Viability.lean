import Mathlib.Data.List.TakeWhile
import TruthTables.Proofs.ParserCompleteness

/-! # Which tokens can be continued to a formula -/
namespace TruthTables

namespace Grammar

/-- What is due after some tokens, and how many brackets are open. -/
inductive Due
  | operand (opened : Nat)
  | operator (opened : Nat)
  deriving DecidableEq

namespace Due

def opened : Due → Nat
  | operand n => n
  | operator n => n

def next? : Due → Token → Option Due
  | operand n, .symbol _ => some (operator n)
  | operand n, .not => some (operand n)
  | operand n, .opening => some (operand (n + 1))
  | operator n, .connective _ => some (operand n)
  | operator (n + 1), .closing => some (operator n)
  | _, _ => none

/-- What is due after some more tokens, if each of them is due where it stands. -/
def after? (d : Due) : List Token → Option Due
  | [] => some d
  | t :: ts => (d.next? t).bind (·.after? ts)

theorem after?_append (d : Due) (ts us : List Token) :
    d.after? (ts ++ us) = (d.after? ts).bind (·.after? us) := by
  induction ts generalizing d with
  | nil => rfl
  | cons t ts ih =>
    rw [List.cons_append, after?, after?, Option.bind_assoc]
    exact Option.bind_congr fun d' _ => ih d'

theorem after?_append_eq_some {d d' : Due} {ts us : List Token} :
    d.after? (ts ++ us) = some d' ↔ ∃ m, d.after? ts = some m ∧ m.after? us = some d' := by
  rw [after?_append, Option.bind_eq_some_iff]

theorem opened_next? {d d' : Due} {t : Token} (h : d.next? t = some d') :
    d'.opened + [t].count .closing = d.opened + [t].count .opening := by
  fun_cases next? d t with
  | case1 n name => obtain rfl := Option.some.inj h; simp [opened]
  | case2 n => obtain rfl := Option.some.inj h; simp [opened]
  | case3 n => obtain rfl := Option.some.inj h; simp [opened]
  | case4 n c => obtain rfl := Option.some.inj h; simp [opened]
  | case5 n => obtain rfl := Option.some.inj h; simp [opened]
  | case6 => simp [next?] at h

/-- The end of the input is never due. -/
theorem eof_not_mem_of_after? {d d' : Due} {ts : List Token} (h : d.after? ts = some d') : .eof ∉ ts := by
  induction ts generalizing d with
  | nil => simp
  | cons t ts ih =>
    obtain ⟨m, hm, hts⟩ := Option.bind_eq_some_iff.1 h
    rw [List.mem_cons, not_or]
    refine ⟨?_, ih hts⟩
    rintro rfl
    simp [next?] at hm

theorem opened_after? {d d' : Due} {ts : List Token} (h : d.after? ts = some d') :
    d'.opened + ts.count .closing = d.opened + ts.count .opening := by
  induction ts generalizing d with
  | nil =>
    obtain rfl := Option.some.inj h
    rfl
  | cons t ts ih =>
    obtain ⟨m, hm, hts⟩ := Option.bind_eq_some_iff.1 h
    have hhead := opened_next? hm
    have htail := ih hts
    rw [← List.singleton_append, List.count_append, List.count_append]
    omega

end Due

theorem Derives.after? {k : Category} {ts : List Token} {φ : Formula} (h : Derives k ts φ) (n : Nat) :
    (Due.operand n).after? ts = some (.operator n) := by
  induction h generalizing n with
  | join _ _ ih ih' | iff _ _ ih ih' | implies _ _ ih ih' | or _ _ ih ih' | xor _ _ ih ih'
  | and _ _ ih ih' => exact Due.after?_append_eq_some.2 ⟨_, ih n, ih' n⟩
  | ofIff _ ih | ofImplies _ ih | ofOr _ ih | ofAnd _ ih | ofUnary _ ih => exact ih n
  | not _ ih => exact ih n
  | bracket _ ih => exact Due.after?_append_eq_some.2 ⟨_, ih (n + 1), rfl⟩
  | symbol name => rfl

end Grammar

open Grammar

abbrev Lexeme.tokens (ls : List Lexeme) : List Token := ls.map (·.token)

namespace Parser

/-- The tokens are due up to this one, which is not. -/
def NotDue (d : Due) (ls : List Lexeme) (l : Lexeme) : Prop :=
  ∃ us vs d', ls = us ++ l :: vs ∧ d.after? (Lexeme.tokens us) = some d' ∧ d'.next? l.token = none

/-- Why a reading of lexemes from a place where `d` is due comes to an error. -/
def Explains (d : Due) (ls : List Lexeme) : SyntaxError → Prop
  | .unexpectedToken pos t _ | .trailingInput pos t => NotDue d ls ⟨t, pos⟩
  | .unexpectedEnd _ | .emptyExpression => ∃ n, d.after? (Lexeme.tokens ls) = some (.operand n)
  | .unmatchedBracket pos => NotDue d ls ⟨.closing, pos⟩ ∨
    ∃ us vs n φ, ls = us ++ ⟨.opening, pos⟩ :: vs ∧ d.after? (Lexeme.tokens us) = some (.operand n) ∧
      Derives .join (Lexeme.tokens vs) φ
  | .tooDeep _ => False

variable {d m : Due} {us ls : List Lexeme} {e : SyntaxError}

theorem NotDue.append {l : Lexeme} (h : NotDue m ls l) (hus : d.after? (Lexeme.tokens us) = some m) :
    NotDue d (us ++ ls) l := by
  obtain ⟨vs, ws, d', rfl, hvs, hl⟩ := h
  refine ⟨us ++ vs, ws, d', by rw [List.append_assoc], ?_, hl⟩
  rw [Lexeme.tokens, List.map_append]
  exact Due.after?_append_eq_some.2 ⟨m, hus, hvs⟩

/-- What explains an error after some tokens explains it from the first of them on. -/
theorem Explains.append (h : Explains m ls e) (hus : d.after? (Lexeme.tokens us) = some m) :
    Explains d (us ++ ls) e := by
  have hmap : Lexeme.tokens (us ++ ls) = Lexeme.tokens us ++ Lexeme.tokens ls := List.map_append
  cases e with
  | unexpectedToken pos t _ => exact NotDue.append h hus
  | trailingInput pos t => exact NotDue.append h hus
  | unexpectedEnd _ =>
    obtain ⟨n, hn⟩ := h
    exact ⟨n, hmap ▸ Due.after?_append_eq_some.2 ⟨m, hus, hn⟩⟩
  | emptyExpression =>
    obtain ⟨n, hn⟩ := h
    exact ⟨n, hmap ▸ Due.after?_append_eq_some.2 ⟨m, hus, hn⟩⟩
  | unmatchedBracket pos =>
    rcases h with h | ⟨vs, ws, n, φ, rfl, hvs, hws⟩
    · exact .inl (h.append hus)
    · refine .inr ⟨us ++ vs, ws, n, φ, by rw [List.append_assoc], ?_, hws⟩
      rw [Lexeme.tokens, List.map_append]
      exact Due.after?_append_eq_some.2 ⟨m, hus, hvs⟩
  | tooDeep pos => exact h

theorem NotDue.after?_eq_none {l : Lexeme} (h : NotDue d ls l) : d.after? (Lexeme.tokens ls) = none := by
  obtain ⟨us, vs, d', rfl, hus, hl⟩ := h
  rw [Lexeme.tokens, List.map_append, Due.after?_append, hus, Option.bind_some, List.map_cons, Due.after?,
    hl]
  rfl

theorem Explains.ne_operator (h : Explains (.operand 0) ls e) :
    (Due.operand 0).after? (Lexeme.tokens ls) ≠ some (.operator 0) := by
  cases e with
  | unexpectedToken pos t _ => simp [NotDue.after?_eq_none h]
  | trailingInput pos t => simp [NotDue.after?_eq_none h]
  | unexpectedEnd _ =>
    obtain ⟨k, hk⟩ := h
    simp [hk]
  | emptyExpression =>
    obtain ⟨k, hk⟩ := h
    simp [hk]
  | unmatchedBracket pos =>
    rcases h with h | ⟨us, vs, k, φ, rfl, hus, hvs⟩
    · simp [h.after?_eq_none]
    · have hopen : (Due.operand 0).after? (Lexeme.tokens (us ++ ⟨.opening, pos⟩ :: vs)) =
          some (.operator (k + 1)) := by
        rw [Lexeme.tokens, List.map_append]
        exact Due.after?_append_eq_some.2 ⟨_, hus, hvs.after? (k + 1)⟩
      rw [hopen]
      simp
  | tooDeep pos => exact h.elim

theorem nest_none (depth pos : Nat) : nest none depth pos = .done (depth + 1) := rfl

theorem bind_eq_failed {α β : Type} {x : Outcome α} {f : α → Outcome β} :
    x.bind f = .failed e ↔ x = .failed e ∨ ∃ a, x = .done a ∧ f a = .failed e := by
  cases x <;> simp

/-- After an operand the loop goes on with an operator, and ends where another token comes. -/
theorem climb_explains {right : Nat → List Lexeme → Parse} (hs : ∀ m, Sound none m (right m))
    (he : ∀ m n ls e, right m ls = .failed e → Explains (.operand n) (content ls) e) {min rounds height n : Nat}
    {φ : Formula} (h : climb none right min rounds φ height ls = .failed e) :
    Explains (.operator n) (content ls) e := by
  induction rounds generalizing φ height ls with
  | zero => simp [climb] at h
  | succ rounds ih =>
    rw [climb] at h
    split at h
    · simp at h
    · rename_i c pos ls' hc
      obtain ⟨rfl, -⟩ := connective?_eq_some_iff.1 hc
      have hstep : (Due.operator n).after? (Lexeme.tokens [⟨.connective c, pos⟩]) = some (.operand n) := rfl
      rw [content_cons (by simp)]
      rcases bind_eq_failed.1 h with hright | ⟨⟨ψ, k, rest⟩, hright, hloop⟩
      · exact (he _ n _ _ hright).append hstep
      · obtain ⟨vs, rfl, hvs, -⟩ := hs _ _ _ _ _ hright
        have hrest := ih hloop
        rw [hvs.content_append]
        exact (hrest.append (hvs.derives.after? n)).append hstep

theorem next?_operator {t : Token} {pos : Nat} {rest : List Lexeme}
    (hconnective : connective? 0 (⟨t, pos⟩ :: rest) = none) (hclosing : t ≠ .closing) (n : Nat) :
    (Due.operator n).next? t = none := by
  cases t with
  | connective c => simp [connective?] at hconnective
  | closing => exact absurd rfl hclosing
  | symbol name => rfl
  | not => rfl
  | opening => rfl
  | eof => rfl

theorem close_explains {pos n height : Nat} {φ ψ : Formula} {rest : List Lexeme}
    (hus : Derives .join (Lexeme.tokens us) φ) (hrest : connective? 0 rest = none)
    (h : close pos ψ height rest = .failed e) :
    Explains (.operand n) (⟨.opening, pos⟩ :: (us ++ content rest)) e := by
  by_cases hend : content rest = []
  · rw [close_end hend] at h
    obtain rfl := Outcome.failed.inj h
    rw [hend, List.append_nil]
    exact .inr ⟨[], us, n, φ, rfl, rfl, hus⟩
  · unfold close at h
    split at h
    · simp at h
    · exact absurd rfl hend
    · exact absurd (content_eq_nil_iff.2 (.inr ⟨_, _, rfl⟩)) hend
    · rename_i t pos' rest hclosing heof
      obtain rfl := Outcome.failed.inj h
      rw [content_cons heof]
      refine ⟨⟨.opening, pos⟩ :: us, content rest, .operator (n + 1), rfl, hus.after? (n + 1), ?_⟩
      exact next?_operator hrest hclosing _

/-- Without a limit an operand fails for what it is made of, or for its first token, which cannot begin one. -/
theorem operand_eq_failed {fuel depth : Nat} (h : operand none (fuel + 1) depth ls = .failed e) :
    (content ls = [] ∧ e = .unexpectedEnd .operand) ∨
      (∃ pos ls' depth', ls = ⟨.not, pos⟩ :: ls' ∧ operand none fuel depth' ls' = .failed e) ∨
      (∃ pos ls' depth', ls = ⟨.opening, pos⟩ :: ls' ∧ bracketed none fuel pos depth' ls' = .failed e) ∨
      ∃ t pos ls', ls = ⟨t, pos⟩ :: ls' ∧ t ≠ .eof ∧ (∀ n, (Due.operand n).next? t = none) ∧
        e = .unexpectedToken pos t .operand := by
  by_cases hend : content ls = []
  · rw [operand_end hend] at h
    exact .inl ⟨hend, (Outcome.failed.inj h).symm⟩
  · have hne : ls ≠ [] := by
      rintro rfl
      exact hend rfl
    obtain ⟨⟨t, pos⟩, ls, rfl⟩ := List.exists_cons_of_ne_nil hne
    refine .inr ?_
    cases t with
    | symbol name => simp [operand] at h
    | not =>
      simp only [operand, nest_none, Outcome.done_bind] at h
      rcases bind_eq_failed.1 h with h | ⟨p, -, h⟩
      · exact .inl ⟨pos, ls, _, rfl, h⟩
      · simp at h
    | opening =>
      simp only [operand, nest_none, Outcome.done_bind] at h
      exact .inr (.inl ⟨pos, ls, _, rfl, h⟩)
    | connective _ | closing =>
      exact .inr (.inr ⟨_, pos, ls, rfl, by simp, fun _ => rfl, (Outcome.failed.inj h).symm⟩)
    | eof => exact absurd (content_eq_nil_iff.2 (.inr ⟨pos, ls, rfl⟩)) hend

/-- Every error of a parser without a limit is explained by what was due where it started. -/
theorem parse_explains (fuel : Nat) :
    (∀ min depth n ls e, subformula none fuel min depth ls = .failed e →
        Explains (.operand n) (content ls) e) ∧
      (∀ depth n ls e, operand none fuel depth ls = .failed e → Explains (.operand n) (content ls) e) ∧
      ∀ pos depth n ls e, bracketed none fuel pos depth ls = .failed e →
        Explains (.operand n) (⟨.opening, pos⟩ :: content ls) e := by
  induction fuel with
  | zero => simp [subformula, operand, bracketed]
  | succ fuel ih =>
    obtain ⟨ihs, iho, ihb⟩ := ih
    obtain ⟨hs, ho, -⟩ := parse_sound none fuel
    refine ⟨fun min depth n ls e h => ?_, fun depth n ls e h => ?_, fun pos depth n ls e h => ?_⟩
    · rw [subformula] at h
      rcases bind_eq_failed.1 h with h | ⟨⟨φ, k, rest⟩, hφ, hloop⟩
      · exact iho depth n ls e h
      · obtain ⟨us, rfl, hus⟩ := ho _ _ _ _ _ hφ
        have hrest : Explains (.operator n) (content rest) e :=
          climb_explains (fun m => hs m depth) (fun m n => ihs m depth n) hloop
        rw [hus.content_append]
        exact hrest.append (hus.derives.after? n)
    · rcases operand_eq_failed h with
        ⟨hend, rfl⟩ | ⟨pos, ls, d, rfl, hinner⟩ | ⟨pos, ls, d, rfl, hinner⟩ | ⟨t, pos, ls, rfl, ht, hnext, rfl⟩
      · exact ⟨n, by rw [hend]; rfl⟩
      · have hstep : (Due.operand n).after? (Lexeme.tokens [⟨.not, pos⟩]) = some (.operand n) := rfl
        rw [content_cons (by simp)]
        exact (iho d n ls e hinner).append hstep
      · rw [content_cons (by simp)]
        exact ihb pos d n ls e hinner
      · rw [content_cons ht]
        exact ⟨[], content ls, _, rfl, rfl, hnext n⟩
    · rw [bracketed] at h
      rcases bind_eq_failed.1 h with h | ⟨⟨φ, k, rest⟩, hφ, hclose⟩
      · have hstep : (Due.operand n).after? (Lexeme.tokens [⟨.opening, pos⟩]) = some (.operand (n + 1)) :=
          rfl
        exact (ihs 0 depth (n + 1) ls e h).append hstep
      · obtain ⟨us, rfl, hus, hrest⟩ := hs 0 depth _ _ _ _ hφ
        rw [hus.content_append]
        exact close_explains hus.derives hrest hclose

theorem finish_explains {φ : Formula} (hus : Derives .join (Lexeme.tokens us) φ)
    (hrest : connective? 0 ls = none) (h : finish φ ls = .failed e) :
    Explains (.operand 0) (us ++ content ls) e := by
  unfold finish at h
  split at h
  · simp at h
  · simp at h
  · rename_i pos rest
    obtain rfl := Outcome.failed.inj h
    rw [content_cons (by simp)]
    exact .inl ⟨us, content rest, .operator 0, rfl, hus.after? 0, rfl⟩
  · rename_i t pos rest heof hclosing
    obtain rfl := Outcome.failed.inj h
    rw [content_cons heof]
    refine ⟨us, content rest, .operator 0, rfl, hus.after? 0, ?_⟩
    exact next?_operator hrest hclosing _

/-- What a run without a limit reports is explained by the tokens before the first end of the input. -/
theorem run_explains {fuel : Nat} (h : run none fuel ls = .failed e) :
    Explains (.operand 0) (content ls) e := by
  by_cases hnil : content ls = []
  · rw [run_end hnil] at h
    obtain rfl := Outcome.failed.inj h
    exact ⟨0, by rw [hnil]; rfl⟩
  · rw [run_of_content_ne_nil hnil] at h
    rcases bind_eq_failed.1 h with h | ⟨⟨φ, k, rest⟩, hφ, hfinish⟩
    · exact (parse_explains fuel).1 0 0 0 _ _ h
    · obtain ⟨us, rfl, hp, hrest⟩ := (parse_sound none fuel).1 0 0 _ _ _ _ hφ
      rw [hp.content_append]
      exact finish_explains hp.derives hrest hfinish

end Parser

namespace Grammar

/-- The tokens that some continuation makes a formula. -/
def Viable (ts : List Token) : Prop := ∃ us φ, Derives .join (ts ++ us) φ

/-- Tokens are a formula just if they are all due and an operator is due after them. Where they are, the parser
has no error to report. -/
theorem exists_derives_iff {ts : List Token} :
    (∃ φ, Derives .join ts φ) ↔ (Due.operand 0).after? ts = some (.operator 0) := by
  constructor
  · rintro ⟨φ, h⟩
    exact h.after? 0
  · intro h
    let ls : List Lexeme := ts.map (⟨·, 0⟩)
    have htokens : Lexeme.tokens ls = ts := by simp [ls, Lexeme.tokens, Function.comp_def]
    have hcontent : Parser.content ls = ls := by
      refine List.takeWhile_eq_self_iff.2 fun l hl => decide_eq_true fun he => ?_
      exact Due.eof_not_mem_of_after? h (htokens ▸ he ▸ List.mem_map_of_mem hl)
    cases hrun : Parser.run none (Parser.enoughFuel ls) ls with
    | done φ =>
      have hφ := (Parser.parsed_of_run hrun).derives
      rw [hcontent] at hφ
      exact ⟨φ, htokens ▸ hφ⟩
    | failed e =>
      have he := (Parser.run_explains hrun).ne_operator
      rw [hcontent, htokens] at he
      exact absurd h he
    | exhausted => exact absurd hrun (Parser.run_ne_exhausted none ls)

theorem after?_replicate_closing (n : Nat) :
    (Due.operator n).after? (List.replicate n .closing) = some (.operator 0) := by
  induction n with
  | zero => rfl
  | succ n ih => exact ih

/-- Tokens can be continued just if they are all due: an operand, if one is due, and a closing bracket for each
that is open make them a formula. -/
theorem viable_iff {ts : List Token} : Viable ts ↔ ∃ d, (Due.operand 0).after? ts = some d := by
  constructor
  · rintro ⟨us, φ, h⟩
    obtain ⟨d, hd, -⟩ := Due.after?_append_eq_some.1 (h.after? 0)
    exact ⟨d, hd⟩
  · rintro ⟨d, hd⟩
    cases d with
    | operator n =>
      refine ⟨List.replicate n .closing, exists_derives_iff.2 ?_⟩
      exact Due.after?_append_eq_some.2 ⟨_, hd, after?_replicate_closing n⟩
    | operand n =>
      refine ⟨.symbol "p" :: List.replicate n .closing, exists_derives_iff.2 ?_⟩
      exact Due.after?_append_eq_some.2 ⟨_, hd, after?_replicate_closing n⟩

end Grammar

end TruthTables
