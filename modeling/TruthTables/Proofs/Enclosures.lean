import TruthTables.Proofs.Grammar

/-! # What operands are enclosed by -/
namespace TruthTables

def Token.startsOperand : Token → Bool
  | symbol _ | not | opening => true
  | connective _ | closing | eof => false

namespace Grammar

inductive Enclosure
  | bracket | negation
  deriving DecidableEq

/-- The end of an operand is the end of the negations right before it. Inner enclosures come first. -/
def afterOperand (es : List Enclosure) : List Enclosure := es.dropWhile (· = .negation)

def enclose (es : List Enclosure) : Token → List Enclosure
  | .opening => .bracket :: es
  | .not => .negation :: es
  | .symbol _ => afterOperand es
  | .closing => afterOperand es.tail
  | .connective _ | .eof => es

/-- The enclosures of what follows a list of tokens. -/
def enclosures (ts : List Token) : List Enclosure := ts.foldl enclose []

/-- The most enclosures of an operand that starts in a list of tokens, when `es` are those of the list. -/
def deepest (es : List Enclosure) : List Token → Nat
  | [] => 0
  | t :: ts => max (if t.startsOperand then es.length else 0) (deepest (enclose es t) ts)

def nesting (ts : List Token) : Nat := deepest [] ts

theorem deepest_append (es : List Enclosure) (ts us : List Token) :
    deepest es (ts ++ us) = max (deepest es ts) (deepest (ts.foldl enclose es) us) := by
  induction ts generalizing es with
  | nil => exact (Nat.zero_max _).symm
  | cons t ts ih => rw [List.cons_append, deepest, deepest, ih, List.foldl_cons, Nat.max_assoc]

theorem deepest_le_iff {n : Nat} {ts : List Token} {es : List Enclosure} :
    deepest es ts ≤ n ↔
      ∀ us t vs, ts = us ++ t :: vs → t.startsOperand = true → (us.foldl enclose es).length ≤ n := by
  induction ts generalizing es with
  | nil => simp [deepest]
  | cons t ts ih =>
    rw [deepest, Nat.max_le, ih]
    constructor
    · rintro ⟨hfirst, hrest⟩ us u vs h hu
      cases us with
      | nil =>
        obtain ⟨rfl, rfl⟩ := List.cons.inj h
        rwa [if_pos hu] at hfirst
      | cons v us =>
        obtain ⟨rfl, rfl⟩ := List.cons.inj h
        exact hrest us u vs rfl hu
    · intro h
      refine ⟨?_, fun us u vs hts hu => h (t :: us) u vs (hts ▸ rfl) hu⟩
      by_cases ht : t.startsOperand = true
      · rw [if_pos ht]
        exact h [] t ts rfl ht
      · rw [if_neg ht]
        exact Nat.zero_le n

theorem nesting_le_iff {n : Nat} {ts : List Token} :
    nesting ts ≤ n ↔ ∀ us t vs, ts = us ++ t :: vs → t.startsOperand = true → (enclosures us).length ≤ n :=
  deepest_le_iff

namespace Derives

variable {k : Category} {c : Connective} {ts us : List Token} {φ ψ : Formula} {es : List Enclosure}

/-- A formula ends outside of all brackets that it opens, and with it end the negations right before it. Only
an operand stands after a negation. -/
theorem foldl_enclose (h : Derives k ts φ) (hes : k = .unary ∨ afterOperand es = es) :
    ts.foldl enclose es = afterOperand es := by
  induction h generalizing es with
  | symbol name => rfl
  | not _ ih => exact ih (.inl rfl)
  | bracket _ ih =>
    rw [List.cons_append, List.foldl_cons, List.foldl_append, enclose, ih (.inr rfl)]
    rfl
  | ofIff _ ih | ofImplies _ ih | ofOr _ ih | ofAnd _ ih => exact ih (.inr (hes.resolve_left nofun))
  | ofUnary _ ih => exact ih (.inl rfl)
  | join _ _ ih ih' | iff _ _ ih ih' | implies _ _ ih ih' | or _ _ ih ih' | xor _ _ ih ih' =>
    have hsame := hes.resolve_left nofun
    rw [List.foldl_append, ih (.inr hsame), hsame, List.foldl_cons, enclose, ih' (.inr hsame), hsame]
  | and _ _ ih ih' =>
    have hsame := hes.resolve_left nofun
    rw [List.foldl_append, ih (.inr hsame), hsame, List.foldl_cons, enclose, ih' (.inl rfl), hsame]

theorem deepest_binary (h : Derives k ts φ) (hes : afterOperand es = es) :
    deepest es (ts ++ .connective c :: us) = max (deepest es ts) (deepest es us) := by
  rw [deepest_append, h.foldl_enclose (.inr hes), hes, deepest]
  exact congrArg (max _) (Nat.zero_max _)

theorem deepest_not : deepest es (.not :: ts) = max es.length (deepest (.negation :: es) ts) := rfl

theorem deepest_bracket :
    deepest es (.opening :: ts ++ [.closing]) = max es.length (deepest (.bracket :: es) ts) := by
  rw [List.cons_append, deepest, deepest_append]
  exact congrArg (max _) (Nat.max_zero _)

/-- How deeply a formula's operands are enclosed in it does not depend on what the formula is enclosed by. -/
theorem deepest_eq (h : Derives k ts φ) (hes : k = .unary ∨ afterOperand es = es) :
    deepest es ts = es.length + nesting ts := by
  induction h generalizing es with
  | symbol name => exact Nat.max_zero _
  | not _ ih =>
    rw [nesting, deepest_not, deepest_not, ih (.inl rfl), ih (.inl rfl)]
    simp only [List.length_cons, List.length_nil]
    omega
  | bracket _ ih =>
    rw [nesting, deepest_bracket, deepest_bracket, ih (.inr rfl), ih (.inr rfl)]
    simp only [List.length_cons, List.length_nil]
    omega
  | ofIff _ ih | ofImplies _ ih | ofOr _ ih | ofAnd _ ih => exact ih (.inr (hes.resolve_left nofun))
  | ofUnary _ ih => exact ih (.inl rfl)
  | join h _ ih ih' | iff h _ ih ih' | implies h _ ih ih' | or h _ ih ih' | xor h _ ih ih' =>
    have hsame := hes.resolve_left nofun
    rw [nesting, h.deepest_binary hsame, h.deepest_binary rfl, ih (.inr hsame), ih' (.inr hsame)]
    exact Nat.add_max_add_left ..
  | and h _ ih ih' =>
    have hsame := hes.resolve_left nofun
    rw [nesting, h.deepest_binary hsame, h.deepest_binary rfl, ih (.inr hsame), ih' (.inl rfl)]
    exact Nat.add_max_add_left ..

theorem nesting_not (h : Derives .unary ts φ) : nesting (.not :: ts) = nesting ts + 1 := by
  rw [nesting, deepest_not, h.deepest_eq (.inl rfl), Nat.add_comm]
  exact Nat.zero_max _

theorem nesting_bracket (h : Derives .join ts φ) : nesting (.opening :: ts ++ [.closing]) = nesting ts + 1 := by
  rw [nesting, deepest_bracket, h.deepest_eq (.inr rfl), Nat.add_comm]
  exact Nat.zero_max _

theorem nesting_binary (h : Derives k ts φ) :
    nesting (ts ++ .connective c :: us) = max (nesting ts) (nesting us) := h.deepest_binary rfl

end Derives

end Grammar

end TruthTables
