import TruthTables.Table.Build
import TruthTables.Proofs.RowWalks

/-! # Questions about rows -/
namespace TruthTables.Table

open Enumeration

variable {σ : Type}

section Answers

variable (proceed : Nat → StateM σ Bool) (s : σ)

/-- The state in which a row is asked about, when all rows before it have been asked about. -/
def askedIn : Nat → σ
  | 0 => s
  | i + 1 => ((proceed i).run (askedIn i)).2

def agrees (i : Nat) : Bool := ((proceed i).run (askedIn proceed s i)).1

/-- Gives the same answers, and keeps every question with its answer, the latest last. -/
def recorded (i : Nat) : StateM (σ × List (Nat × Bool)) Bool := fun p =>
  let answer := (proceed i).run p.1
  (answer.1, answer.2, p.2 ++ [(i, answer.1)])

def answers (n : Nat) : List (Nat × Bool) := (List.range n).map fun i => (i, agrees proceed s i)

theorem asked_eq {i : Nat} {b : Bool} (h : agrees proceed s i = b) :
    (proceed i).run (askedIn proceed s i) = (b, askedIn proceed s (i + 1)) := Prod.ext h rfl

theorem answers_succ (n : Nat) :
    answers proceed s (n + 1) = answers proceed s n ++ [(n, agrees proceed s n)] := by
  rw [answers, List.range_succ, List.map_append]
  rfl

theorem length_answers (n : Nat) : (answers proceed s n).length = n := by
  rw [answers, List.length_map, List.length_range]

theorem indices_answers (n : Nat) :
    (answers proceed s n).map Prod.fst = List.range (answers proceed s n).length := by
  rw [length_answers, answers, List.map_map]
  exact List.map_id _

theorem answers_of_agrees {n : Nat} (h : ∀ j < n, agrees proceed s j = true) :
    answers proceed s n = (List.range n).map (·, true) :=
  List.map_congr_left fun j hj => by rw [h j (List.mem_range.1 hj)]

theorem askedIn_recorded (n : Nat) :
    askedIn (recorded proceed) (s, []) n = (askedIn proceed s n, answers proceed s n) := by
  induction n with
  | zero => rfl
  | succ n ih =>
    rw [askedIn, ih, answers_succ]
    rfl

theorem agrees_recorded (i : Nat) : agrees (recorded proceed) (s, []) i = agrees proceed s i := by
  rw [agrees, askedIn_recorded]
  rfl

theorem agrees_or_declines (n : Nat) :
    (∀ k < n, agrees proceed s k = true) ∨
      ∃ k < n, agrees proceed s k = false ∧ ∀ j < k, agrees proceed s j = true := by
  induction n with
  | zero => exact .inl fun k hk => absurd hk (Nat.not_lt_zero k)
  | succ n ih =>
    rcases ih with ih | ⟨k, hk, hdeclined⟩
    · cases hn : agrees proceed s n with
      | true => exact .inl (Nat.forall_lt_succ_right.2 ⟨ih, hn⟩)
      | false => exact .inr ⟨n, Nat.lt_succ_self n, hn, ih⟩
    · exact .inr ⟨k, Nat.lt_succ_of_lt hk, hdeclined⟩

end Answers

variable {proceed : Nat → StateM σ Bool} {s : σ} {φ : Formula}

section Round

variable {i : Nat} {s' : σ}

theorem next?_place (h : i < (Enumeration.ofFormula φ).rowCount) :
    (place φ i).next? = some ((place φ i).row i, place φ (i + 1)) := by
  exact next?_of_lt h

/-- The question is about the row to come, although its number is counted from the rows that remain. -/
theorem declinesNext_eq (h : i < (Enumeration.ofFormula φ).rowCount) :
    declinesNext proceed (place φ i) = (!·) <$> proceed i := by
  have hremaining : 0 < (place φ i).remaining := Nat.sub_pos_of_lt h
  have hindex : (place φ i).rowCount - (place φ i).remaining = i := Nat.sub_sub_self (Nat.le_of_lt h)
  rw [declinesNext, if_pos hremaining, hindex]

theorem addRows_agreed (h : i < (Enumeration.ofFormula φ).rowCount) (hs : (proceed i).run s = (true, s'))
    (rounds : Nat) (rows : Array Row) :
    (addRows proceed (rounds + 1) (place φ i) rows).run s =
      (addRows proceed rounds (place φ (i + 1)) (rows.push (.ofValues ((place φ i).row i)))).run s' := by
  rw [addRows, declinesNext_eq h, next?_place h, StateT.run_bind, StateT.run_map, hs]
  rfl

theorem addRows_declined (h : i < (Enumeration.ofFormula φ).rowCount) (hs : (proceed i).run s = (false, s'))
    (rounds : Nat) (rows : Array Row) :
    (addRows proceed (rounds + 1) (place φ i) rows).run s = (none, s') := by
  rw [addRows, declinesNext_eq h, StateT.run_bind, StateT.run_map, hs]
  rfl

theorem addRows_last {e : Enumeration} (h : e.remaining = 0) (rounds : Nat) (rows : Array Row) :
    (addRows proceed (rounds + 1) e rows).run s = (some rows, s) := by
  rw [addRows, declinesNext, if_neg (by omega), next?_eq_none_iff.2 h]
  rfl

end Round

theorem addRows_of_agrees (n : Nat) {i : Nat} (hn : i + n ≤ (Enumeration.ofFormula φ).rowCount)
    (h : ∀ j < n, agrees proceed s (i + j) = true) (rounds : Nat) (rows : Array Row) :
    (addRows proceed (rounds + n) (place φ i) rows).run (askedIn proceed s i) =
      (addRows proceed rounds (place φ (i + n)) (rows ++ (((place φ i).take n).map Row.ofValues).toArray)).run
        (askedIn proceed s (i + n)) := by
  -- the induction carries the walk: the state of a round is that of the questions about the rows before it
  induction n generalizing i rows with
  | zero => simp [take]
  | succ n ih =>
    have hlt : i < (Enumeration.ofFormula φ).rowCount := by omega
    have hrows : rows.push (.ofValues ((place φ i).row i)) ++
        (((place φ (i + 1)).take n).map Row.ofValues).toArray =
          rows ++ (((place φ i).take (n + 1)).map Row.ofValues).toArray := by
      rw [take_succ hlt]
      simp [place, advance]
    have hsucc : i + 1 + n = i + (n + 1) := by omega
    have hrest := ih (i := i + 1) (by omega) (fun j hj => by
      rw [Nat.add_assoc, Nat.add_comm 1 j]
      exact h (j + 1) (Nat.succ_lt_succ hj)) (rows.push (.ofValues ((place φ i).row i)))
    rw [hrows, hsucc] at hrest
    exact (addRows_agreed hlt (asked_eq proceed s (h 0 (Nat.succ_pos n))) (rounds + n) rows).trans hrest

section Build

variable (separator : String)

/-- A build comes to the place behind the rows that are agreed to. -/
theorem buildUntil_eq {n : Nat} (hn : n ≤ (Enumeration.ofFormula φ).rowCount)
    (h : ∀ j < n, agrees proceed s j = true) :
    let e := Enumeration.ofFormula φ
    (buildUntil φ separator proceed).run s =
      ((addRows proceed (e.rowCount - n + 1) (place φ n) ((e.take n).map Row.ofValues).toArray).run
        (askedIn proceed s n)).map (·.map fun rows => ⟨e.title, header e separator, rows.toList⟩) id := by
  intro e
  have hrounds : e.remaining + 1 = e.rowCount - n + 1 + n := by
    have hremaining : e.remaining = e.rowCount := Nat.sub_zero _
    have hle : n ≤ e.rowCount := hn
    omega
  have hrun := addRows_of_agrees (i := 0) (s := s) n (by rwa [Nat.zero_add]) (fun j hj => by
    rw [Nat.zero_add]
    exact h j hj) (e.rowCount - n + 1) #[]
  rw [Nat.zero_add, ← hrounds, Array.empty_append] at hrun
  rw [buildUntil, StateT.run_bind]
  exact congrArg (Prod.map (·.map fun rows => Table.mk e.title (header e separator) rows.toList) id) hrun

theorem buildUntil_of_agrees (h : ∀ k < (Enumeration.ofFormula φ).rowCount, agrees proceed s k = true) :
    (buildUntil φ separator proceed).run s =
      (some (ofFormula φ separator), askedIn proceed s (Enumeration.ofFormula φ).rowCount) := by
  rw [buildUntil_eq separator (Nat.le_refl _) h, Nat.sub_self, addRows_last (Nat.sub_self _)]
  rfl

/-- Nothing is built if a row is declined, and there is no question after that one. -/
theorem buildUntil_of_declines {k : Nat} (hk : k < (Enumeration.ofFormula φ).rowCount)
    (hdeclined : agrees proceed s k = false) (h : ∀ j < k, agrees proceed s j = true) :
    (buildUntil φ separator proceed).run s = (none, askedIn proceed s (k + 1)) := by
  rw [buildUntil_eq separator (Nat.le_of_lt hk) h, addRows_declined hk (asked_eq proceed s hdeclined)]
  rfl

end Build

/-- The rows are asked about in their order, each of them once, up to the first that is declined or up to the
last. A table comes out if none is declined, and it is the table that is built without any question. -/
theorem buildUntil_questions (φ : Formula) (separator : String) (proceed : Nat → StateM σ Bool) (s : σ) :
    let n := (Enumeration.ofFormula φ).rowCount
    ∃ t s' log,
      (buildUntil φ separator proceed).run s = (t, s') ∧
      (buildUntil φ separator (recorded proceed)).run (s, []) = (t, s', log) ∧
      log.map Prod.fst = List.range log.length ∧ log.length ≤ n ∧
      (∀ k < n, agrees proceed s k = false → (∀ j < k, agrees proceed s j = true) →
        t = none ∧ log = (List.range k).map (·, true) ++ [(k, false)]) ∧
      ((∀ k < n, agrees proceed s k = true) →
        t = some (ofFormula φ separator) ∧ log = (List.range n).map (·, true)) := by
  intro n
  have hrecorded : ∀ {i : Nat} {b : Bool}, agrees proceed s i = b → agrees (recorded proceed) (s, []) i = b :=
    (agrees_recorded proceed s _).trans
  have hlog : ∀ (t : Option Table) (m : Nat),
      (t, askedIn (recorded proceed) (s, []) m) = (t, askedIn proceed s m, answers proceed s m) :=
    fun t m => congrArg (Prod.mk t) (askedIn_recorded proceed s m)
  rcases agrees_or_declines proceed s n with h | ⟨k, hk, hdeclined, h⟩
  · have hbuilt := buildUntil_of_agrees separator fun j (hj : j < n) => hrecorded (h j hj)
    refine ⟨_, _, _, buildUntil_of_agrees separator h, hbuilt.trans (hlog _ n), indices_answers proceed s n,
      Nat.le_of_eq (length_answers proceed s n), ?_, ?_⟩
    · intro k hk hdeclined
      exact absurd ((h k hk).symm.trans hdeclined) (by decide)
    · exact fun _ => ⟨rfl, answers_of_agrees proceed s h⟩
  · have hstopped := buildUntil_of_declines separator hk (hrecorded hdeclined) fun j hj => hrecorded (h j hj)
    have hlength : (answers proceed s (k + 1)).length ≤ n := by
      rw [length_answers]
      exact hk
    refine ⟨_, _, _, buildUntil_of_declines separator hk hdeclined h, hstopped.trans (hlog _ (k + 1)),
      indices_answers proceed s (k + 1), hlength, ?_, ?_⟩
    · intro l hl hdeclined' h'
      obtain rfl : l = k := by
        rcases Nat.lt_trichotomy l k with hlk | hlk | hlk
        · exact absurd ((h l hlk).symm.trans hdeclined') (by decide)
        · exact hlk
        · exact absurd ((h' k hlk).symm.trans hdeclined) (by decide)
      rw [answers_succ, answers_of_agrees proceed s h, hdeclined]
      exact ⟨rfl, rfl⟩
    · intro hall
      exact absurd ((hall k hk).symm.trans hdeclined) (by decide)

/-- Answers that depend on how many questions there were stop the build all the same. -/
theorem buildUntil_questions_third :
    let φ : Formula := .binary .and (.symbol "a") (.symbol "b")
    let twice : Nat → StateM Nat Bool := fun _ => modifyGet fun n => (n < 2, n + 1)
    (Enumeration.ofFormula φ).rowCount = 4 ∧ agrees twice 0 2 = false ∧
      (buildUntil φ "" (recorded twice)).run (0, []) = (none, 3, [(0, true), (1, true), (2, false)]) := by
  intro φ twice
  have hdeclined : agrees twice 0 2 = false := by rfl
  obtain ⟨t, s', log, hrun, hlog, -, -, hstops, -⟩ := buildUntil_questions φ "" twice 0
  obtain ⟨rfl, rfl⟩ := hstops 2 (by decide) hdeclined (by decide)
  obtain rfl : s' = 3 := (Prod.mk.inj hrun).2.symm
  exact ⟨by decide, hdeclined, hlog⟩

end TruthTables.Table
