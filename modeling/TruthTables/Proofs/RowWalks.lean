import Mathlib.Algebra.GroupWithZero.Nat
import TruthTables.Enumeration.Session

/-! # Walks through the rows -/
namespace TruthTables.Enumeration

/-- The row of a number, from a pass over the formula in which the variables have the bits of the number. -/
def passRow (φ : Formula) (i : Nat) : RowValues :=
  let pass := Evaluation.run φ ((ofFormula φ).vars.valuation i)
  ⟨i, pass.primitives.map (·.value), pass.derived.map (·.value)⟩

/-- Asks for the next row up to `n` times, and no more once there is none. -/
def draw : (n : Nat) → Enumeration → List RowValues × Enumeration
  | 0, e => ([], e)
  | n + 1, e =>
    match e.next? with
    | none => ([], e)
    | some (r, e) => (r :: (draw n e).1, (draw n e).2)

/-- What holds at every place. The rows that are drawn are the next ones, each from a pass of its own, until none
is left, and as many are left as are said to remain. -/
structure IsPlaceOf (e : Enumeration) (φ : Formula) : Prop where
  rowCount : e.rowCount = (ofFormula φ).rowCount
  rowCount_lt : e.rowCount < 2 ^ 128
  next_le : e.next ≤ e.rowCount
  next_add_remaining : e.next + e.remaining = e.rowCount
  draw : ∀ n, e.draw n = ((List.range' e.next (min n e.remaining)).map (passRow φ),
    { e with next := e.next + min n e.remaining })
  sizeHint : e.sizeHint = if e.remaining < 2 ^ 64 then (e.remaining, some e.remaining) else (2 ^ 64 - 1, none)

def place (φ : Formula) (n : Nat) : Enumeration := { ofFormula φ with next := n }

/-- An enumeration of the rows of a formula that is at one of them or behind the last. -/
def Among (e : Enumeration) (φ : Formula) : Prop := ∃ n ≤ (ofFormula φ).rowCount, e = place φ n

section Draw

variable {e : Enumeration}

theorem take_succ (h : e.next < e.rowCount) (n : Nat) :
    e.take (n + 1) = e.row e.next :: e.advance.take n := by
  have hlen : min (n + 1) e.remaining = min n (e.remaining - 1) + 1 := by
    simp only [remaining]
    omega
  rw [take, take, remaining_advance, hlen, List.range'_succ, List.map_cons]
  rfl

/-- Rows that are taken or left out at once might as well be drawn one by one. -/
theorem draw_eq (e : Enumeration) (n : Nat) : e.draw n = (e.take n, e.skip n) := by
  induction n generalizing e with
  | zero => rw [take, Nat.zero_min]; rfl
  | succ n ih =>
    by_cases hlt : e.next < e.rowCount
    · rw [draw, next?_of_lt hlt, take_succ hlt, skip_succ_of_lt hlt]
      simp only [ih]
    · have hremaining : e.remaining = 0 := Nat.sub_eq_zero_of_le (Nat.not_lt.1 hlt)
      rw [draw, next?_eq_none_iff.2 hremaining, skip_of_remaining_eq_zero hremaining, take, hremaining,
        Nat.min_zero]
      rfl

theorem draw_add (m n : Nat) (e : Enumeration) :
    e.draw (m + n) = ((e.draw m).1 ++ ((e.draw m).2.draw n).1, ((e.draw m).2.draw n).2) := by
  induction m generalizing e with
  | zero => rw [Nat.zero_add]; rfl
  | succ m ih =>
    rw [Nat.succ_add, draw, draw]
    cases hnext : e.next? with
    | none => cases n <;> simp [draw, hnext]
    | some p => simp only [ih, List.cons_append]

theorem length_draw_le (n : Nat) (e : Enumeration) : (e.draw n).1.length ≤ n := by
  induction n generalizing e with
  | zero => exact Nat.le_refl 0
  | succ n ih =>
    rw [draw]
    cases e.next? with
    | none => exact Nat.zero_le _
    | some p => exact Nat.succ_le_succ (ih p.2)

end Draw

section Place

variable {φ : Formula} {e : Enumeration}

theorem rowCount_lt (e : Enumeration) : e.rowCount < 2 ^ 128 := by
  have h : e.rowCount ≤ 1 <<< 128 - 1 := Nat.min_le_right ..
  exact Nat.lt_of_le_of_lt h (by decide)

theorem among_ofFormula (φ : Formula) : (ofFormula φ).Among φ := ⟨0, Nat.zero_le _, rfl⟩

theorem Among.next_le (h : e.Among φ) : e.next ≤ e.rowCount := by
  obtain ⟨n, hn, rfl⟩ := h
  exact hn

theorem Among.draw (h : e.Among φ) (n : Nat) : (e.draw n).2.Among φ := by
  have hle := next_skip_le h.next_le n
  rw [draw_eq]
  obtain ⟨m, hm, rfl⟩ := h
  rw [skip_eq hm] at hle ⊢
  exact ⟨_, hle, rfl⟩

theorem Among.isPlaceOf (h : e.Among φ) : e.IsPlaceOf φ where
  rowCount := by
    obtain ⟨n, hn, rfl⟩ := h
    rfl
  rowCount_lt := rowCount_lt e
  next_le := h.next_le
  next_add_remaining := Nat.add_sub_cancel' h.next_le
  draw k := by
    rw [draw_eq, skip_eq h.next_le]
    obtain ⟨n, hn, rfl⟩ := h
    rfl
  sizeHint := rfl

end Place

def Reply.rowsBrought : Reply → List RowValues
  | .row r => r.toList
  | .rows rs => rs
  | .count _ | .saved | .restored => []

/-- How many times a step asks for the next row without going back. -/
def Step.demand : Step → Nat
  | .next => 1
  | .nth n => n + 1
  | .take n => n
  | .count | .save | .restore => 0

namespace Session

/-- What a step is in terms of drawing rows one by one. A count draws from a copy, until there is none. -/
inductive Answers (s : Session) : Step → Reply → Session → Prop
  | next {rows e} : s.current.draw 1 = (rows, e) →
      Answers s .next (.row rows[0]?) { s with current := e }
  | nth {n rows e} : s.current.draw (n + 1) = (rows, e) →
      Answers s (.nth n) (.row rows[n]?) { s with current := e }
  | take {n rows e} : s.current.draw n = (rows, e) →
      Answers s (.take n) (.rows rows) { s with current := e }
  | count {n rows e} : s.current.draw n = (rows, e) → rows.length = n → e.next? = none →
      Answers s .count (.count n) s
  | save : Answers s .save .saved { s with saved := s.current }
  | restore : Answers s .restore .restored { s with current := s.saved }

section Step

variable {s : Session}

/-- The row after `n` others is the last of `n + 1`, if there are so many. -/
theorem nth_eq (s : Session) (n : Nat) :
    s.nth n = (.row (s.current.draw (n + 1)).1[n]?, { s with current := (s.current.draw (n + 1)).2 }) := by
  have hdraw := draw_eq s.current n
  rw [draw_add, hdraw, nth]
  cases hnext : (s.current.skip n).next? with
  | none =>
    have hlen : (s.current.take n).length ≤ n := by
      rw [length_take]
      exact Nat.min_le_left ..
    simp only [draw, hnext, List.append_nil, List.getElem?_eq_none hlen]
  | some p =>
    have hlen : (s.current.take n).length = n := by
      have hremaining : ¬(s.current.skip n).remaining = 0 := by
        rw [← next?_eq_none_iff, hnext]
        simp
      rw [remaining_skip] at hremaining
      rw [length_take, Nat.min_eq_left (by omega)]
    have hlast : (s.current.take n ++ [p.1])[n]? = some p.1 := by
      rw [List.getElem?_append_right (Nat.le_of_eq hlen), hlen, Nat.sub_self]
      rfl
    simp only [draw, hnext, hlast]

theorem answers_step (s : Session) (step : Step) :
    Answers s step (s.step step).1 (s.step step).2 := by
  cases step with
  | next =>
    rw [Session.step, nth_eq]
    exact .next rfl
  | nth n =>
    rw [Session.step, nth_eq]
    exact .nth rfl
  | take n => exact .take (draw_eq _ n)
  | count =>
    refine .count (draw_eq _ _) ?_ ?_
    · rw [length_take, Nat.min_self]
    · rw [next?_eq_none_iff, remaining_skip, Nat.sub_self]
  | save => exact .save
  | restore => exact .restore

/-- A step goes on from where the last one stopped, and brings no row that it has not drawn. -/
theorem Answers.draws {step : Step} {reply : Reply} {s' : Session} (h : Answers s step reply s')
    (hstep : step ≠ .restore) :
    s'.current = (s.current.draw step.demand).2 ∧
      reply.rowsBrought.Sublist (s.current.draw step.demand).1 ∧
        ((∀ n, step ≠ .nth (n + 1)) → reply.rowsBrought = (s.current.draw step.demand).1) := by
  have sublist : ∀ (rows : List RowValues) (n : Nat), rows[n]?.toList.Sublist rows := by
    intro rows n
    cases hn : rows[n]? with
    | none => exact List.nil_sublist rows
    | some r => exact List.singleton_sublist.2 (List.mem_of_getElem? hn)
  have first : ∀ {rows e}, s.current.draw 1 = (rows, e) → rows[0]?.toList = rows := by
    intro rows e hdraw
    have hlen := length_draw_le 1 s.current
    rw [hdraw] at hlen
    match rows with
    | [] | [_] => rfl
    | _ :: _ :: _ => simp at hlen
  cases h with
  | next hdraw =>
    rw [Step.demand, hdraw]
    exact ⟨rfl, sublist _ 0, fun _ => first hdraw⟩
  | @nth n rows e hdraw =>
    rw [Step.demand, hdraw]
    refine ⟨rfl, sublist rows n, fun hn => ?_⟩
    cases n with
    | zero => exact first hdraw
    | succ n => exact absurd rfl (hn n)
  | take hdraw =>
    rw [Step.demand, hdraw]
    exact ⟨rfl, List.Sublist.refl _, fun _ => rfl⟩
  | count => exact ⟨rfl, List.Sublist.refl _, fun _ => rfl⟩
  | save => exact ⟨rfl, List.Sublist.refl _, fun _ => rfl⟩
  | restore => exact absurd rfl hstep

end Step

section Run

variable {φ : Formula} {s : Session}

def Within (s : Session) (φ : Formula) : Prop := s.current.Among φ ∧ s.saved.Among φ

theorem Answers.within {step : Step} {reply : Reply} {s' : Session} (h : Answers s step reply s')
    (hs : s.Within φ) : s'.Within φ := by
  obtain ⟨hcurrent, hsaved⟩ := hs
  have among : ∀ {n rows e}, s.current.draw n = (rows, e) → e.Among φ := by
    intro n rows e hdraw
    have hn := hcurrent.draw n
    rwa [hdraw] at hn
  cases h with
  | next hdraw | nth hdraw | take hdraw => exact ⟨among hdraw, hsaved⟩
  | count => exact ⟨hcurrent, hsaved⟩
  | save => exact ⟨hcurrent, hcurrent⟩
  | restore => exact ⟨hsaved, hsaved⟩

theorem Within.run (h : s.Within φ) (steps : List Step) : (s.run steps).2.Within φ := by
  induction steps generalizing s with
  | nil => exact h
  | cons step steps ih => exact ih ((answers_step s step).within h)

/-- Steps that do not go back draw one row after the other, each of them once. -/
theorem Within.run_draws (h : s.Within φ) {steps : List Step} (hsteps : .restore ∉ steps) :
    (s.run steps).2.current = (s.current.draw (steps.map Step.demand).sum).2 ∧
      ((s.run steps).1.flatMap Reply.rowsBrought).Sublist (s.current.draw (steps.map Step.demand).sum).1 ∧
        ((∀ n, .nth (n + 1) ∉ steps) →
          (s.run steps).1.flatMap Reply.rowsBrought = (s.current.draw (steps.map Step.demand).sum).1) := by
  -- the rows of all steps are those of one draw, since draws add up
  induction steps generalizing s with
  | nil => exact ⟨rfl, List.Sublist.refl _, fun _ => rfl⟩
  | cons step steps ih =>
    rw [List.mem_cons, not_or] at hsteps
    have hanswers := answers_step s step
    obtain ⟨hplace, hsub, heq⟩ := hanswers.draws (Ne.symm hsteps.1)
    obtain ⟨hplace', hsub', heq'⟩ := ih (hanswers.within h) hsteps.2
    rw [hplace] at hplace' hsub' heq'
    rw [List.map_cons, List.sum_cons, draw_add, Session.run, List.flatMap_cons]
    refine ⟨hplace', hsub.append hsub', fun hnth => ?_⟩
    rw [heq fun n he => hnth n (he ▸ List.mem_cons_self), heq' fun n hn => hnth n (List.mem_cons_of_mem _ hn)]

end Run

/-- What a session is like at any time. Its steps are made of drawing rows one by one, from places of the same
formula. Until it goes back, it brings rows in their order and none twice, and leaves out only those that it is
told to leave out. -/
structure Walks (s : Session) (φ : Formula) : Prop where
  current : s.current.IsPlaceOf φ
  saved : s.saved.IsPlaceOf φ
  answers : ∀ step, s.Answers step (s.step step).1 (s.step step).2
  unbroken : ∀ steps, .restore ∉ steps →
    (s.run steps).2.current = (s.current.draw (steps.map Step.demand).sum).2 ∧
      ((s.run steps).1.flatMap Reply.rowsBrought).Sublist (s.current.draw (steps.map Step.demand).sum).1 ∧
        ((∀ n, .nth (n + 1) ∉ steps) →
          (s.run steps).1.flatMap Reply.rowsBrought = (s.current.draw (steps.map Step.demand).sum).1)
  exhausted : s.current.remaining = 0 → ∀ steps, .restore ∉ steps →
    (s.run steps).2.current = s.current ∧ ∀ reply ∈ (s.run steps).1, reply.rowsBrought = []

/-- A session walks through the rows of its formula at all times, for names of any text and any number of
them. -/
theorem run_walks (φ : Formula) (steps : List Step) : ((ofFormula φ).run steps).2.Walks φ := by
  have hstart : (ofFormula φ).Within φ := ⟨among_ofFormula φ, among_ofFormula φ⟩
  have hwithin := hstart.run steps
  generalize ((ofFormula φ).run steps).2 = s at hwithin ⊢
  have hcurrent := hwithin.1.isPlaceOf
  refine {
    current := hcurrent
    saved := hwithin.2.isPlaceOf
    answers := answers_step s
    unbroken := fun _ hsteps => hwithin.run_draws hsteps
    exhausted := fun hremaining steps hsteps => ?_ }
  obtain ⟨hplace, hsub, -⟩ := hwithin.run_draws hsteps
  have hdraw : s.current.draw (steps.map Step.demand).sum = ([], s.current) := by
    rw [hcurrent.draw, hremaining, Nat.min_zero]
    rfl
  rw [hdraw] at hplace hsub
  exact ⟨hplace, List.flatMap_eq_nil_iff.1 (List.sublist_nil.1 hsub)⟩

/-- Behind the last row there is nothing to come until the session goes back. -/
theorem run_walks_exhausted :
    let φ : Formula := .binary .or (.symbol "(a ∧ b)") (.binary .and (.symbol "a") (.symbol "b"))
    let s := ((ofFormula φ).run [.nth 2, .save, .take 9]).2
    s.Walks φ ∧ s.current.remaining = 0 ∧
      (∀ reply ∈ (s.run [.next, .count, .take 2]).1, reply.rowsBrought = []) ∧
        (s.run [.next, .restore, .nth 1, .count]).1 =
          [.row none, .restored, .row (some ⟨4, [true, false, false], [true]⟩), .count 3] := by
  intro φ s
  have h : s.Walks φ := run_walks φ [.nth 2, .save, .take 9]
  have hremaining : s.current.remaining = 0 := by decide
  exact ⟨h, hremaining, (h.exhausted hremaining _ (by decide)).2, by decide⟩

end Session

end TruthTables.Enumeration
