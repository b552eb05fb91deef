import TruthTables.Enumeration.Basic

/-! # Walks through the rows with a place to go back to -/
namespace TruthTables.Enumeration

/-- The present place and the one that was saved last. -/
structure Session where
  current : Enumeration
  saved : Enumeration
  deriving DecidableEq

inductive Step
  | next
  | nth (n : Nat)
  | take (n : Nat)
  | count
  | save
  | restore
  deriving DecidableEq

inductive Reply
  | row (r : Option RowValues)
  | rows (rs : List RowValues)
  | count (n : Nat)
  | saved
  | restored
  deriving DecidableEq

namespace Session

def ofFormula (φ : Formula) : Session := ⟨.ofFormula φ, .ofFormula φ⟩

/-- The row after `n` others, and what comes after it. -/
def nth (s : Session) (n : Nat) : Reply × Session :=
  match (s.current.skip n).next? with
  | none => (.row none, { s with current := s.current.skip n })
  | some (r, e) => (.row (some r), { s with current := e })

def step (s : Session) : Step → Reply × Session
  | .next => s.nth 0
  | .nth n => s.nth n
  | .take n => (.rows (s.current.take n), { s with current := s.current.skip n })
  | .count => (.count s.current.remaining, s)
  | .save => (.saved, { s with saved := s.current })
  | .restore => (.restored, { s with current := s.saved })

def run (s : Session) : List Step → List Reply × Session
  | [] => ([], s)
  | step :: steps =>
    let (reply, s) := s.step step
    let (replies, s) := s.run steps
    (reply :: replies, s)

end Session

end TruthTables.Enumeration
