/-! # Text in fields of a given width -/
namespace TruthTables.Text

inductive Alignment
  | left | right | center
  deriving DecidableEq

/-- The blanks before a text that leaves `n` characters of its field free. -/
def Alignment.before (n : Nat) : Alignment → Nat
  | .left => 0
  | .right => n
  | .center => n / 2

def spaces (n : Nat) : String := String.ofList (List.replicate n ' ')

def justify (alignment : Alignment) (width : Nat) (s : String) : String :=
  spaces (alignment.before (width - s.length)) ++ s ++
    spaces (width - s.length - alignment.before (width - s.length))

theorem before_le (alignment : Alignment) (n : Nat) : alignment.before n ≤ n := by
  cases alignment <;> simp [Alignment.before, Nat.div_le_self]

theorem length_justify (alignment : Alignment) (width : Nat) (s : String) :
    (justify alignment width s).length = max width s.length := by
  have h := before_le alignment (width - s.length)
  simp only [justify, spaces, String.length_append, String.length_ofList, List.length_replicate]
  omega

def truncate (n : Nat) (s : String) : String := String.ofList (s.toList.take n)

/-- The largest number that the width or the precision of a field can be. -/
def maxWidth : Nat := UInt16.size - 1

/-- A text in a field, cut to `precision` characters if there is one. There are no fields beyond the largest
width. -/
def field? (alignment : Alignment) (width : Nat) (precision : Option Nat) (s : String) : Option String :=
  if maxWidth < width || precision.any (maxWidth < ·) then none
  else some (justify alignment width (precision.elim s (truncate · s)))

end TruthTables.Text
