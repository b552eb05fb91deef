import TruthTables.Error
import TruthTables.Text.Blank
import TruthTables.Text.Word

/-! # From text to tokens -/
namespace TruthTables

/-- The number of bytes of a text. -/
def byteSize (cs : List Char) : Nat := cs.foldr (fun c n => c.utf8Size + n) 0

namespace Token

/-- The token that a text starts with, and the characters that it is written with. A word counts only if
no character follows that would continue it. -/
def first? (cs : List Char) : Option (Token × List Char) :=
  match cs.takeWhile Char.isAlpha with
  | [] => (signs.find? fun s => s.1.isPrefixOf cs).map fun s => (s.2, s.1)
  | c :: word =>
    if (cs.dropWhile Char.isAlpha).head?.any Text.isWord then none
    else some (ofWord (c :: word), c :: word)

end Token

namespace Lexeme

/-- What is wrong where no token starts: the character after the letters, of which there may be none. -/
def errorAt (pos : Nat) (c : Char) (cs : List Char) : LexicalError :=
  ⟨pos + byteSize ((c :: cs).takeWhile Char.isAlpha), ((c :: cs).dropWhile Char.isAlpha).headD c⟩

/-- The tokens of a text whose first character has the offset `pos`, after the first `skip` characters,
which belong to a token that has been taken already. -/
def scan (pos : Nat) : (skip : Nat) → List Char → Except LexicalError (List Lexeme)
  | _, [] => .ok [⟨.eof, pos⟩]
  | skip + 1, c :: cs => scan (pos + c.utf8Size) skip cs
  | 0, c :: cs =>
    if Text.isBlank c then scan (pos + c.utf8Size) 0 cs
    else match Token.first? (c :: cs) with
      | none => .error (errorAt pos c cs)
      | some (t, word) =>
        match scan (pos + c.utf8Size) (word.length - 1) cs with
        | .error e => .error e
        | .ok ls => .ok (⟨t, pos⟩ :: ls)

/-- The tokens of a text, with the end of the input as the last. -/
def ofString (s : String) : Except LexicalError (List Lexeme) := scan 0 0 s.toList

end Lexeme

theorem byteSize_append (cs ds : List Char) : byteSize (cs ++ ds) = byteSize cs + byteSize ds := by
  induction cs with
  | nil => simp [byteSize]
  | cons c cs ih => simpa [byteSize, Nat.add_assoc] using ih

theorem Lexeme.scan_skip (pos skip : Nat) (cs : List Char) :
    scan pos skip cs = scan (pos + byteSize (cs.take skip)) 0 (cs.drop skip) := by
  induction cs generalizing pos skip with
  | nil => cases skip <;> simp [scan, byteSize]
  | cons c cs ih =>
    cases skip with
    | zero => simp [byteSize]
    | succ skip =>
      rw [scan, ih]
      simp [byteSize, Nat.add_assoc]

end TruthTables
