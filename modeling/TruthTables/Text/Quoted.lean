import TruthTables.Text.Extending
import TruthTables.Text.Printable

/-! # Quoted text in messages -/
namespace TruthTables.Text

/-- A code point in hexadecimal digits between braces. -/
def codePoint (c : Char) : List Char :=
  ['\\', 'u', '\x7b'] ++ Nat.toDigits 16 c.toNat ++ ['\x7d']

/-- A character between two marks. Characters that a reader would not see as themselves are written as
escapes. -/
def escape (mark c : Char) : List Char :=
  if c = '\x00' then ['\\', '0']
  else if c = '\t' then ['\\', 't']
  else if c = '\r' then ['\\', 'r']
  else if c = '\n' then ['\\', 'n']
  else if c = '\\' || c = mark then ['\\', c]
  else if isExtending c || !isPrintable c then codePoint c
  else [c]

def quotedWith (mark : Char) (cs : List Char) : String :=
  String.ofList (mark :: cs.flatMap (escape mark) ++ [mark])

def quoted (s : String) : String := quotedWith '\x22' s.toList

def quotedChar (c : Char) : String := quotedWith '\x27' [c]

end TruthTables.Text
