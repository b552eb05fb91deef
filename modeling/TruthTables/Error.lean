import TruthTables.Text.Quoted
import TruthTables.Token.Basic

/-! # What can be wrong with the text of a formula -/
namespace TruthTables

/-- A character that no token starts with, or that spoils the word before it. -/
structure LexicalError where
  pos : Nat
  found : Char
  deriving DecidableEq

def LexicalError.message (e : LexicalError) : String :=
  "unrecognized character " ++ Text.quotedChar e.found ++ " at position " ++ toString e.pos

/-- What the grammar calls for at some place. -/
inductive Expected
  | operand
  | closingBracket
  deriving DecidableEq

def Expected.text : Expected → String
  | operand => "an operand"
  | closingBracket => "a closing bracket"

inductive SyntaxError
  | unexpectedToken (pos : Nat) (found : Token) (expected : Expected)
  | unexpectedEnd (expected : Expected)
  | unmatchedBracket (pos : Nat)
  | trailingInput (pos : Nat) (found : Token)
  | emptyExpression
  | tooDeep (pos : Nat)
  deriving DecidableEq

namespace SyntaxError

def message : SyntaxError → String
  | unexpectedToken pos found expected =>
    "unexpected " ++ found.text ++ " at position " ++ toString pos ++ ", expected " ++ expected.text
  | unexpectedEnd expected => "unexpected end of input, expected " ++ expected.text
  | unmatchedBracket pos => "unmatched bracket at position " ++ toString pos
  | trailingInput pos found =>
    "trailing input starting with " ++ found.text ++ " at position " ++ toString pos
  | emptyExpression => "empty expression"
  | tooDeep pos => "expression nested too deeply at position " ++ toString pos

end SyntaxError

inductive ReadError
  | lexical (e : LexicalError)
  | syntactic (e : SyntaxError)
  deriving DecidableEq

namespace ReadError

/-- The message of the error itself, without a word on the stage that found it. -/
def cause : ReadError → String
  | lexical e => e.message
  | syntactic e => e.message

def message : ReadError → String
  | lexical e => "lexical error: " ++ e.message
  | syntactic e => "syntax error: " ++ e.message

end ReadError

end TruthTables
