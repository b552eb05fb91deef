import TruthTables.Formula.Basic

/-! # Tokens and their spellings -/
namespace TruthTables

inductive Token
  | symbol (name : String)
  | connective (c : Connective)
  | not
  | opening
  | closing
  | eof
  deriving DecidableEq

namespace Token

/-- The name of a token in messages. -/
def text : Token → String
  | symbol name => "symbol '" ++ name ++ "'"
  | connective .and => "AND"
  | connective .or => "OR"
  | connective .xor => "XOR"
  | connective .implies => "IMPL"
  | connective .iff => "IFF"
  | connective .join => "','"
  | not => "NOT"
  | opening => "opening bracket"
  | closing => "closing bracket"
  | eof => "end of input"

/-- The tokens that are written with signs. A sign stands before every sign that it starts with. -/
def signs : List (List Char × Token) :=
  [(['&'], connective .and), (['∧'], connective .and), (['^'], connective .and),
   (['+'], connective .or), (['∨'], connective .or),
   (['#'], connective .xor), (['⊕'], connective .xor),
   (['-', '>'], connective .implies), (['→'], connective .implies),
   (['<', '-', '>'], connective .iff), (['='], connective .iff), (['≡'], connective .iff),
   (['↔'], connective .iff),
   (['-'], not), (['~'], not), (['¬'], not),
   ([','], connective .join),
   (['('], opening), (['['], opening), (['\x7b'], opening),
   ([')'], closing), ([']'], closing), (['\x7d'], closing)]

/-- The words that are no symbols. -/
def keywords : List (List Char × Token) :=
  [(['a', 'n', 'd'], connective .and), (['v'], connective .or), (['o', 'r'], connective .or),
   (['x', 'o', 'r'], connective .xor), (['i', 'm', 'p', 'l'], connective .implies),
   (['i', 'f', 'f'], connective .iff), (['n', 'o', 't'], not)]

def ofWord (word : List Char) : Token :=
  (keywords.lookup word).getD (symbol (String.ofList word))

end Token

/-- A token and the byte offset at which it starts. -/
structure Lexeme where
  token : Token
  pos : Nat
  deriving DecidableEq

end TruthTables
