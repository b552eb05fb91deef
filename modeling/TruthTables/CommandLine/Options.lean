import TruthTables.Log.Basic
import TruthTables.Table.Format

/-! # The options of the command line -/
namespace TruthTables.CommandLine

/-- An option that takes a value. -/
inductive Setting
  | format | output | maxVars | separator
  deriving DecidableEq

inductive Flag
  | dot | verbose | quiet | help | version
  deriving DecidableEq

def longSetting? : List Char → Option Setting
  | ['f', 'o', 'r', 'm', 'a', 't'] => some .format
  | ['o', 'u', 't', 'p', 'u', 't'] => some .output
  | ['m', 'a', 'x', '-', 'v', 'a', 'r', 's'] => some .maxVars
  | ['s', 'e', 'p', 'a', 'r', 'a', 't', 'o', 'r'] => some .separator
  | _ => none

def longFlag? : List Char → Option Flag
  | ['d', 'o', 't'] => some .dot
  | ['v', 'e', 'r', 'b', 'o', 's', 'e'] => some .verbose
  | ['q', 'u', 'i', 'e', 't'] => some .quiet
  | ['h', 'e', 'l', 'p'] => some .help
  | ['v', 'e', 'r', 's', 'i', 'o', 'n'] => some .version
  | _ => none

def shortSetting? : Char → Option Setting
  | 'f' => some .format
  | 'o' => some .output
  | _ => none

def shortFlag? : Char → Option Flag
  | 'v' => some .verbose
  | 'q' => some .quiet
  | 'h' => some .help
  | 'V' => some .version
  | _ => none

/-- What the arguments ask for. An option that is left out has no value here. -/
structure Options where
  expression : Option String := none
  format : Option Format := none
  output : Option String := none
  maxVars : Option Nat := none
  separator : Option String := none
  dot : Bool := false
  quiet : Bool := false
  verbosity : Nat := 0
  deriving DecidableEq

inductive Refusal
  | unknownOption (name : String)
  | repeatedOption
  | missingValue
  | unexpectedValue
  | invalidValue (value : String)
  | unexpectedArgument (arg : String)
  deriving DecidableEq

namespace Refusal

def message : Refusal → String
  | unknownOption name => "unexpected option " ++ name
  | repeatedOption => "an option is given twice"
  | missingValue => "an option lacks its value"
  | unexpectedValue => "an option takes no value"
  | invalidValue value => "invalid value " ++ value
  | unexpectedArgument arg => "unexpected argument " ++ arg

end Refusal

/-- Why the arguments are not read to their end. -/
inductive Stop
  | refused (r : Refusal)
  | help
  | version
  deriving DecidableEq

def maxWord : Nat := UInt64.size - 1

def digits? : List Char → Option Nat
  | [] => none
  | cs => if cs.all Char.isDigit then some (cs.foldl (fun n c => 10 * n + (c.toNat - '0'.toNat)) 0) else none

def count? (s : String) : Option Nat :=
  let n := match s.toList with
    | '+' :: cs => digits? cs
    | cs => digits? cs
  n.filter (· ≤ maxWord)

namespace Options

def fill {α : Type} (field : Option α) (a : α) (put : Option α → Options) : Except Stop Options :=
  match field with
  | none => .ok (put (some a))
  | some _ => .error (.refused .repeatedOption)

def set (o : Options) (value : String) : Setting → Except Stop Options
  | .format =>
    match Format.ofName? value with
    | none => .error (.refused (.invalidValue value))
    | some f => fill o.format f fun f => { o with format := f }
  | .output =>
    if value = "" then .error (.refused .missingValue)
    else fill o.output value fun path => { o with output := path }
  | .maxVars =>
    match count? value with
    | none => .error (.refused (.invalidValue value))
    | some n => fill o.maxVars n fun n => { o with maxVars := n }
  | .separator => fill o.separator value fun label => { o with separator := label }

def raise (o : Options) : Flag → Except Stop Options
  | .dot => if o.dot then .error (.refused .repeatedOption) else .ok { o with dot := true }
  | .quiet => if o.quiet then .error (.refused .repeatedOption) else .ok { o with quiet := true }
  | .verbose => .ok { o with verbosity := o.verbosity + 1 }
  | .help => .error .help
  | .version => .error .version

def operand (o : Options) (arg : String) : Except Stop Options :=
  match o.expression with
  | none => .ok { o with expression := some arg }
  | some _ => .error (.refused (.unexpectedArgument arg))

/-- One-letter options in one argument. All that follows a setting is its value, after an equals sign or
without; if nothing does, the setting waits for the next argument. -/
def cluster (o : Options) : List Char → Except Stop (Options × Option Setting)
  | [] => .ok (o, none)
  | c :: cs =>
    match shortFlag? c with
    | some flag =>
      match o.raise flag with
      | .error stop => .error stop
      | .ok o => o.cluster cs
    | none =>
      match shortSetting? c, cs with
      | none, _ => .error (.refused (.unknownOption (String.ofList ['-', c])))
      | some setting, [] => .ok (o, some setting)
      | some setting, '=' :: value => (·, none) <$> o.set (String.ofList value) setting
      | some setting, value => (·, none) <$> o.set (String.ofList value) setting

/-- An option with a long name, which an equals sign parts from its value. -/
def long (o : Options) (cs : List Char) : Except Stop (Options × Option Setting) :=
  let name := cs.takeWhile (· ≠ '=')
  let value := (cs.drop name.length).tail?.map String.ofList
  match longFlag? name, longSetting? name, value with
  | some flag, _, none => (·, none) <$> o.raise flag
  | some _, _, some _ => .error (.refused .unexpectedValue)
  | none, some setting, none => .ok (o, some setting)
  | none, some setting, some value => (·, none) <$> o.set value setting
  | none, none, _ => .error (.refused (.unknownOption (String.ofList ('-' :: '-' :: name))))

/-- Reads arguments. A setting that waits for its value takes the next argument unless that is an option. -/
def read (o : Options) (waiting : Option Setting) : List String → Except Stop Options
  | [] => if waiting.isSome then .error (.refused .missingValue) else .ok o
  | arg :: args =>
    match arg.toList, waiting with
    | '-' :: _ :: _, some _ => .error (.refused .missingValue)
    | _, some setting =>
      match o.set arg setting with
      | .error stop => .error stop
      | .ok o => o.read none args
    | ['-', '-'], none => args.foldlM operand o
    | '-' :: '-' :: name, none =>
      match o.long name with
      | .error stop => .error stop
      | .ok (o, waiting) => o.read waiting args
    | '-' :: c :: cs, none =>
      match o.cluster (c :: cs) with
      | .error stop => .error stop
      | .ok (o, waiting) => o.read waiting args
    | _, none =>
      match o.operand arg with
      | .error stop => .error stop
      | .ok o => o.read none args

def ofArgs (args : List String) : Except Stop Options := read {} none args

def defaultMaxVars : Nat := 16

def defaultSeparator : String := " "

def level (o : Options) : Log.Level :=
  if o.quiet then .off
  else match o.verbosity with
    | 0 => .warn
    | 1 => .info
    | 2 => .debug
    | _ => .trace

end Options

end TruthTables.CommandLine
