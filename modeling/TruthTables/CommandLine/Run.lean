import TruthTables.CommandLine.Disk
import TruthTables.CommandLine.Options
import TruthTables.Graph.Dot
import TruthTables.Log.Entries

/-! # Runs of the program -/
namespace TruthTables.CommandLine

def report (what : String) : (causes : List String) → String
  | [] => "Error: " ++ what ++ "\n"
  | [cause] => "Error: " ++ what ++ "\n\nCaused by:\n    " ++ cause ++ "\n"
  | causes =>
    "Error: " ++ what ++ "\n\nCaused by:\n" ++ String.join (causes.zipIdx.map fun (cause, n) =>
      "    " ++ toString n ++ ": " ++ cause ++ "\n")

/-- A log entry as it is shown. Only entries on details say where they come from. -/
def logLine (clock : String) (e : Log.Entry) : String :=
  let place := if e.level.rank < Log.Level.debug.rank then "" else "(1) " ++ e.target.path ++ ": "
  clock ++ " [" ++ e.level.name ++ "] " ++ place ++ e.message ++ "\n"

/-- Text for a file or for the standard output. It leaves a buffer either while it is made, and then a device
without space ends the making, or at the end of the run. -/
structure Delivery where
  text : String
  whileMade : Bool
  deriving DecidableEq

def bufferSize : Nat := 8192

/-- What is done once the output has been opened. A broken job ends the program in the middle of its text. -/
inductive Job
  | refuse (message : String)
  | deliver (log : List Log.Entry) (d : Delivery)
  | broken (log : List Log.Entry) (d : Delivery) (message : String)

/-- What the arguments come to: an end before any output has been opened, or some work on an output, which is a
file if there is a path. -/
inductive Plan
  | finish (log : List Log.Entry) (code : Nat) (stdout stderr : String)
  | work (log : List Log.Entry) (path : Option String) (job : Job)

def versionText : String := "rstruth 0.3.1\n"

def noExpression : String := "No expression\nUsage: rstruth \x22logical expression\x22 > output.txt\n"

def helpText : String :=
  "Prints the truth table of a propositional logic expression\n\n" ++
  "Usage: rstruth [OPTIONS] [EXPRESSION]\n\n" ++
  "  -f, --format <FORMAT>    text, html, latex or csv\n" ++
  "  -o, --output <OUTPUT>    the output file\n" ++
  "      --dot                print the parse tree for GraphViz instead of a table\n" ++
  "      --max-vars <N>       refuse expressions with more than N variables\n" ++
  "      --separator <LABEL>  the header of the column after the variables\n" ++
  "  -v, --verbose            log more\n" ++
  "  -q, --quiet              log nothing\n" ++
  "  -h, --help               print this text\n" ++
  "  -V, --version            print the version\n"

def graphJob (φ : Formula) : Job := .deliver [] ⟨(Graph.ofFormula φ).toDot, false⟩

/-- How many variables are allowed. Row numbers set a limit of their own. -/
def variableLimit (o : Options) : Nat := min (o.maxVars.getD Options.defaultMaxVars) Variables.maxCount

def tableEntry (t : Table) : Log.Entry :=
  ⟨.info, .program, "truth table for " ++ t.title ++ ": " ++ toString t.columns.length ++
    " column(s), " ++ toString t.rows.length ++ " row(s)"⟩

/-- A table in the format that is asked for. Comma separated values are flushed as soon as they are made. From 59
variables on, the storage of the rows, which is left out here, ends the program before there is a table. -/
def tableJob (o : Options) (φ : Formula) : Job :=
  let separator := o.separator.getD Options.defaultSeparator
  let format := o.format.getD .text
  let t := Table.ofFormula φ separator
  let log := Log.ofBuild o.level φ separator none ++ Log.upTo o.level [tableEntry t]
  match t.render format with
  | .error .tooWide =>
    .broken log ⟨t.textHeading, bufferSize < t.textHeading.utf8ByteSize⟩
      (RenderError.tooWide.message ++ "\n")
  | .error e => .refuse (report "cannot write truth table" [e.message])
  | .ok text => .deliver log ⟨text, format = .csv || bufferSize < text.utf8ByteSize⟩

def job (o : Options) (φ : Formula) : Job :=
  if o.dot then graphJob φ
  else if variableLimit o < φ.symbols.length then
    .refuse (report ("expression has " ++ toString φ.symbols.length ++
      " distinct variables, the limit is " ++ toString (variableLimit o) ++ " (see --max-vars)") [])
  else tableJob o φ

def plan (args : List String) : Plan :=
  match Options.ofArgs args with
  | .error (.refused r) => .finish [] 2 "" ("error: " ++ r.message ++ "\n")
  | .error .help => .finish [] 0 helpText ""
  | .error .version => .finish [] 0 versionText ""
  | .ok o =>
    match o.expression with
    | none => .finish [] 0 noExpression ""
    | some src =>
      match Formula.ofString src with
      | .error e =>
        .finish (Log.ofReading o.level src) 1 ""
          (report ("cannot parse expression " ++ Text.quoted src) [e.message, e.cause])
      | .ok φ => .work (Log.ofReading o.level src) o.output (job o φ)

structure Result where
  code : Nat
  stdout : String
  stderr : String
  disk : Disk

def noSpace : String := "No space left on device (os error 28)"

def Delivery.failure (d : Delivery) : String :=
  if d.whileMade then report "cannot write truth table" [noSpace] else report noSpace []

def brokenCode : Nat := 101

def deliverTo (disk : Disk) (path stdout text : String) : Result :=
  match disk path with
  | .regular _ => ⟨0, stdout, "", disk.put path (.regular text)⟩
  | .standardOutput => ⟨0, stdout ++ text, "", disk⟩
  | .standardError => ⟨0, stdout, text, disk⟩
  | _ => ⟨0, stdout, "", disk⟩

/-- The work on a file that has been opened. A device without space fails a broken job only if its text leaves
the buffer before the end. -/
def Job.runOn (clock : String) (disk : Disk) (path : String) : Job → Result
  | .refuse message => ⟨1, "", message, disk⟩
  | .deliver log d =>
    let stdout := String.join (log.map (logLine clock))
    if disk path = .full then ⟨1, stdout, d.failure, disk⟩ else deliverTo disk path stdout d.text
  | .broken log d message =>
    let stdout := String.join (log.map (logLine clock))
    if disk path = .full && d.whileMade then ⟨1, stdout, d.failure, disk⟩
    else
      let r := deliverTo disk path stdout d.text
      { r with code := brokenCode, stderr := r.stderr ++ message }

def Job.print (clock : String) (disk : Disk) : Job → Result
  | .refuse message => ⟨1, "", message, disk⟩
  | .deliver log d => ⟨0, String.join (log.map (logLine clock)) ++ d.text, "", disk⟩
  | .broken log d message =>
    ⟨brokenCode, String.join (log.map (logLine clock)) ++ d.text, message, disk⟩

def Plan.run (clock : String) (disk : Disk) : Plan → Result
  | .finish log code stdout stderr => ⟨code, String.join (log.map (logLine clock)) ++ stdout, stderr, disk⟩
  | .work log none job =>
    let r := job.print clock disk
    { r with stdout := String.join (log.map (logLine clock)) ++ r.stdout }
  | .work log (some path) job =>
    let stdout := String.join (log.map (logLine clock))
    match (disk path).opened with
    | .unavailable reason => ⟨1, stdout, report ("cannot create " ++ path) [reason], disk⟩
    | f =>
      let r := job.runOn clock (disk.put path f) path
      { r with stdout := stdout ++ r.stdout }

/-- A whole run. The disk says what every path leads to, before the run and after it. -/
def run (args : List String) (clock : String) (disk : Disk) : Result := (plan args).run clock disk

end TruthTables.CommandLine
