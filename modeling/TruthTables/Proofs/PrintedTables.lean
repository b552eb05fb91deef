import TruthTables.CommandLine.Run
import TruthTables.Proofs.CsvReading
import TruthTables.Proofs.VariableNames

/-! # Tables that are printed -/
namespace TruthTables

namespace Table

/-- Aligned text has no field for a label that is longer than the widest field. Other formats take any label. -/
def Fits (t : Table) (format : Format) : Prop := format = .text → ∀ c ∈ t.columns, c.label.length ≤ 65535

instance (t : Table) (format : Format) : Decidable (t.Fits format) :=
  inferInstanceAs (Decidable (format = .text → ∀ c ∈ t.columns, c.label.length ≤ 65535))

theorem hasFields_iff (t : Table) : t.hasFields = true ↔ t.Fits .text := by
  have hwidth : ∀ c : Column, width c ≤ Text.maxWidth ↔ c.label.length ≤ 65535 := fun c => by
    have hmax : Text.maxWidth = 65535 := rfl
    rw [width, hmax]
    omega
  simp only [hasFields, List.all_eq_true, decide_eq_true_eq, hwidth, Fits, forall_const]

/-- A table has its fields if every text can be put into one that is as wide as its column. -/
theorem hasFields_iff_field? (t : Table) : t.hasFields = true ↔ ∀ c ∈ t.columns, ∀ s,
    Text.field? .center (width c) none s = some (Text.justify .center (width c) s) := by
  simp [hasFields, Text.field?]

theorem render_of_fits {φ : Formula} {separator : String} {format : Format}
    (h : (ofFormula φ separator).Fits format) : ∃ text, (ofFormula φ separator).render format = .ok text := by
  cases format with
  | text => exact ⟨_, by rw [render, if_pos ((hasFields_iff _).2 h)]⟩
  | html => exact ⟨_, rfl⟩
  | latex => exact ⟨_, rfl⟩
  | csv =>
    have hcsv := toCsv_eq_ok_iff.2 ⟨(valueColumns_ofFormula φ separator).2, rfl⟩
    exact ⟨_, by rw [render, hcsv]⟩

theorem render_of_not_fits {t : Table} {format : Format} (h : ¬t.Fits format) :
    t.render format = .error .tooWide := by
  obtain rfl : format = .text := Decidable.byContradiction fun hne => h fun he => absurd he hne
  rw [render, if_neg (mt (hasFields_iff t).1 h)]

end Table

namespace Log

theorem mem_of_mem_upTo {level : Level} {entries : List Entry} {e : Entry} (h : e ∈ upTo level entries) :
    e ∈ entries := (List.mem_filter.1 h).1

theorem level_ofEvaluation {ev : Evaluation} {e : Entry} (h : e ∈ ofEvaluation ev) : e.level = .trace := by
  obtain ⟨x, -, rfl⟩ := List.mem_map.1 h
  rfl

theorem level_ofReading {level : Level} {src : String} {e : Entry} (h : e ∈ ofReading level src) :
    e.level = .trace := by
  unfold ofReading at h
  split at h
  · exact absurd h List.not_mem_nil
  · rw [List.mem_singleton.1 (mem_of_mem_upTo h)]

theorem level_ofVariables {vs : Variables} (h : vs.size ≤ Variables.maxCount) {e : Entry}
    (he : e ∈ ofVariables vs) : e.level = .debug := by
  rw [ofVariables, if_pos h, List.mem_singleton] at he
  rw [he]

theorem level_ofRow {en : Enumeration} {index : Nat} {e : Entry} (h : e ∈ ofRow en index) : e.level = .trace := by
  rcases List.mem_append.1 h with h | h
  · exact level_ofEvaluation h
  · rw [List.mem_singleton.1 h]

theorem level_ofBuild {level : Level} {φ : Formula} {separator : String} {stop : Option Nat}
    (hsize : (Enumeration.ofFormula φ).vars.size ≤ Variables.maxCount) {e : Entry}
    (h : e ∈ ofBuild level φ separator stop) : e.level = .trace ∨ e.level = .debug := by
  rcases List.mem_append.1 (mem_of_mem_upTo h) with h | h
  · rcases List.mem_append.1 h with h | h
    · rcases List.mem_append.1 h with h | h
      · rcases List.mem_append.1 h with h | h
        · exact .inl (level_ofEvaluation h)
        · exact .inr (level_ofVariables hsize h)
      · exact .inr (by rw [List.mem_singleton.1 h])
    · split at h
      · obtain ⟨i, -, hrow⟩ := List.mem_flatMap.1 h
        exact .inl (level_ofRow hrow)
      · exact absurd h List.not_mem_nil
  · exact .inr (by rw [List.mem_singleton.1 h])

end Log

namespace CommandLine

def Job.log : Job → List Log.Entry
  | .refuse _ => []
  | .deliver log _ | .broken log _ _ => log

def Plan.log : Plan → List Log.Entry
  | .finish log .. => log
  | .work log _ job => log ++ job.log

/-- An output is writable if it is the standard output, or a path that can be opened and leads to some place with
space. -/
def Writable (disk : Disk) : (output : Option String) → Prop
  | none => True
  | some path => disk path ≠ .full ∧ ∀ reason, disk path ≠ .unavailable reason

/-- The output has this text after a run, behind the log where that goes to the same place. -/
def Result.Shows (r : Result) (disk : Disk) (log text : String) : (output : Option String) → Prop
  | none => r.stdout = log ++ text
  | some path =>
    match disk path with
    | .absent | .regular _ => r.disk path = .regular text
    | .sink => True
    | .standardOutput => r.stdout = log ++ text
    | .standardError => r.stderr = text
    | .full | .unavailable _ => False

/-- A run that ends well with a text in its output. -/
def Prints (args : List String) (clock : String) (disk : Disk) (output : Option String) (text : String) : Prop :=
  (run args clock disk).code = 0 ∧
    (run args clock disk).Shows disk (String.join ((plan args).log.map (logLine clock))) text output

section Plan

variable {args : List String} {clock : String} {disk : Disk} {log log' : List Log.Entry} {output : Option String}
  {d : Delivery} {message : String}

theorem prints_of_deliver (hp : plan args = .work log output (.deliver log' d)) (hw : Writable disk output) :
    Prints args clock disk output d.text := by
  rw [Prints, run, hp]
  cases output with
  | none =>
    refine ⟨rfl, ?_⟩
    simp [Result.Shows, Plan.run, Job.print, Plan.log, Job.log, String.append_assoc]
  | some path =>
    -- what the path leads to decides how it is opened and where the text goes
    cases hf : disk path <;>
      simp_all [Writable, Plan.run, Plan.log, Job.log, File.opened, Job.runOn, deliverTo, Disk.put, Result.Shows,
        String.append_assoc]

theorem code_of_refuse (hp : plan args = .work log output (.refuse message)) :
    (run args clock disk).code = 1 := by
  rw [run, hp]
  cases output with
  | none => rfl
  | some path => cases hf : disk path <;> simp [Plan.run, hf, File.opened, Job.runOn]

theorem code_of_broken (hp : plan args = .work log output (.broken log' d message))
    (hw : Writable disk output) : (run args clock disk).code = 101 := by
  rw [run, hp]
  cases output with
  | none => rfl
  | some path =>
    cases hf : disk path <;> simp_all [Writable, Plan.run, File.opened, Job.runOn, Disk.put, brokenCode]

end Plan

section Job

variable {o : Options} {φ : Formula}

theorem job_refuses (hdot : o.dot = false) (h : variableLimit o < φ.symbols.length) :
    ∃ message, job o φ = .refuse message :=
  ⟨_, by rw [job, hdot, if_neg Bool.false_ne_true, if_pos h]⟩

theorem job_eq_tableJob (hdot : o.dot = false) (h : φ.symbols.length ≤ variableLimit o) :
    job o φ = tableJob o φ := by
  rw [job, hdot, if_neg Bool.false_ne_true, if_neg (Nat.not_lt.2 h)]

def Options.table (o : Options) (φ : Formula) : Table := .ofFormula φ (o.separator.getD defaultSeparator)

def tableLog (o : Options) (φ : Formula) : List Log.Entry :=
  Log.ofBuild o.level φ (o.separator.getD Options.defaultSeparator) none ++
    Log.upTo o.level [tableEntry (o.table φ)]

/-- A table is delivered whole, or its text breaks off at a label that is too long. -/
theorem tableJob_cases (o : Options) (φ : Formula) :
    ((o.table φ).Fits (o.format.getD .text) ∧ ∃ d, tableJob o φ = .deliver (tableLog o φ) d ∧
      (o.table φ).render (o.format.getD .text) = .ok d.text) ∨
    (¬(o.table φ).Fits (o.format.getD .text) ∧ ∃ d message, tableJob o φ = .broken (tableLog o φ) d message) := by
  by_cases h : (o.table φ).Fits (o.format.getD .text)
  · obtain ⟨text, htext⟩ := Table.render_of_fits h
    let d : Delivery := ⟨text, o.format.getD .text = .csv || bufferSize < text.utf8ByteSize⟩
    refine .inl ⟨h, d, ?_, htext⟩
    simp only [tableJob, htext]
    rfl
  · have herror := Table.render_of_not_fits h
    let d : Delivery := ⟨(o.table φ).textHeading, bufferSize < (o.table φ).textHeading.utf8ByteSize⟩
    refine .inr ⟨h, d, RenderError.tooWide.message ++ "\n", ?_⟩
    rw [Options.table] at herror
    simp only [tableJob, herror]
    rfl

theorem level_tableLog (hsize : (Enumeration.ofFormula φ).vars.size ≤ Variables.maxCount) {e : Log.Entry}
    (h : e ∈ tableLog o φ) : e.level ≠ .warn := by
  rcases List.mem_append.1 h with h | h
  · rcases Log.level_ofBuild hsize h with h | h <;> simp [h]
  · rw [List.mem_singleton.1 (Log.mem_of_mem_upTo h)]
    exact nofun

theorem level_log_job (hnames : (Enumeration.ofFormula φ).vars.names = φ.symbols) {e : Log.Entry}
    (h : e ∈ (job o φ).log) : e.level ≠ .warn := by
  unfold job at h
  split at h
  · exact absurd h List.not_mem_nil
  · split at h
    · exact absurd h List.not_mem_nil
    · -- a log is left only by a table within the limit
      rename_i hlimit
      have hle : φ.symbols.length ≤ Variables.maxCount := Nat.le_trans (Nat.not_lt.1 hlimit) (Nat.min_le_right ..)
      have hsize := Nat.le_trans (Nat.le_of_eq (congrArg List.length hnames)) hle
      have hmem : e ∈ tableLog o φ := by
        rcases tableJob_cases o φ with ⟨-, d, hjob, -⟩ | ⟨-, d, message, hjob⟩
        · rw [hjob] at h
          exact h
        · rw [hjob] at h
          exact h
      exact level_tableLog hsize hmem

end Job

section Run

variable {args : List String} {o : Options} {s : String} {φ : Formula}

theorem plan_eq (ho : Options.ofArgs args = .ok o) (hs : o.expression = some s)
    (hφ : Formula.ofString s = .ok φ) : plan args = .work (Log.ofReading o.level s) o.output (job o φ) := by
  simp only [plan, ho, hs, hφ]

/-- There is no warning of an incomplete table, since more names than row numbers can serve are refused. -/
theorem level_log_plan (ho : Options.ofArgs args = .ok o) (hs : o.expression = some s)
    (hφ : Formula.ofString s = .ok φ) {e : Log.Entry} (h : e ∈ (plan args).log) : e.level ≠ .warn := by
  rw [plan_eq ho hs hφ] at h
  rcases List.mem_append.1 h with h | h
  · simp [Log.level_ofReading h]
  · have hnames : (Enumeration.ofFormula φ).vars.names = φ.symbols := by
      rw [Enumeration.ofFormula_eq (Formula.proper_of_ofString hφ).1.plain]
    exact level_log_job hnames h

theorem prints_iff (ho : Options.ofArgs args = .ok o) (hs : o.expression = some s)
    (hφ : Formula.ofString s = .ok φ) (hdot : o.dot = false) (clock : String) {disk : Disk}
    (hw : Writable disk o.output) :
    (∃ text, (o.table φ).render (o.format.getD .text) = .ok text ∧ Prints args clock disk o.output text) ↔
      φ.symbols.length ≤ variableLimit o ∧ (o.table φ).Fits (o.format.getD .text) := by
  have hplan := plan_eq ho hs hφ
  constructor
  · rintro ⟨text, hrender, hprints⟩
    constructor
    · refine Nat.not_lt.1 fun hlimit => ?_
      obtain ⟨message, hjob⟩ := job_refuses hdot hlimit
      rw [hjob] at hplan
      exact absurd (hprints.1.symm.trans (code_of_refuse hplan)) (by decide)
    · refine Decidable.byContradiction fun hfits => ?_
      rw [Table.render_of_not_fits hfits] at hrender
      exact nomatch hrender
  · rintro ⟨hlimit, hfits⟩
    rw [job_eq_tableJob hdot hlimit] at hplan
    rcases tableJob_cases o φ with ⟨-, d, hjob, hrender⟩ | ⟨hnot, -⟩
    · exact ⟨d.text, hrender, prints_of_deliver (hjob ▸ hplan) hw⟩
    · exact absurd hfits hnot

theorem code_of_not_fits (ho : Options.ofArgs args = .ok o) (hs : o.expression = some s)
    (hφ : Formula.ofString s = .ok φ) (hdot : o.dot = false) (clock : String) {disk : Disk}
    (hw : Writable disk o.output) (hlimit : φ.symbols.length ≤ variableLimit o)
    (hfits : ¬(o.table φ).Fits (o.format.getD .text)) : (run args clock disk).code = 101 := by
  have hplan := plan_eq ho hs hφ
  rw [job_eq_tableJob hdot hlimit] at hplan
  rcases tableJob_cases o φ with ⟨hdoes, -⟩ | ⟨-, d, message, hjob⟩
  · exact absurd hdoes hfits
  · exact code_of_broken (hjob ▸ hplan) hw

theorem length_rows_table {n : Nat} (hn : (Enumeration.ofFormula φ).vars.names.length = n) (hle : n ≤ 127) :
    (o.table φ).rows.length = 2 ^ n ∧ 2 ^ n < 2 ^ 128 - 1 := by
  have hsize : (Enumeration.ofFormula φ).vars.size ≤ Variables.maxCount := Nat.le_trans (Nat.le_of_eq hn) hle
  constructor
  · rw [Options.table, Table.rows_ofFormula, List.length_map, List.length_range, Enumeration.rowCount,
      Variables.rowCount_of_le hsize]
    exact congrArg (2 ^ ·) hn
  · exact Nat.lt_of_le_of_lt (Nat.pow_le_pow_right (by decide) hle) (by decide)

end Run

/-- The names are the same wherever they are taken from, and how many there are decides whether a table is
printed, unless it is printed as text with a label that no field can hold. A table has a row for every choice of
values, so that none is said to be incomplete. -/
theorem names_decide_printing {s : String} {ls : List Lexeme} {φ : Formula} (hls : Lexeme.ofString s = .ok ls)
    (hφ : Formula.ofString s = .ok φ) :
    let names := Token.names (ls.map (·.token))
    (φ.symbols = names ∧ (Enumeration.ofFormula φ).vars.names = names ∧
      ∀ ν, (Evaluation.run φ ν).primitives.map (·.label) = names) ∧
    ∀ args o clock disk, Options.ofArgs args = .ok o → o.expression = some s → o.dot = false →
      Writable disk o.output →
      let limit := min (o.maxVars.getD 16) 127
      let table := Table.ofFormula φ (o.separator.getD " ")
      let format := o.format.getD .text
      ((∃ text, table.render format = .ok text ∧ Prints args clock disk o.output text) ↔
        names.length ≤ limit ∧ table.Fits format) ∧
      (names.length ≤ limit → ¬table.Fits format → (run args clock disk).code = 101) ∧
      (names.length ≤ limit → table.rows.length = 2 ^ names.length ∧ 2 ^ names.length < 2 ^ 128 - 1) ∧
      ∀ e ∈ (plan args).log, e.level ≠ .warn := by
  intro names
  have hnames := Formula.names_agree hls hφ
  have hlength : names.length = φ.symbols.length := congrArg List.length hnames.1.symm
  refine ⟨hnames, fun args o clock disk ho hs hdot hw => ?_⟩
  intro limit table format
  refine ⟨?_, ?_, fun hle => ?_, fun e he => level_log_plan ho hs hφ he⟩
  · rw [hlength]
    exact prints_iff ho hs hφ hdot clock hw
  · rw [hlength]
    exact code_of_not_fits ho hs hφ hdot clock hw
  · exact length_rows_table (congrArg List.length hnames.2.1) (Nat.le_trans hle (Nat.min_le_right ..))

/-- Three names make eight rows under a limit of three, and are refused under a limit of two. -/
theorem names_decide_printing_three :
    let φ : Formula := .binary .join (.binary .implies (.symbol "c") (.symbol "a")) (.symbol "b")
    let disk : Disk := fun _ => .absent
    Formula.ofString "c -> a, b" = .ok φ ∧ φ.symbols = ["c", "a", "b"] ∧
      (∃ text, (Table.ofFormula φ " ").render .csv = .ok text ∧
        Prints ["c -> a, b", "--max-vars", "3", "-f", "csv"] "TIME" disk none text) ∧
      (¬∃ text, (Table.ofFormula φ " ").render .csv = .ok text ∧
        Prints ["c -> a, b", "--max-vars", "2", "-f", "csv"] "TIME" disk none text) ∧
      (Table.ofFormula φ " ").rows.length = 8 := by
  intro φ disk
  have hls : Lexeme.ofString "c -> a, b" = .ok [⟨.symbol "c", 0⟩, ⟨.connective .implies, 2⟩,
      ⟨.symbol "a", 5⟩, ⟨.connective .join, 6⟩, ⟨.symbol "b", 8⟩, ⟨.eof, 9⟩] := by rfl
  have hφ : Formula.ofString "c -> a, b" = .ok φ := Formula.ofString_eq_ok_iff.2 ⟨_, hls, by rfl⟩
  have hthree : Options.ofArgs ["c -> a, b", "--max-vars", "3", "-f", "csv"] =
      .ok { expression := some "c -> a, b", maxVars := some 3, format := some .csv } := by rfl
  have htwo : Options.ofArgs ["c -> a, b", "--max-vars", "2", "-f", "csv"] =
      .ok { expression := some "c -> a, b", maxVars := some 2, format := some .csv } := by rfl
  obtain ⟨⟨hsymbols, -, -⟩, hruns⟩ := names_decide_printing hls hφ
  obtain ⟨hprints, -, hrows, -⟩ := hruns _ _ "TIME" disk hthree rfl rfl trivial
  obtain ⟨hrefuses, -⟩ := hruns _ _ "TIME" disk htwo rfl rfl trivial
  refine ⟨hφ, hsymbols, hprints.2 ⟨?_, nofun⟩, fun h => absurd (hrefuses.1 h).1 ?_, (hrows ?_).1⟩
  all_goals decide

theorem ofArgs_name {name : String} (h : ProperName name) :
    Options.ofArgs [name] = .ok { expression := some name } := by
  have hdash : ∀ cs, name.toList ≠ '-' :: cs := fun cs hcs =>
    absurd (h.2.1 '-' (hcs ▸ List.mem_cons_self)) (by decide)
  unfold Options.ofArgs Options.read
  split
  all_goals simp_all [Options.operand, Options.read]

/-- A name that is too long for a field ends the program, although there is only one name. -/
theorem long_name_breaks {name : String} (hname : ProperName name) (hlong : 65535 < name.length)
    (clock : String) (disk : Disk) :
    ∃ ls o, Lexeme.ofString name = .ok ls ∧ Formula.ofString name = .ok (.symbol name) ∧
      Options.ofArgs [name] = .ok o ∧ o.expression = some name ∧ o.dot = false ∧ Writable disk o.output ∧
      (Token.names (ls.map (·.token))).length ≤ min (o.maxVars.getD 16) 127 ∧
      (run [name] clock disk).code = 101 ∧ ¬∃ text, Prints [name] clock disk o.output text := by
  have hproper : (Formula.symbol name).Proper := fun other hother => List.mem_singleton.1 hother ▸ hname
  have hsymbols : (Formula.symbol name).symbols = [name] := rfl
  have hφ : Formula.ofString name = .ok (.symbol name) := Formula.ofString_label hproper (Nat.zero_le _)
  obtain ⟨ls, hls, -⟩ := Formula.ofString_eq_ok_iff.1 hφ
  have hnames : (Token.names (ls.map (·.token))).length = 1 :=
    congrArg List.length ((Formula.symbols_eq_names hls hφ).symm.trans hsymbols)
  have hfits : ¬(Table.ofFormula (.symbol name) " ").Fits .text := fun hfits => by
    have hcolumn : ⟨name, .primitive⟩ ∈ (Table.ofFormula (.symbol name) " ").columns := by
      rw [Table.columns_ofFormula hproper.plain, hsymbols]
      exact List.mem_append_left _ List.mem_cons_self
    exact absurd (hfits rfl _ hcolumn) (Nat.not_le.2 hlong)
  have hlimit : 1 ≤ min 16 127 := by decide
  have hcode : (run [name] clock disk).code = 101 :=
    code_of_not_fits (ofArgs_name hname) rfl hφ rfl clock trivial hlimit hfits
  refine ⟨ls, _, hls, hφ, ofArgs_name hname, rfl, rfl, trivial, ?_, hcode, ?_⟩
  · rw [hnames]
    exact hlimit
  · rintro ⟨text, hprints⟩
    exact absurd (hprints.1.symm.trans hcode) (by decide)

theorem properName_replicate {n : Nat} (hn : 5 ≤ n) : ProperName (String.ofList (List.replicate n 'a')) := by
  have hlength : (String.ofList (List.replicate n 'a')).length = n := by
    rw [String.length_ofList, List.length_replicate]
  have hkeyword : ∀ name ∈ "" :: keywordNames, name.length ≤ 4 := by decide
  refine ⟨fun h => ?_, fun c hc => ?_, fun h => ?_⟩
  · have hle := hkeyword "" List.mem_cons_self
    rw [← h] at hle
    omega
  · rw [String.toList_ofList] at hc
    rw [List.eq_of_mem_replicate hc]
    decide
  · have hle := hkeyword _ (List.mem_cons_of_mem _ h)
    omega

/-- A run with a name of 65536 letters and nothing else. -/
theorem long_name_breaks_replicate :
    let name := String.ofList (List.replicate 65536 'a')
    let disk : Disk := fun _ => .absent
    ∃ ls o, Lexeme.ofString name = .ok ls ∧ Formula.ofString name = .ok (.symbol name) ∧
      Options.ofArgs [name] = .ok o ∧ o.expression = some name ∧ o.dot = false ∧ Writable disk o.output ∧
      (Token.names (ls.map (·.token))).length ≤ min (o.maxVars.getD 16) 127 ∧
      (run [name] "TIME" disk).code = 101 ∧ ¬∃ text, Prints [name] "TIME" disk o.output text := by
  refine long_name_breaks (properName_replicate (by decide)) ?_ _ _
  rw [String.length_ofList, List.length_replicate]
  decide

end CommandLine

end TruthTables
