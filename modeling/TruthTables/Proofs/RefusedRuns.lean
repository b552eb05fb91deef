import TruthTables.Proofs.PrintedTables

/-! # Runs that are refused -/
namespace TruthTables

theorem Formula.exists_ofString_eq_error_iff {s : String} :
    (∃ e, ofString s = .error e) ↔ (∃ e, Lexeme.ofString s = .error e) ∨
      ∃ ls e, Lexeme.ofString s = .ok ls ∧ ofLexemes ls = .error e := by
  unfold ofString
  cases Lexeme.ofString s with
  | error e => simp
  | ok ls => cases hφ : ofLexemes ls <;> simp [hφ]

namespace CommandLine

/-- Opening a file for writing makes it if it is not there and takes its text if it is. Devices, and what cannot be
opened, stay what they are. -/
structure Emptied (before after : File) : Prop where
  created : before = .absent → after = .regular ""
  truncated : ∀ text, before = .regular text → after = .regular ""
  otherwise : before ≠ .absent → (∀ text, before ≠ .regular text) → after = before

theorem emptied_opened (f : File) : Emptied f f.opened where
  created := by
    rintro rfl
    rfl
  truncated := by
    rintro text rfl
    rfl
  otherwise habsent hregular := by
    cases f with
    | absent => exact absurd rfl habsent
    | regular text => exact absurd rfl (hregular text)
    | sink | full | standardOutput | standardError | unavailable reason => rfl

/-- There is no text that opening could take, and no file that it could make. -/
def File.Spared (f : File) : Prop := f ≠ .absent ∧ ∀ text, f = .regular text → text = ""

theorem Emptied.eq_iff {before after : File} (h : Emptied before after) : after = before ↔ before.Spared := by
  constructor
  · rintro rfl
    refine ⟨fun habsent => ?_, fun text htext => ?_⟩
    · exact nomatch habsent.symm.trans (h.created habsent)
    · exact File.regular.inj (htext.symm.trans (h.truncated text htext))
  · rintro ⟨habsent, hempty⟩
    by_cases hregular : ∃ text, before = .regular text
    · obtain ⟨text, htext⟩ := hregular
      rw [h.truncated text htext, htext, hempty text htext]
    · exact h.otherwise habsent fun text htext => hregular ⟨text, htext⟩

theorem Disk.put_self (disk : Disk) (path : String) : disk.put path (disk path) = disk := by
  funext other
  unfold Disk.put
  split
  · rename_i h
    rw [h]
  · rfl

theorem Disk.put_same (disk : Disk) (path : String) (f : File) : disk.put path f path = f := if_pos rfl

def Plan.Renders : Plan → Prop
  | .work _ _ (.deliver _ _) | .work _ _ (.broken _ _ _) => True
  | .finish .. | .work _ _ (.refuse _) => False

/-- Why an expression is refused before anything is rendered. A graph may have any number of names. -/
inductive Refused (o : Options) (s : String) : Prop
  | lexical (e : LexicalError) (h : Lexeme.ofString s = .error e)
  | syntactic (ls : List Lexeme) (e : SyntaxError) (hls : Lexeme.ofString s = .ok ls)
      (h : Formula.ofLexemes ls = .error e)
  | names (φ : Formula) (hφ : Formula.ofString s = .ok φ) (hdot : o.dot = false)
      (h : min (o.maxVars.getD 16) 127 < φ.symbols.length)

theorem refused_of_error {o : Options} {s : String} {e : ReadError} (h : Formula.ofString s = .error e) :
    Refused o s := by
  rcases Formula.exists_ofString_eq_error_iff.1 ⟨e, h⟩ with ⟨e, h⟩ | ⟨ls, e, hls, h⟩
  · exact .lexical e h
  · exact .syntactic ls e hls h

/-- A text that makes a formula can be refused for its names only. -/
theorem refused_iff_of_ok {o : Options} {s : String} {φ : Formula} (hφ : Formula.ofString s = .ok φ) :
    Refused o s ↔ o.dot = false ∧ variableLimit o < φ.symbols.length := by
  constructor
  · intro h
    cases h with
    | lexical e h =>
      obtain ⟨e', he'⟩ := Formula.exists_ofString_eq_error_iff.2 (.inl ⟨e, h⟩)
      exact nomatch he'.symm.trans hφ
    | syntactic ls e hls h =>
      obtain ⟨e', he'⟩ := Formula.exists_ofString_eq_error_iff.2 (.inr ⟨ls, e, hls, h⟩)
      exact nomatch he'.symm.trans hφ
    | names ψ hψ hdot h =>
      obtain rfl : ψ = φ := Except.ok.inj (hψ.symm.trans hφ)
      exact ⟨hdot, h⟩
  · rintro ⟨hdot, h⟩
    exact .names φ hφ hdot h

theorem renders_job_iff {o : Options} {φ : Formula} (log : List Log.Entry) (output : Option String) :
    (Plan.work log output (job o φ)).Renders ↔ ¬(o.dot = false ∧ variableLimit o < φ.symbols.length) := by
  cases hdot : o.dot with
  | true => simp [job, hdot, graphJob, Plan.Renders]
  | false =>
    by_cases hlimit : variableLimit o < φ.symbols.length
    · obtain ⟨message, hjob⟩ := job_refuses hdot hlimit
      simp [hjob, Plan.Renders, hlimit]
    · rw [job_eq_tableJob hdot (Nat.not_lt.1 hlimit)]
      rcases tableJob_cases o φ with ⟨-, d, hjob, -⟩ | ⟨-, d, message, hjob⟩ <;>
        simp [hjob, Plan.Renders, hlimit]

section Run

variable {args : List String} {o : Options} {s path : String}

theorem plan_of_error {e : ReadError} (ho : Options.ofArgs args = .ok o) (hs : o.expression = some s)
    (he : Formula.ofString s = .error e) :
    plan args = .finish (Log.ofReading o.level s) 1 ""
      (report ("cannot parse expression " ++ Text.quoted s) [e.message, e.cause]) := by
  simp only [plan, ho, hs, he]

theorem renders_iff (ho : Options.ofArgs args = .ok o) (hs : o.expression = some s) :
    (plan args).Renders ↔ ¬Refused o s := by
  cases hφ : Formula.ofString s with
  | error e =>
    rw [plan_of_error ho hs hφ]
    exact ⟨False.elim, fun h => h (refused_of_error hφ)⟩
  | ok φ =>
    rw [plan_eq ho hs hφ, refused_iff_of_ok hφ]
    exact renders_job_iff _ _

/-- A job that is refused has opened its output and done nothing else. -/
theorem disk_of_refuse {log : List Log.Entry} {message : String}
    (hp : plan args = .work log (some path) (.refuse message)) (clock : String) (disk : Disk) :
    (run args clock disk).disk = disk.put path (disk path).opened := by
  rw [run, hp]
  cases hf : disk path with
  | unavailable reason =>
    have hself : disk.put path (.unavailable reason) = disk := by rw [← hf, Disk.put_self]
    simp only [Plan.run, hf, File.opened, hself]
  | absent | regular text | sink | full | standardOutput | standardError =>
    simp only [Plan.run, hf, File.opened, Job.runOn]

/-- A run that is refused for its text leaves the disk alone. One that is refused for its names leaves its output
empty, so the output is as it was only if there was nothing to lose and nothing to make. All that is not refused is
planned to be rendered. -/
theorem refused_output (ho : Options.ofArgs args = .ok o) (hs : o.expression = some s)
    (hpath : o.output = some path) (clock : String) (disk : Disk) :
    let unreadable := ∃ e, Formula.ofString s = .error e
    let r := run args clock disk
    ((plan args).Renders ↔ ¬Refused o s) ∧
    (Refused o s → r.code = 1 ∧
      (unreadable → r.disk = disk) ∧
      (¬unreadable → Emptied (disk path) (r.disk path)) ∧
      (r.disk path = disk path ↔ unreadable ∨ (disk path).Spared)) := by
  intro unreadable r
  refine ⟨renders_iff ho hs, fun hr => ?_⟩
  cases hφ : Formula.ofString s with
  | error e =>
    have hun : unreadable := ⟨e, hφ⟩
    have hrun : r = ⟨1, _, _, disk⟩ := congrArg (Plan.run clock disk) (plan_of_error ho hs hφ)
    rw [hrun]
    exact ⟨rfl, fun _ => rfl, fun h => absurd hun h, fun _ => .inl hun, fun _ => rfl⟩
  | ok φ =>
    have hreads : ¬unreadable := by
      rintro ⟨e, he⟩
      exact nomatch he.symm.trans hφ
    obtain ⟨hdot, hlimit⟩ := (refused_iff_of_ok hφ).1 hr
    obtain ⟨message, hjob⟩ := job_refuses hdot hlimit
    have hplan := plan_eq ho hs hφ
    rw [hpath, hjob] at hplan
    have hemptied : Emptied (disk path) (r.disk path) := by
      rw [disk_of_refuse hplan, Disk.put_same]
      exact emptied_opened (disk path)
    refine ⟨code_of_refuse hplan, fun h => absurd h hreads, fun _ => hemptied, ?_⟩
    rw [hemptied.eq_iff]
    exact ⟨.inr, fun h => h.resolve_left hreads⟩

end Run

/-- A file with a text keeps it when an operand is missing, and loses it when there is one name too many. -/
theorem refused_output_text :
    let missing := ["a &", "-o", "table.txt"]
    let excess := ["a", "--max-vars", "0", "-o", "table.txt"]
    let disk : Disk := fun _ => .regular "kept"
    (run missing "TIME" disk).code = 1 ∧ (run missing "TIME" disk).disk "table.txt" = .regular "kept" ∧
      (run excess "TIME" disk).code = 1 ∧ (run excess "TIME" disk).disk "table.txt" = .regular "" := by
  intro missing excess disk
  have hmissing : Options.ofArgs missing = .ok { expression := some "a &", output := some "table.txt" } := by rfl
  have hexcess : Options.ofArgs excess =
      .ok { expression := some "a", output := some "table.txt", maxVars := some 0 } := by rfl
  have hls : Lexeme.ofString "a &" = .ok [⟨.symbol "a", 0⟩, ⟨.connective .and, 2⟩, ⟨.eof, 3⟩] := by rfl
  have herror : Formula.ofLexemes [⟨.symbol "a", 0⟩, ⟨.connective .and, 2⟩, ⟨.eof, 3⟩] =
      .error (.unexpectedEnd .operand) := by rfl
  have hφ : Formula.ofString "a" = .ok (.symbol "a") := Formula.ofString_eq_ok_iff.2 ⟨_, by rfl, by rfl⟩
  obtain ⟨hcode, hdisk, -⟩ := (refused_output hmissing rfl rfl "TIME" disk).2 (.syntactic _ _ hls herror)
  obtain ⟨hcode', -, hemptied, -⟩ :=
    (refused_output hexcess rfl rfl "TIME" disk).2 (.names _ hφ rfl (by decide))
  refine ⟨hcode, ?_, hcode', (hemptied ?_).truncated "kept" rfl⟩
  · rw [hdisk (Formula.exists_ofString_eq_error_iff.2 (.inr ⟨_, _, hls, herror⟩))]
  · rintro ⟨e, he⟩
    exact nomatch he.symm.trans hφ

/-- One name under a limit of none is refused, and still a file is made or loses its text. -/
theorem limit_empties_file :
    let args := ["a", "--max-vars", "0", "-o", "table.txt"]
    ∃ o, Options.ofArgs args = .ok o ∧ o.expression = some "a" ∧ o.output = some "table.txt" ∧ Refused o "a" ∧
      ∀ before ∈ [File.absent, File.regular "kept"],
        (run args "TIME" fun _ => before).disk "table.txt" ≠ before := by
  intro args
  let o : Options := { expression := some "a", output := some "table.txt", maxVars := some 0 }
  have ho : Options.ofArgs args = .ok o := by rfl
  have hφ : Formula.ofString "a" = .ok (.symbol "a") := Formula.ofString_eq_ok_iff.2 ⟨_, by rfl, by rfl⟩
  refine ⟨o, ho, rfl, rfl, .names _ hφ rfl (by decide), fun before hbefore hsame => ?_⟩
  obtain ⟨message, hjob⟩ : ∃ message, job o (.symbol "a") = .refuse message := job_refuses rfl (by decide)
  have hplan := plan_eq ho rfl hφ
  rw [hjob] at hplan
  rw [disk_of_refuse hplan, Disk.put_same] at hsame
  -- neither kind of file is spared by being opened
  simp only [List.mem_cons, List.not_mem_nil, or_false] at hbefore
  rcases hbefore with rfl | rfl
  · exact nomatch hsame
  · exact absurd (File.regular.inj hsame) (by decide)

end CommandLine

end TruthTables
