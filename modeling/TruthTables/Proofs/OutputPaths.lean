import TruthTables.Proofs.RefusedRuns

/-! # Outputs in a tree of directories -/
namespace TruthTables.CommandLine

/-- A name that is no step to a place above and not too long for a file. -/
structure Ordinary (name : String) : Prop where
  ne_dot : name ≠ "."
  ne_dots : name ≠ ".."
  size_le : name.utf8ByteSize ≤ Tree.maxName

namespace Tree

variable {t : Tree} {place us : List String} {name path : String} {f : File}

theorem enter_eq_ok_iff (h : Ordinary name) {q : List String} :
    t.enter place name = .ok q ↔ q = place ++ [name] ∧ t.node? (place ++ [name]) = some .directory := by
  rw [enter, if_neg h.ne_dot, if_neg h.ne_dots, if_neg (Nat.not_lt.2 h.size_le)]
  cases t.node? (place ++ [name]) with
  | none => simp
  | some node => cases node <;> simp [eq_comm]

theorem forall_prefix_cons_iff {P : List String → Prop} :
    (∀ vs, vs <+: name :: us → vs ≠ [] → P (place ++ vs)) ↔
      P (place ++ [name]) ∧ ∀ vs, vs <+: us → vs ≠ [] → P (place ++ [name] ++ vs) := by
  constructor
  · intro h
    refine ⟨h [name] (List.cons_prefix_cons.2 ⟨rfl, List.nil_prefix⟩) (List.cons_ne_nil _ _), fun vs hvs _ => ?_⟩
    rw [List.append_assoc]
    exact h (name :: vs) (List.cons_prefix_cons.2 ⟨rfl, hvs⟩) (List.cons_ne_nil _ _)
  · rintro ⟨hname, hus⟩ vs hvs hne
    obtain ⟨v, vs, rfl⟩ := List.exists_cons_of_ne_nil hne
    obtain ⟨rfl, hprefix⟩ := List.cons_prefix_cons.1 hvs
    by_cases hnil : vs = []
    · rw [hnil]
      exact hname
    · rw [← List.singleton_append, ← List.append_assoc]
      exact hus vs hprefix hnil

/-- A walk gets through if there is a directory at every place on the way, and comes to the place of its names. -/
theorem foldlM_enter_eq_ok_iff (h : ∀ name ∈ us, Ordinary name) {q : List String} :
    us.foldlM t.enter place = .ok q ↔
      q = place ++ us ∧ ∀ vs, vs <+: us → vs ≠ [] → t.node? (place ++ vs) = some .directory := by
  induction us generalizing place with
  | nil => simp [pure, Except.pure, eq_comm]
  | cons name us ih =>
    obtain ⟨hname, hus⟩ := List.forall_mem_cons.1 h
    rw [List.foldlM_cons, forall_prefix_cons_iff (P := fun place => t.node? place = some .directory)]
    cases henter : t.enter place name with
    | error e =>
      constructor
      · exact nofun
      · rintro ⟨-, hdir, -⟩
        exact nomatch henter.symm.trans ((enter_eq_ok_iff hname).2 ⟨rfl, hdir⟩)
    | ok p =>
      obtain ⟨rfl, hdir⟩ := (enter_eq_ok_iff hname).1 henter
      refine (ih hus).trans ?_
      rw [List.append_assoc, List.singleton_append, and_iff_right hdir]

theorem fileIn_eq_ok_iff (h : name.utf8ByteSize ≤ maxName) : t.fileIn place name = .ok f ↔
    t.node? (place ++ [name]) = some (.file f) ∨ t.node? (place ++ [name]) = none ∧ f = .absent := by
  rw [fileIn, if_neg (Nat.not_lt.2 h)]
  cases t.node? (place ++ [name]) with
  | none => simp [eq_comm]
  | some node => cases node <;> simp

/-- A path of ordinary names leads to a file if there are directories all the way to its last name, and that is the
name of the file or of nothing yet. -/
theorem find_eq_ok_iff (hsize : path.utf8ByteSize ≤ maxPath) (hnames : names path = us ++ [name])
    (h : ∀ n ∈ us ++ [name], Ordinary n) (hend : path.toList.getLast? ≠ some '/') :
    t.find path = .ok f ↔
      (∀ vs, vs <+: us → vs ≠ [] → t.node? (t.start path ++ vs) = some .directory) ∧
        (t.node? (t.start path ++ us ++ [name]) = some (.file f) ∨
          t.node? (t.start path ++ us ++ [name]) = none ∧ f = .absent) := by
  have hus : ∀ n ∈ us, Ordinary n := fun n hn => h n (List.mem_append_left _ hn)
  have hname : Ordinary name := h name (List.mem_append_right _ List.mem_cons_self)
  have hlast : (path.toList.getLast? = some '/' || name = "." || name = "..") = false := by
    simp [hend, hname.ne_dot, hname.ne_dots]
  rw [find, if_neg (Nat.not_lt.2 hsize), hnames, List.dropLast_concat, List.getLast?_concat]
  cases hwalk : us.foldlM t.enter (t.start path) with
  | error e =>
    constructor
    · exact nofun
    · rintro ⟨hdirs, -⟩
      exact nomatch hwalk.symm.trans ((foldlM_enter_eq_ok_iff hus).2 ⟨rfl, hdirs⟩)
  | ok place =>
    obtain ⟨rfl, hdirs⟩ := (foldlM_enter_eq_ok_iff hus).1 hwalk
    have hfind : t.fileIn (t.start path ++ us) name = .ok f ↔ _ := fileIn_eq_ok_iff hname.size_le
    simp only [Except.bind, bind, hlast, Bool.false_eq_true, if_false, hfind]
    exact (and_iff_right hdirs).symm

example :
    let t : Tree := ⟨[(["tmp"], .directory), (["tmp", "kept"], .file (.regular ""))], ["tmp"]⟩
    t.find "/tmp//kept" = .ok (.regular "") ∧ t.find "../tmp/./new" = .ok .absent ∧
      t.find "kept/new" = .error .notDirectory := by decide

/-- An output can be written if its path leads to a file that can be opened and has space. -/
theorem writable_disk_iff : Writable t.disk (some path) ↔
    ∃ f, t.find path = .ok f ∧ f ≠ .full ∧ ∀ reason, f ≠ .unavailable reason := by
  simp only [Writable, disk]
  cases t.find path with
  | error e => simp
  | ok f => simp

end Tree

section Run

variable {args : List String} {o : Options} {s path other : String} {φ : Formula} {clock : String} {disk : Disk}

theorem Disk.put_other (h : other ≠ path) (f : File) : disk.put path f other = disk other := if_neg h

theorem disk_deliverTo (h : other ≠ path) (stdout text : String) :
    (deliverTo disk path stdout text).disk other = disk other := by
  unfold deliverTo
  split
  · exact Disk.put_other h _
  · rfl
  · rfl
  · rfl

theorem Job.disk_runOn (h : other ≠ path) (job : Job) : (job.runOn clock disk path).disk other = disk other := by
  cases job with
  | refuse message => rfl
  | deliver log d =>
    rw [runOn]
    split
    · rfl
    · exact disk_deliverTo h _ _
  | broken log d message =>
    rw [runOn]
    split
    · rfl
    · exact disk_deliverTo h _ _

theorem options_of_plan {log : List Log.Entry} {output : Option String} {job : Job}
    (h : plan args = .work log output job) : ∃ o, Options.ofArgs args = .ok o ∧ o.output = output := by
  unfold plan at h
  split at h
  · exact nomatch h
  · exact nomatch h
  · exact nomatch h
  · rename_i o ho
    split at h
    · exact nomatch h
    · split at h
      · exact nomatch h
      · obtain ⟨-, houtput, -⟩ := Plan.work.inj h
        exact ⟨o, ho, houtput⟩

/-- A run changes nothing but its output. -/
theorem disk_run_other (h : ∀ o, Options.ofArgs args = .ok o → o.output ≠ some other) :
    (run args clock disk).disk other = disk other := by
  have houtput : ∀ log path job, plan args = .work log (some path) job → other ≠ path := by
    rintro log path job hp rfl
    obtain ⟨o, ho, houtput⟩ := options_of_plan hp
    exact h o ho houtput
  unfold run
  cases hp : plan args with
  | finish log code stdout stderr => rfl
  | work log output job =>
    cases output with
    | none => cases job <;> rfl
    | some path =>
      have hne := houtput log path job hp
      rw [Plan.run]
      split
      · rfl
      · exact (job.disk_runOn hne).trans (Disk.put_other hne _)

/-- An output that cannot be opened ends the run with the reason, and nothing is changed. -/
theorem run_of_unavailable {reason : String} (ho : Options.ofArgs args = .ok o) (hs : o.expression = some s)
    (hφ : Formula.ofString s = .ok φ) (hpath : o.output = some path) (hdisk : disk path = .unavailable reason) :
    run args clock disk = ⟨1, String.join ((Log.ofReading o.level s).map (logLine clock)),
      report ("cannot create " ++ path) [reason], disk⟩ := by
  rw [run, plan_eq ho hs hφ, hpath, Plan.run, hdisk]
  rfl

theorem run_of_find_error {t : Tree} {e : OpenError} (ho : Options.ofArgs args = .ok o)
    (hs : o.expression = some s) (hφ : Formula.ofString s = .ok φ) (hpath : o.output = some path)
    (he : t.find path = .error e) :
    run args clock t.disk = ⟨1, String.join ((Log.ofReading o.level s).map (logLine clock)),
      report ("cannot create " ++ path) [e.message], t.disk⟩ :=
  run_of_unavailable ho hs hφ hpath (by rw [Tree.disk, he])

end Run

end TruthTables.CommandLine
