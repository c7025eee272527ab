import PlZero.Command.Session
import PlZero.Proofs.Console.Writing
import PlZero.Proofs.Files.Queries

namespace PlZero

namespace Command

-- A session on a disk: how it ends, and the disk that there is then.
def sessionIn (decode : Suite.Decoder) (d : Files.Disk) (args : List String) (stdout : Writer) :
    Outcome × Files.Disk :=
  (session decode args stdout : StateM Files.Disk Outcome).run d

def workIn (d : Files.Disk) (o : Options) (source : List UInt8) (stdout : Writer) : Outcome × Files.Disk :=
  (work o source stdout : StateM Files.Disk Outcome).run d

def keepIn (d : Files.Disk) (o : Options) (r : Report) : List UInt8 × Files.Disk :=
  (keepStopped o r : StateM Files.Disk (List UInt8)).run d

section

variable {decode : Suite.Decoder} {d : Files.Disk} {args : List String} {o : Options}

theorem sessionIn_of_read {source : List UInt8} (hparse : Options.parse args = .ok o)
    (hmode : o.mode ≠ .suites) (hread : d.read o.input = .ok source) (stdout : Writer) :
    sessionIn decode d args stdout = workIn d o source stdout := by
  simp only [sessionIn, session, hparse, hmode, if_false, Files.Disk.run_bind, Files.Disk.run_read, hread]
  rfl

-- The cases that a path leads to, whether it is one of a suite or of a directory of suites.
def loadedIn (decode : Suite.Decoder) (d : Files.Disk) (path : String) :
    Except Suite.LoadError (List Suite.Case) :=
  if d.isDirectory path.toList then ((Suite.loadDirectory decode path : StateM Files.Disk _).run d).1
  else ((Suite.loadFile decode path : StateM Files.Disk _).run d).1

def checkIn (decode : Suite.Decoder) (d : Files.Disk) (o : Options) (stdout : Writer) :
    Outcome × Files.Disk :=
  (checkSuites decode o stdout : StateM Files.Disk Outcome).run d

theorem checkIn_eq (decode : Suite.Decoder) (d : Files.Disk) (o : Options) (stdout : Writer) :
    checkIn decode d o stdout =
      (match loadedIn decode d o.input with
        | .error e => ⟨1, stdout, complaint ("load error: " ++ e.message)⟩
        | .ok cases => reportCases cases stdout, d) := by
  have hrun (x : StateM Files.Disk (Except Suite.LoadError (List Suite.Case)))
      (hx : Files.Disk.ReadOnly x) :
      (x >>= fun loaded => match loaded with
        | .error e => (return ⟨1, stdout, complaint ("load error: " ++ e.message)⟩ : StateM Files.Disk Outcome)
        | .ok cases => return reportCases cases stdout).run d =
      (match (x.run d).1 with
        | .error e => ⟨1, stdout, complaint ("load error: " ++ e.message)⟩
        | .ok cases => reportCases cases stdout, d) := by
    rw [Files.Disk.run_bind, hx]
    cases (x.run d).1 <;> rfl
  have hdirectory : (Files.Access.isDirectory o.input.toList : StateM Files.Disk Bool).run d =
      (d.isDirectory o.input.toList, d) := rfl
  simp only [checkIn, checkSuites, loadedIn, Files.Disk.run_bind, hdirectory]
  split
  · exact hrun _ (Suite.readOnly_loadDirectory decode _)
  · exact hrun _ (Suite.readOnly_loadFile decode _)

theorem sessionIn_of_suites (hparse : Options.parse args = .ok o) (hmode : o.mode = .suites)
    (stdout : Writer) : sessionIn decode d args stdout = checkIn decode d o stdout := by
  simp only [sessionIn, session, hparse, hmode, if_true]
  rfl

end

-- The ways in which a session can go.
inductive Goes (decode : Suite.Decoder) (d : Files.Disk) (args : List String) (stdout : Writer) :
    Outcome × Files.Disk → Prop where
  | refused {e : UsageError} (parsed : Options.parse args = .error e) (stderr : List UInt8) :
      Goes decode d args stdout (⟨2, stdout, stderr⟩, d)
  | checked {o : Options} (parsed : Options.parse args = .ok o) (suites : o.mode = .suites) :
      Goes decode d args stdout (checkIn decode d o stdout)
  | unread {o : Options} {e : Files.FileError} (parsed : Options.parse args = .ok o)
      (single : o.mode ≠ .suites) (missing : d.read o.input = .error e) (stderr : List UInt8) :
      Goes decode d args stdout (⟨1, stdout, stderr⟩, d)
  | worked {o : Options} {source : List UInt8} (parsed : Options.parse args = .ok o)
      (single : o.mode ≠ .suites) (input : d.read o.input = .ok source) :
      Goes decode d args stdout (workIn d o source stdout)

theorem goes_sessionIn (decode : Suite.Decoder) (d : Files.Disk) (args : List String) (stdout : Writer) :
    Goes decode d args stdout (sessionIn decode d args stdout) := by
  cases hparse : Options.parse args with
  | error e =>
      simp only [sessionIn, session, hparse]
      exact .refused hparse _
  | ok o =>
      by_cases hmode : o.mode = .suites
      · rw [sessionIn_of_suites hparse hmode]
        exact .checked hparse hmode
      · cases hread : d.read o.input with
        | ok source =>
            rw [sessionIn_of_read hparse hmode hread]
            exact .worked hparse hmode hread
        | error e =>
            simp only [sessionIn, session, hparse, hmode, if_false, Files.Disk.run_bind,
              Files.Disk.run_read, hread]
            exact .unread hparse hmode hread _

section

variable {d d' : Files.Disk} {o : Options} {r : Report}

theorem keepIn_of_running (h : r.stopped = none) (d : Files.Disk) (o : Options) : keepIn d o r = ([], d) := by
  simp only [keepIn, keepStopped, h]
  rfl

theorem keepIn_of_stopped {machine : Machine} (h : r.stopped = some machine) (hwanted : o.snapshot ≠ "")
    (d : Files.Disk) :
    keepIn d o r =
      (match (d.write o.snapshot (Snapshot.save machine)).1 with
        | .ok () => (Text.Utf8.encode ("snapshot written to " ++ o.snapshot ++ "\n")).toList
        | .error e => complaint ("failed to write snapshot " ++ Text.quote o.snapshot ++ ": " ++ e.message),
        (d.write o.snapshot (Snapshot.save machine)).2) := by
  simp only [keepIn, keepStopped, h, hwanted, if_false, Files.Disk.run_bind, Files.Disk.run_write]
  cases (d.write o.snapshot (Snapshot.save machine)).1 <;> rfl

-- Nothing is kept, or a snapshot stands where its path leads, as far as there is room for it.
theorem keepIn_cases (d : Files.Disk) (o : Options) (r : Report) :
    (keepIn d o r).2 = d ∨
      ∃ place saved, d.target o.snapshot.toList = .ok place ∧ d.Written (keepIn d o r).2 place saved := by
  cases hstopped : r.stopped with
  | none => exact .inl (by rw [keepIn_of_running hstopped])
  | some machine =>
      by_cases hwanted : o.snapshot = ""
      · simp only [keepIn, keepStopped, hstopped, hwanted, if_true]
        exact .inl rfl
      · rw [keepIn_of_stopped hstopped hwanted]
        exact d.write_cases o.snapshot (Snapshot.save machine)

-- What the work writes to, if it can be opened.
def Options.channel? (o : Options) (d : Files.Disk) (stdout : Writer) : Option Writer :=
  if o.output = "" then some stdout else (d.target o.output.toList).toOption.map (d.writer o.output)

theorem Options.exists_channel (o : Options) {stdout out : Writer} (h : o.channel? d stdout = some out)
    (stdout' : Writer) : ∃ out', o.channel? d stdout' = some out' := by
  unfold channel? at h ⊢
  split at h
  · next hplain => exact ⟨stdout', by rw [if_pos hplain]⟩
  · next hnamed => exact ⟨out, by rwa [if_neg hnamed]⟩

-- The disk once the output has taken some bytes.
inductive Options.Outputs (o : Options) (d : Files.Disk) (taken : List UInt8) : Files.Disk → Prop where
  | stdout (plain : o.output = "") : Outputs o d taken d
  | file {place : List (List Char)} {d' : Files.Disk} (named : o.output ≠ "")
      (path : d.target o.output.toList = .ok place) (written : d.Written d' place taken) : Outputs o d taken d'

namespace Options.Outputs

variable {taken : List UInt8}

theorem target (h : o.Outputs d taken d') {path : List Char} {place : List (List Char)}
    (hpath : d.target path = .ok place) : d'.target path = .ok place := by
  cases h with
  | stdout => exact hpath
  | file named _ written => exact written.target hpath

theorem of_target (h : o.Outputs d taken d') {path : List Char} {place : List (List Char)}
    (hpath : d'.target path = .ok place) : d.target path = .ok place := by
  cases h with
  | stdout => exact hpath
  | file named _ written => exact written.of_target hpath

theorem view (h : o.Outputs d taken d') {place : List (List Char)}
    (hplace : d.target o.output.toList ≠ .ok place) : d'.view place = d.view place := by
  cases h with
  | stdout => rfl
  | file named path written =>
      refine written.other fun heq => hplace ?_
      rw [heq, path]

theorem home_rules (h : o.Outputs d taken d') : d'.home = d.home ∧ d'.rules = d.rules := by
  cases h with
  | stdout => exact ⟨rfl, rfl⟩
  | file named path written => exact ⟨written.home, written.rules⟩

end Options.Outputs

variable {stdout out : Writer}

theorem workIn_of_channel (h : o.channel? d stdout = some out) {source : List UInt8}
    (hr : report o.mode o.trace source out = r) :
    ∃ d', o.Outputs d r.out.bytes d' ∧
      workIn d o source stdout =
        (⟨r.status, if o.output = "" then r.out else stdout, r.stderr ++ (keepIn d' o r).1⟩,
          (keepIn d' o r).2) := by
  by_cases hplain : o.output = ""
  · rw [Options.channel?, if_pos hplain, Option.some.injEq] at h
    subst h
    refine ⟨d, .stdout hplain, ?_⟩
    simp only [workIn, work, hplain, if_true, hr]
    rfl
  · rw [Options.channel?, if_neg hplain, Option.map_eq_some_iff] at h
    obtain ⟨place, htarget, rfl⟩ := h
    have hplace := eq_ok_of_toOption htarget
    refine ⟨d.put r.out.bytes place, .file hplain hplace (Files.Disk.written_put hplace _), ?_⟩
    simp only [workIn, work, hplain, if_false, Files.Disk.run_bind, Files.Disk.run_output,
      Files.Disk.output, hplace, hr]
    rfl

theorem workIn_of_no_channel (h : o.channel? d stdout = none) (source : List UInt8) :
    ∃ stderr, workIn d o source stdout = (⟨1, stdout, stderr⟩, d) := by
  by_cases hplain : o.output = ""
  · simp [Options.channel?, hplain] at h
  · rw [Options.channel?, if_neg hplain, Option.map_eq_none_iff] at h
    cases hplace : d.target o.output.toList with
    | ok place =>
        rw [hplace] at h
        cases h
    | error cause =>
        simp only [workIn, work, hplain, if_false, Files.Disk.run_bind, Files.Disk.run_output,
          Files.Disk.output, hplace]
        exact ⟨_, rfl⟩

-- The work depends on the mode and on the source through the report alone.
theorem workIn_congr {o' : Options} (houtput : o.output = o'.output) (hsnapshot : o.snapshot = o'.snapshot)
    {source source' : List UInt8}
    (hreport : ∀ out, report o.mode o.trace source out = report o'.mode o'.trace source' out)
    (d : Files.Disk) (stdout : Writer) : workIn d o source stdout = workIn d o' source' stdout := by
  have hkeep (r : Report) : (keepStopped o r : StateM Files.Disk (List UInt8)) = keepStopped o' r := by
    simp only [keepStopped, hsnapshot]
  simp only [workIn, work, houtput, hreport, hkeep]

end

section

variable {source : List UInt8} {code : Array Instruction}

theorem report_error {e : CompileError} (h : (compile (Text.Utf8.decode source)).1 = .error e) {mode : Mode}
    (hmode : mode = .listing ∨ mode = .run) (trace : Bool) (out : Writer) :
    report mode trace source out =
      { status := 1, out, stderr := remark "analyse error" (e.diagnose source) } := by
  rcases hmode with rfl | rfl <;> simp [report, h]

theorem report_listing (h : (compile (Text.Utf8.decode source)).1 = .ok code) (trace : Bool) (out : Writer) :
    report .listing trace source out = reportListing code out := by
  simp [report, h]

theorem report_run (h : (compile (Text.Utf8.decode source)).1 = .ok code) (trace : Bool) (out : Writer) :
    report .run trace source out = reportRun code trace out := by
  simp [report, h]

theorem report_assembly (h : assemble (Text.Utf8.decode source) = .ok code) (trace : Bool) (out : Writer) :
    report .assembly trace source out = reportRun code trace out := by
  simp [report, h]

end

end Command

end PlZero
