import PlZero.Analysis.Analyser
import PlZero.Assembly.Assemble
import PlZero.Assembly.Listing
import PlZero.Command.Options
import PlZero.Files.Access
import PlZero.Machine.Basic
import PlZero.Snapshot.Basic
import PlZero.Source.Diagnostic
import PlZero.Suite.Batch
import PlZero.Suite.Load

namespace PlZero.Command

structure Outcome where
  status : Nat
  stdout : Writer
  stderr : List UInt8 := []
deriving DecidableEq, Repr

def complaint (text : String) : List UInt8 :=
  (Text.Utf8.encode (commandName ++ ": " ++ text ++ if text.endsWith "\n" then "" else "\n")).toList

def remark (about : String) (diagnosis : List UInt8) : List UInt8 :=
  (Text.Utf8.encode (about ++ ": ")).toList ++ diagnosis ++ [0x0A]

structure Report where
  status : Nat
  out : Writer
  stderr : List UInt8 := []
  stopped : Option Machine := none
deriving DecidableEq, Repr

def reportTokens (source : List UInt8) (out : Writer) : Report :=
  let lexed := lex (Text.Utf8.decode source)
  let out := lexed.1.foldl (fun out t => out.put (t.render ++ "\n")) out
  match lexed.2 with
  | some e => { status := 1, out, stderr := remark "lex error" (e.diagnose source) }
  | none => { status := 0, out }

def reportListing (program : Array Instruction) (out : Writer) : Report :=
  match out.write (disassemble program) with
  | (.ok (), out) => { status := 0, out }
  | (.error e, out) => { status := 1, out, stderr := complaint ("write error: " ++ e) }

def reportRun (program : Array Instruction) (trace : Bool) (out : Writer) : Report :=
  let trace := if trace then some "" else none
  let ended := Execution.run ⟨{ program }, { sink := some (.lines out), trace }⟩
  let out :=
    match ended.2.console.sink with
    | some (.lines out) => out
    | _ => out
  let traced := ended.2.console.trace.getD ""
  match ended.1 with
  | none => { status := 0, out, stderr := (Text.Utf8.encode traced).toList }
  | some e =>
      { status := 1
        out
        stderr := (Text.Utf8.encode (traced ++ "runtime error: " ++ e.render ++ "\n")).toList
        stopped := some ended.2.machine }

def report (mode : Mode) (trace : Bool) (source : List UInt8) (out : Writer) : Report :=
  match mode with
  | .tokens => reportTokens source out
  | .assembly =>
      match assemble (Text.Utf8.decode source) with
      | .error e =>
          { status := 1, out, stderr := remark "assembly error" (Text.Utf8.encode e.message).toList }
      | .ok program => reportRun program trace out
  | .listing | .run | .suites =>
      match (compile (Text.Utf8.decode source)).1 with
      | .error e => { status := 1, out, stderr := remark "analyse error" (e.diagnose source) }
      | .ok program =>
          if mode = .listing then reportListing program out else reportRun program trace out

def verdictLine (v : Suite.Verdict) : String :=
  if v.skipped then "SKIP " ++ v.case.title ++ " (" ++ v.reason ++ ")\n"
  else if v.passed then "PASS " ++ v.case.title ++ "\n"
  else "FAIL " ++ v.case.title ++ ": " ++ (v.discrepancy.map (·.message)).getD "<nil>" ++ "\n"

def reportCases (cases : List Suite.Case) (stdout : Writer) : Outcome :=
  let judged := Suite.judgeAll cases false
  let summary := Suite.Summary.ofVerdicts judged.2
  let lines := judged.2.map (fun v => verdictLine (v.getD {})) ++ [summary.render ++ "\n"]
  if judged.1 then
    { status := 1
      stdout
      stderr := (Text.Utf8.encode ("conformance error: " ++ Suite.cancellation ++ "\n")).toList }
  else { status := if 0 < summary.failed then 1 else 0, stdout := lines.foldl Writer.put stdout }

variable {m : Type → Type} [Monad m] [Files.Access m]

def keepStopped (o : Options) (r : Report) : m (List UInt8) := do
  match r.stopped with
  | none => return []
  | some machine =>
      if o.snapshot = "" then return []
      else
        match ← Files.Access.write o.snapshot (Snapshot.save machine) with
        | .ok () => return (Text.Utf8.encode ("snapshot written to " ++ o.snapshot ++ "\n")).toList
        | .error e =>
            return complaint ("failed to write snapshot " ++ Text.quote o.snapshot ++ ": " ++ e.message)

def work (o : Options) (source : List UInt8) (stdout : Writer) : m Outcome := do
  if o.output = "" then
    let r := report o.mode o.trace source stdout
    return ⟨r.status, r.out, r.stderr ++ (← keepStopped o r)⟩
  else
    let reported ← Files.Access.output o.output fun out =>
      let r := report o.mode o.trace source out
      (r, r.out)
    match reported with
    | .error e =>
        let text := "failed to create output file " ++ Text.quote o.output ++ ": " ++ e.message
        return ⟨1, stdout, complaint text⟩
    | .ok r => return ⟨r.status, stdout, r.stderr ++ (← keepStopped o r)⟩

variable (decode : Suite.Decoder)

def checkSuites (o : Options) (stdout : Writer) : m Outcome := do
  let loaded ←
    if ← Files.Access.isDirectory o.input.toList then Suite.loadDirectory decode o.input
    else Suite.loadFile decode o.input
  match loaded with
  | .error e => return ⟨1, stdout, complaint ("load error: " ++ e.message)⟩
  | .ok cases => return reportCases cases stdout

def session (args : List String) (stdout : Writer) : m Outcome := do
  match Options.parse args with
  | .error e => return ⟨2, stdout, complaint (e.message ++ "\n" ++ usage)⟩
  | .ok o =>
      if o.mode = .suites then checkSuites decode o stdout
      else
        match ← Files.Access.read o.input with
        | .error e =>
            let text := "failed to read input file " ++ Text.quote o.input ++ ": " ++ e.message
            return ⟨1, stdout, complaint text⟩
        | .ok source => work o source stdout

end PlZero.Command
