import PlZero.Proofs.Command.PostMortem
import PlZero.Proofs.Machine.Printing
import PlZero.Proofs.Suite.Schedules
import PlZero.Proofs.Suite.Verdicts

namespace PlZero.Command

open Text.Utf8 (encode)

-- The pieces in which the complete output of the work on a source is written.
inductive Options.Due (o : Options) (source : List UInt8) : List String → Prop where
  | tokens {tokens : List Token} (mode : o.mode = .tokens)
      (lexed : lex (Text.Utf8.decode source) = (tokens, none)) :
      Due o source (tokens.map fun t => t.render ++ "\n")
  | listing {code : Array Instruction} (mode : o.mode = .listing)
      (compiled : (compile (Text.Utf8.decode source)).1 = .ok code) : Due o source [disassemble code]
  | values {code : Array Instruction} {values : List Int32} (program : o.program? source = some code)
      (ran : Suite.execute code = (none, values)) : Due o source (values.map Sink.line)

def verdictLines (cases : List Suite.Case) : List String :=
  cases.map (fun c => verdictLine c.verdict) ++
    [(Suite.Summary.ofVerdicts (cases.map fun c => some c.verdict)).render ++ "\n"]

inductive Options.Owes (o : Options) (decode : Suite.Decoder) (d : Files.Disk) : List String → Prop where
  | source {source : List UInt8} {pieces : List String} (single : o.mode ≠ .suites)
      (input : d.read o.input = .ok source) (due : o.Due source pieces) : Owes o decode d pieces
  | verdicts {cases : List Suite.Case} (suites : o.mode = .suites)
      (loaded : loadedIn decode d o.input = .ok cases) : Owes o decode d (verdictLines cases)

-- Verdicts go to the standard output whatever output is named.
def Options.destination? (o : Options) (d : Files.Disk) (stdout : Writer) : Option Writer :=
  if o.mode = .suites then some stdout else o.channel? d stdout

def Options.Received (o : Options) (stdout : Writer) (ended : Outcome × Files.Disk) (bytes : List UInt8) :
    Prop :=
  if o.mode = .suites then ended.1.stdout.bytes = stdout.bytes ++ bytes else Delivered o stdout ended bytes

theorem reportCases_eq (cases : List Suite.Case) (stdout : Writer) :
    reportCases cases stdout =
      { status := if 0 < (Suite.Summary.ofVerdicts (cases.map fun c => some c.verdict)).failed then 1 else 0
        stdout := (verdictLines cases).foldl Writer.put stdout } := by
  simp only [reportCases, Suite.judgeAll_eq, List.map_map, verdictLines]
  rfl

theorem reportRun_success {code : Array Instruction} {trace : Bool} {out : Writer}
    (h : (reportRun code trace out).status = 0) :
    ∃ values, Suite.execute code = (none, values) ∧ (reportRun code trace out).stopped = none ∧
      (reportRun code trace out).out.bytes =
        out.bytes ++ (encode (String.join (values.map Sink.line))).toList := by
  cases hrun : (Execution.start code ⟨some (.lines out), {}, if trace then some "" else none⟩).run.1 with
  | some e =>
      unfold Execution.start at hrun
      simp only [reportRun, hrun] at h
      cases h
  | none =>
      obtain ⟨r, out', hfollow, hsink, hbytes⟩ := Execution.run_lines rfl hrun
      refine ⟨r.written, Suite.execute_of_follow hfollow, ?_⟩
      unfold Execution.start at hrun hsink
      simp only [reportRun, hrun, hsink, true_and]
      exact hbytes

section

variable {decode : Suite.Decoder} {d : Files.Disk} {o : Options} {source : List UInt8} {stdout out : Writer}

theorem reportTokens_of_lex {tokens : List Token} (h : lex (Text.Utf8.decode source) = (tokens, none))
    (out : Writer) :
    reportTokens source out = ⟨0, (tokens.map fun t => t.render ++ "\n").foldl Writer.put out, [], none⟩ := by
  simp only [reportTokens, h, List.foldl_map]

theorem report_success (hmode : o.mode ≠ .suites) {r : Report}
    (hr : report o.mode o.trace source out = r) (h : r.status = 0) :
    ∃ pieces taken rest cut, o.Due source pieces ∧ pieces = taken ++ rest ∧
      out.Takes taken rest cut r.out ∧ r.stopped = none ∧ (rest ≠ [] → o.mode = .tokens) ∧
      (o.mode = .tokens → ∀ out', (report o.mode o.trace source out').status = 0) := by
  subst hr
  cases hcase : o.mode with
  | suites => exact absurd hcase hmode
  | tokens =>
      have hreport (out : Writer) : report .tokens o.trace source out = reportTokens source out := rfl
      rw [hcase, hreport] at h
      rw [hreport]
      rcases hlex : lex (Text.Utf8.decode source) with ⟨tokens, _ | e⟩
      · obtain ⟨taken, rest, cut, hpieces, htakes⟩ :=
          out.takes_foldl_put (tokens.map fun t => t.render ++ "\n")
        rw [reportTokens_of_lex hlex]
        refine ⟨_, taken, rest, cut, .tokens hcase hlex, hpieces, htakes, rfl, fun _ => rfl, fun _ out' => ?_⟩
        rw [hreport, reportTokens_of_lex hlex]
      · simp only [reportTokens, hlex] at h
        cases h
  | listing =>
      rw [hcase] at h
      cases hcompile : (compile (Text.Utf8.decode source)).1 with
      | error e =>
          rw [report_error hcompile (.inl rfl)] at h
          cases h
      | ok code =>
          rw [report_listing hcompile] at h ⊢
          obtain ⟨out', hwrite, hreport⟩ | ⟨out', stderr, e, _, hreport⟩ := reportListing_cases code out
          · rw [hreport]
            refine ⟨_, [disassemble code], [], [], .listing hcase hcompile, rfl, .of_bytes ?_, rfl, by simp,
              by simp⟩
            rw [Writer.bytes_of_write hwrite, String.join_cons, String.join_nil, String.append_empty]
          · rw [hreport] at h
            cases h
  | run | assembly =>
      rw [← hcase]
      cases hprogram : o.program? source with
      | none =>
          obtain ⟨stderr, hreport⟩ := report_no_program (by simp [hcase]) hprogram out
          rw [hreport] at h
          cases h
      | some code =>
          rw [report_program hprogram] at h ⊢
          obtain ⟨values, hexecute, hstopped, hbytes⟩ := reportRun_success h
          exact ⟨_, values.map Sink.line, [], [], .values hprogram hexecute, by simp, .of_bytes hbytes,
            hstopped, by simp, by simp [hcase]⟩

theorem checkIn_success (hmode : o.mode = .suites) (h : (checkIn decode d o stdout).1.status = 0) :
    ∃ pieces taken rest cut, o.Owes decode d pieces ∧ pieces = taken ++ rest ∧
      stdout.Takes taken rest cut (checkIn decode d o stdout).1.stdout ∧
      ∀ stdout', (checkIn decode d o stdout').1.status = 0 := by
  cases hloaded : loadedIn decode d o.input with
  | error e =>
      rw [checkIn_eq, hloaded] at h
      cases h
  | ok cases =>
      have hcheck (stdout : Writer) : (checkIn decode d o stdout).1 = reportCases cases stdout := by
        rw [checkIn_eq, hloaded]
      obtain ⟨taken, rest, cut, hpieces, htakes⟩ := stdout.takes_foldl_put (verdictLines cases)
      refine ⟨_, taken, rest, cut, .verdicts hmode hloaded, hpieces, ?_, fun stdout' => ?_⟩
      · rwa [hcheck, reportCases_eq]
      · rw [hcheck, reportCases_eq] at h ⊢
        exact h

theorem workIn_success (hmode : o.mode ≠ .suites) (h : (workIn d o source stdout).1.status = 0) :
    ∃ out out' pieces taken rest cut, o.channel? d stdout = some out ∧ o.Due source pieces ∧
      pieces = taken ++ rest ∧ out.Takes taken rest cut out' ∧
      Delivered o stdout (workIn d o source stdout) ((encode (String.join taken)).toList ++ cut) ∧
      (rest ≠ [] → o.mode = .tokens) ∧
      (o.mode = .tokens → ∀ stdout', (workIn d o source stdout').1.status = 0) := by
  cases hout : o.channel? d stdout with
  | none =>
      obtain ⟨stderr, hwork⟩ := workIn_of_no_channel hout source
      rw [hwork] at h
      cases h
  | some out =>
      obtain ⟨d', houtputs, hwork⟩ := workIn_of_channel hout rfl
      have hstatus : (report o.mode o.trace source out).status = 0 := by
        rw [hwork] at h
        exact h
      obtain ⟨pieces, taken, rest, cut, hdue, hpieces, htakes, hstopped, htokens, halways⟩ :=
        report_success hmode rfl hstatus
      refine ⟨out, _, pieces, taken, rest, cut, rfl, hdue, hpieces, htakes, ?_, htokens,
        fun hmode stdout' => ?_⟩
      · rw [hwork, keepIn_of_running hstopped]
        exact (delivered_iff hout houtputs htakes.bytes _ _ _).mpr rfl
      · obtain ⟨out', hout'⟩ := o.exists_channel hout stdout'
        obtain ⟨_, _, hwork'⟩ := workIn_of_channel hout' rfl
        rw [hwork']
        exact halways hmode _

end

theorem success_delivers_output (decode : Suite.Decoder) {d : Files.Disk} {args : List String}
    {stdout : Writer} (h : (sessionIn decode d args stdout).1.status = 0) :
    let ended := sessionIn decode d args stdout
    ∃ o pieces taken rest cut out,
      Options.parse args = .ok o ∧ o.Owes decode d pieces ∧ o.destination? d stdout = some out ∧
      pieces = taken ++ rest ∧ o.Received stdout ended ((encode (String.join taken)).toList ++ cut) ∧
      (rest = [] → cut = []) ∧
      (∀ piece more, rest = piece :: more →
        (o.mode = .tokens ∨ o.mode = .suites) ∧ cut <+: (encode piece).toList ∧
        ∃ message, ((taken.foldl Writer.put out).write piece).1 = .error message) ∧
      (o.mode = .tokens ∨ o.mode = .suites →
        ∀ stdout', (sessionIn decode d args stdout').1.status = 0) := by
  intro ended
  have hgoes : Goes decode d args stdout ended := goes_sessionIn decode d args stdout
  change ended.1.status = 0 at h
  generalize ended = ended at h hgoes
  cases hgoes with
  | refused => cases h
  | unread => cases h
  | @checked o parsed suites =>
      obtain ⟨pieces, taken, rest, cut, howes, hpieces, htakes, halways⟩ := checkIn_success suites h
      refine ⟨o, pieces, taken, rest, cut, stdout, parsed, howes, ?_, hpieces, ?_, htakes.whole,
        fun piece more hrest => ⟨.inr suites, htakes.refused piece more hrest⟩, fun _ stdout' => ?_⟩
      · rw [Options.destination?, if_pos suites]
      · rw [Options.Received, if_pos suites]
        exact htakes.bytes
      · rw [sessionIn_of_suites parsed suites]
        exact halways stdout'
  | @worked o source parsed single input =>
      obtain ⟨out, out', pieces, taken, rest, cut, hout, hdue, hpieces, htakes, hdelivered, htokens, halways⟩ :=
        workIn_success single h
      refine ⟨o, pieces, taken, rest, cut, out, parsed, .source single input hdue, ?_, hpieces, ?_,
        htakes.whole, fun piece more hrest => ?_, fun hmode stdout' => ?_⟩
      · rwa [Options.destination?, if_neg single]
      · rwa [Options.Received, if_neg single]
      · exact ⟨.inl (htokens (by simp [hrest])), htakes.refused piece more hrest⟩
      · rw [sessionIn_of_read parsed single input]
        exact halways (hmode.resolve_right single) stdout'

-- A disk with a device that takes nothing.
def scrap : Files.Disk where
  root := .directory
    [("dev".toList, .directory [("full".toList, .file [])]),
      ("home".toList, .directory [("a.pl0".toList, .file (encode "begin print(7); end").toList)])]
  home := ["home".toList]
  rules :=
    { room := fun _ place => if place = ["dev".toList, "full".toList] then { capacity := some 0 } else {} }

theorem success_delivers_output_scrap :
    let stdout : Writer := { allowance := .bytes 2 }
    let ended := sessionIn Suite.ofYaml scrap ["-r", "a.pl0"] stdout
    ended.1.status = 0 ∧
    ∃ o pieces, Options.parse ["-r", "a.pl0"] = .ok o ∧ o.Owes Suite.ofYaml scrap pieces ∧
      o.Received stdout ended (encode (String.join pieces)).toList := by
  intro stdout ended
  have hstatus : ended.1.status = 0 := by decide +kernel
  obtain ⟨o, pieces, taken, rest, cut, out, hparse, howes, _, rfl, hreceived, hwhole, hrefused, _⟩ :=
    success_delivers_output Suite.ofYaml hstatus
  have hmode : o.mode = .run := by
    have hparse' : Options.parse ["-r", "a.pl0"] = .ok { input := "a.pl0" } := by decide
    cases hparse.symm.trans hparse'
    rfl
  cases rest with
  | cons piece more => rcases (hrefused piece more rfl).1 with h | h <;> cases hmode.symm.trans h
  | nil =>
      rw [hwhole rfl, List.append_nil] at hreceived
      exact ⟨hstatus, o, _, hparse, howes, by rwa [List.append_nil]⟩

-- Tokens are put to the output without asking what became of them.
theorem lost_tokens_succeed :
    let stdout : Writer := { allowance := .bytes 0 }
    let printed := sessionIn Suite.ofYaml scrap ["-t", "a.pl0"] stdout
    let stored := sessionIn Suite.ofYaml scrap ["-t", "-o", "/dev/full", "a.pl0"] {}
    (printed.1.status = 0 ∧ printed.1.stderr = [] ∧
      ∃ o pieces, Options.parse ["-t", "a.pl0"] = .ok o ∧ o.Owes Suite.ofYaml scrap pieces ∧
        ¬ o.Received stdout printed (encode (String.join pieces)).toList) ∧
    (stored.1.status = 0 ∧ stored.1.stderr = [] ∧
      ∃ o pieces, Options.parse ["-t", "-o", "/dev/full", "a.pl0"] = .ok o ∧
        o.Owes Suite.ofYaml scrap pieces ∧
        ¬ o.Received {} stored (encode (String.join pieces)).toList) := by
  intro stdout printed stored
  have hprinted : Options.parse ["-t", "a.pl0"] = .ok { mode := .tokens, input := "a.pl0" } := by decide
  have hstored : Options.parse ["-t", "-o", "/dev/full", "a.pl0"] =
      .ok { mode := .tokens, output := "/dev/full", input := "a.pl0" } := by decide
  have hread : scrap.read "a.pl0" = .ok (encode "begin print(7); end").toList := rfl
  have hlex : (lex (Text.Utf8.decode (encode "begin print(7); end").toList)).2 = none := by
    decide +kernel
  refine ⟨⟨by decide +kernel, by decide +kernel, _, _, hprinted,
    .source (by decide) hread (.tokens rfl (Prod.ext rfl hlex)), ?_⟩, by decide +kernel, by decide +kernel,
    _, _, hstored, .source (by decide) hread (.tokens rfl (Prod.ext rfl hlex)), ?_⟩
  · change printed.1.stdout.bytes ≠ _
    decide +kernel
  · change stored.2.read "/dev/full" ≠ _
    decide +kernel

end PlZero.Command
