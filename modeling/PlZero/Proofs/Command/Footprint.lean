import PlZero.Proofs.Command.Arguments
import PlZero.Proofs.Command.Delivery

namespace PlZero.Command

theorem reportRun_status_ne (code : Array Instruction) (trace : Bool) (out : Writer) :
    (reportRun code trace out).status ≠ 2 := by
  unfold reportRun
  dsimp only
  split <;> simp

theorem report_status_ne (mode : Mode) (trace : Bool) (source : List UInt8) (out : Writer) :
    (report mode trace source out).status ≠ 2 := by
  cases mode with
  | tokens =>
      simp only [report, reportTokens]
      split <;> simp
  | assembly =>
      simp only [report]
      split
      · simp
      · exact reportRun_status_ne _ trace out
  | listing =>
      cases hcompile : (compile (Text.Utf8.decode source)).1 with
      | error e => simp [report_error hcompile (.inl rfl)]
      | ok code =>
          rw [report_listing hcompile]
          obtain ⟨_, _, hreport⟩ | ⟨_, _, _, _, hreport⟩ := reportListing_cases code out
          · simp [hreport]
          · simp [hreport]
  | run | suites =>
      simp only [report]
      split
      · simp
      · exact reportRun_status_ne _ trace out

theorem reportCases_status_ne (cases : List Suite.Case) (stdout : Writer) :
    (reportCases cases stdout).status ≠ 2 := by
  rw [reportCases_eq]
  dsimp only
  split <;> simp

section

variable {decode : Suite.Decoder} {d : Files.Disk} {o : Options} {source : List UInt8} {stdout out : Writer}

theorem checkIn_status_ne : (checkIn decode d o stdout).1.status ≠ 2 := by
  rw [checkIn_eq]
  cases loadedIn decode d o.input with
  | error e => simp
  | ok cases => exact reportCases_status_ne cases stdout

theorem workIn_status_ne : (workIn d o source stdout).1.status ≠ 2 := by
  cases hout : o.channel? d stdout with
  | none =>
      obtain ⟨stderr, hwork⟩ := workIn_of_no_channel hout source
      simp [hwork]
  | some out =>
      obtain ⟨d', _, hwork⟩ := workIn_of_channel hout rfl
      rw [hwork]
      exact report_status_ne _ _ _ _

-- Only a program that was run and met a fault leaves a machine behind.
theorem exists_fault_of_stopped (hmode : o.mode ≠ .suites)
    (h : (report o.mode o.trace source out).stopped ≠ none) :
    ∃ code e, o.program? source = some code ∧ (o.execution out code).run.1 = some e := by
  by_contra hno
  have hdone : ∀ code, o.program? source = some code → (o.execution out code).run.1 = none := by
    intro code hcode
    cases hrun : (o.execution out code).run.1 with
    | none => rfl
    | some e => exact absurd ⟨code, e, hcode, hrun⟩ hno
  apply h
  cases hcase : o.mode with
  | suites => exact absurd hcase hmode
  | run | assembly =>
      rw [← hcase]
      exact stopped_report (by simp [hcase]) hdone
  | tokens =>
      simp only [report, reportTokens]
      split <;> rfl
  | listing =>
      cases hcompile : (compile (Text.Utf8.decode source)).1 with
      | error e => rw [report_error hcompile (.inl rfl)]
      | ok code =>
          rw [report_listing hcompile]
          obtain ⟨_, _, hreport⟩ | ⟨_, _, _, _, hreport⟩ := reportListing_cases code out
          · rw [hreport]
          · rw [hreport]

theorem workIn_faulted {place : List (List Char)} (hmode : o.mode ≠ .suites)
    (h : (workIn d o source stdout).2.view place ≠ d.view place)
    (houtput : d.target o.output.toList ≠ .ok place) :
    ∃ out code e, o.channel? d stdout = some out ∧ o.program? source = some code ∧
      (o.execution out code).run.1 = some e := by
  by_contra hno
  refine h (workIn_silent (fun out hout => ?_) houtput)
  by_contra hstopped
  obtain ⟨code, e, hcode, hfault⟩ := exists_fault_of_stopped hmode hstopped
  exact hno ⟨out, code, e, hout, hcode, hfault⟩

theorem workIn_frame (d : Files.Disk) (o : Options) (source : List UInt8) (stdout : Writer) :
    (workIn d o source stdout).2.home = d.home ∧ (workIn d o source stdout).2.rules = d.rules ∧
    ∀ place, (workIn d o source stdout).2.view place ≠ d.view place →
      d.target o.output.toList = .ok place ∨ d.target o.snapshot.toList = .ok place := by
  cases hout : o.channel? d stdout with
  | none =>
      obtain ⟨stderr, hwork⟩ := workIn_of_no_channel hout source
      simp [hwork]
  | some out =>
      obtain ⟨d', houtputs, hwork⟩ := workIn_of_channel hout rfl
      obtain ⟨hhome, hrules⟩ := houtputs.home_rules
      rw [hwork]
      rcases keepIn_cases d' o (report o.mode o.trace source out) with
        hsame | ⟨kept, saved, hkept, hwritten⟩
      · rw [hsame]
        refine ⟨hhome, hrules, fun place h => .inl ?_⟩
        by_contra hplace
        exact h (houtputs.view hplace)
      · refine ⟨hwritten.home.trans hhome, hwritten.rules.trans hrules, fun place h => ?_⟩
        by_cases hplace : place = kept
        · subst hplace
          exact .inr (houtputs.of_target hkept)
        · left
          by_contra houtput
          exact h ((hwritten.other hplace).trans (houtputs.view houtput))

theorem workIn_refused {e : Files.Cause} (hnamed : o.output ≠ "")
    (h : d.target o.output.toList = .error e) : (workIn d o source stdout).2 = d := by
  have hnone : o.channel? d stdout = none := by
    rw [Options.channel?, if_neg hnamed, h]
    rfl
  obtain ⟨stderr, hwork⟩ := workIn_of_no_channel hnone source
  rw [hwork]

end

section

variable (decode : Suite.Decoder) (d : Files.Disk) (args : List String) (stdout : Writer)

theorem status_eq_two_iff :
    (sessionIn decode d args stdout).1.status = 2 ↔ ∃ e, Options.parse args = .error e := by
  have hgoes := goes_sessionIn decode d args stdout
  generalize sessionIn decode d args stdout = ended at hgoes
  cases hgoes with
  | refused parsed => simp [parsed]
  | checked parsed => simp [parsed, checkIn_status_ne]
  | unread parsed => simp [parsed]
  | worked parsed => simp [parsed, workIn_status_ne]

theorem untouched_or_worked :
    (sessionIn decode d args stdout).2 = d ∨
      ∃ o source, Options.parse args = .ok o ∧ o.mode ≠ .suites ∧ d.read o.input = .ok source ∧
        sessionIn decode d args stdout = workIn d o source stdout := by
  have hgoes := goes_sessionIn decode d args stdout
  generalize sessionIn decode d args stdout = ended at hgoes
  cases hgoes with
  | refused => exact .inl rfl
  | checked parsed => exact .inl (by rw [checkIn_eq])
  | unread => exact .inl rfl
  | worked parsed single input => exact .inr ⟨_, _, parsed, single, input, rfl⟩

end

theorem session_footprint (decode : Suite.Decoder) (d : Files.Disk) (args : List String) (stdout : Writer) :
    let ended := sessionIn decode d args stdout
    (ended.1.status = 2 ↔
      (¬ ∃ switches inputs, Splits args switches inputs) ∨
      ∃ switches inputs, Splits args switches inputs ∧
        ((∃ s ∈ switches, s.letter = 'j' ∧ ¬ JobCount s.value) ∨ 1 < (modesOf switches).length ∨
          inputs.length ≠ 1)) ∧
    (ended.1.status = 2 → ended.2 = d) ∧
    ended.2.home = d.home ∧ ended.2.rules = d.rules ∧
    ∀ switches input, Splits args switches [input] →
      let output := lastValue 'o' switches
      let snapshot := lastValue 's' switches
      (∀ place, ended.2.view place ≠ d.view place →
        d.target output.toList = .ok place ∨ d.target snapshot.toList = .ok place) ∧
      (∀ e, d.read input = .error e → ended.2 = d) ∧
      (.suites ∈ modesOf switches → ended.2 = d) ∧
      (output ≠ "" → ∀ e, d.target output.toList = .error e → ended.2 = d) ∧
      ∀ place, ended.2.view place ≠ d.view place → d.target output.toList ≠ .ok place →
        ∃ o source out code e, Options.parse args = .ok o ∧ d.read input = .ok source ∧
          o.channel? d stdout = some out ∧ o.program? source = some code ∧
          (o.execution out code).run.1 = some e := by
  intro ended
  have hstatus := status_eq_two_iff decode d args stdout
  rcases untouched_or_worked decode d args stdout with hsame | ⟨o, source, hparse, hsingle, hread, hwork⟩
  · have hsame : ended.2 = d := hsame
    refine ⟨hstatus.trans (parse_isError_iff args), ?_⟩
    simp [hsame]
  · have hended : ended = workIn d o source stdout := hwork
    obtain ⟨hhome, hrules, hframe⟩ := workIn_frame d o source stdout
    refine ⟨hstatus.trans (parse_isError_iff args), fun htwo => ?_, by rwa [hended], by rwa [hended],
      fun switches input hsplits => ?_⟩
    · obtain ⟨e, he⟩ := hstatus.mp htwo
      cases he.symm.trans hparse
    · intro output snapshot
      obtain ⟨switches', hsplits', houtput, hsnapshot, hmode⟩ := Options.of_parse hparse
      obtain ⟨rfl, hinput⟩ := hsplits.unique hsplits'
      obtain rfl : input = o.input := (List.singleton_inj.mp hinput).symm
      simp only [output, snapshot, ← houtput, ← hsnapshot, hended]
      refine ⟨hframe, fun e he => ?_, fun hsuites => ?_, fun hnamed e => workIn_refused hnamed,
        fun place hplace houtside => ?_⟩
      · cases he.symm.trans hread
      · exact absurd (hmode _ hsuites) hsingle
      · obtain ⟨out, code, e, hout, hcode, hfault⟩ := workIn_faulted hsingle hplace houtside
        exact ⟨o, source, out, code, e, hparse, hread, hout, hcode, hfault⟩

-- A count past the range of a word is refused, and a snapshot path that is also the output is written
-- whether or not anything was run.
theorem wide_count_and_shared_path :
    (∃ count, Splits ["-t", "-j", "9223372036854775808", "a.pl0"] [⟨'t', ""⟩, ⟨'j', count⟩] ["a.pl0"] ∧
      Text.Numeral count.toList 0x8000000000000000 ∧
      (sessionIn Suite.ofYaml scrap ["-t", "-j", "9223372036854775808", "a.pl0"] {}).1.status = 2) ∧
    (Splits ["-t", "-o", "out", "-s", "out", "a.pl0"] [⟨'t', ""⟩, ⟨'o', "out"⟩, ⟨'s', "out"⟩] ["a.pl0"] ∧
      (sessionIn Suite.ofYaml scrap ["-t", "-o", "out", "-s", "out", "a.pl0"] {}).2.view
        ["home".toList, "out".toList] ≠ scrap.view ["home".toList, "out".toList] ∧
      ∀ o source, Options.parse ["-t", "-o", "out", "-s", "out", "a.pl0"] = .ok o →
        o.program? source = none) := by
  refine ⟨⟨"9223372036854775808", split_eq_ok_iff.mp (by decide), ?_, by decide +kernel⟩,
    split_eq_ok_iff.mp (by decide), by decide +kernel, fun o source hparse => ?_⟩
  · exact .unsigned ⟨by decide, List.all_eq_true.mp (by decide), by decide⟩
  · have hparse' : Options.parse ["-t", "-o", "out", "-s", "out", "a.pl0"] =
        .ok { mode := .tokens, output := "out", snapshot := "out", input := "a.pl0" } := by decide
    cases hparse.symm.trans hparse'
    rfl

end PlZero.Command
