import PlZero.Proofs.Command.Listing
import PlZero.Proofs.Compilation.Length
import PlZero.Proofs.Machine.Accounting
import PlZero.Proofs.Machine.Faults
import PlZero.Proofs.Snapshot.Size

namespace PlZero

namespace Command

open Text.Utf8 (encode)

-- The program that is run, if the input is one.
def Options.program? (o : Options) (source : List UInt8) : Option (Array Instruction) :=
  match o.mode with
  | .run => (compile (Text.Utf8.decode source)).1.toOption
  | .assembly => (assemble (Text.Utf8.decode source)).toOption
  | _ => none

-- The machine before its first step, attached to the channels of the session.
def Options.execution (o : Options) (out : Writer) (code : Array Instruction) : Execution :=
  .start code { sink := some (.lines out), trace := if o.trace then some "" else none }

variable {d : Files.Disk} {o : Options} {source : List UInt8} {code : Array Instruction}
  {stdout out : Writer}

theorem Options.program?_cases (h : o.program? source = some code) :
    o.mode = .run ∧ (compile (Text.Utf8.decode source)).1 = .ok code ∨
      o.mode = .assembly ∧ assemble (Text.Utf8.decode source) = .ok code := by
  unfold program? at h
  split at h
  · next hmode => exact .inl ⟨hmode, eq_ok_of_toOption h⟩
  · next hmode => exact .inr ⟨hmode, eq_ok_of_toOption h⟩
  · cases h

theorem isKnown_of_program (h : o.program? source = some code) : ∀ i ∈ code, i.op.isKnown = true := by
  rcases Options.program?_cases h with ⟨_, hcode⟩ | ⟨_, hcode⟩
  · exact isKnown_of_map_canonical (compile_canonical hcode)
  · exact isKnown_of_map_canonical (assemble_canonical hcode)

theorem size_of_program (h : o.program? source = some code) : code.size ≤ 2 * (source.length + 1) := by
  have hlength := Text.Utf8.length_decode_le source
  rcases Options.program?_cases h with ⟨_, hcode⟩ | ⟨_, hcode⟩
  · have hsize := length_compile_le hcode
    omega
  · have hsize := length_assemble_le hcode
    omega

theorem report_program (h : o.program? source = some code) (out : Writer) :
    report o.mode o.trace source out = reportRun code o.trace out := by
  rcases Options.program?_cases h with ⟨hmode, hcode⟩ | ⟨hmode, hcode⟩
  · rw [hmode, report_run hcode]
  · rw [hmode, report_assembly hcode]

theorem reportRun_fault {e : RuntimeError} (h : (o.execution out code).run.1 = some e) :
    ∃ out', reportRun code o.trace out =
      ⟨1, out', (encode ((o.execution out code).run.2.console.trace.getD "" ++ "runtime error: " ++ e.render ++
        "\n")).toList, some (o.execution out code).run.2.machine⟩ := by
  unfold Options.execution Execution.start at h ⊢
  simp only [reportRun, h]
  exact ⟨_, rfl⟩

theorem reportRun_done (h : (o.execution out code).run.1 = none) :
    ∃ out', reportRun code o.trace out =
      ⟨0, out', (encode ((o.execution out code).run.2.console.trace.getD "")).toList, none⟩ := by
  unfold Options.execution Execution.start at h ⊢
  simp only [reportRun, h]
  exact ⟨_, rfl⟩

theorem report_no_program (hmode : o.mode = .run ∨ o.mode = .assembly) (h : o.program? source = none)
    (out : Writer) : ∃ stderr, report o.mode o.trace source out = ⟨1, out, stderr, none⟩ := by
  rcases hmode with hmode | hmode
  · cases hcompile : (compile (Text.Utf8.decode source)).1 with
    | error e =>
        rw [report_error hcompile (.inr hmode)]
        exact ⟨_, rfl⟩
    | ok code => simp [Options.program?, hmode, hcompile, Except.toOption] at h
  · cases hassemble : assemble (Text.Utf8.decode source) with
    | error e =>
        simp only [hmode, report, hassemble]
        exact ⟨_, rfl⟩
    | ok code => simp [Options.program?, hmode, hassemble, Except.toOption] at h

theorem stopped_report (hmode : o.mode = .run ∨ o.mode = .assembly)
    (h : ∀ code, o.program? source = some code → (o.execution out code).run.1 = none) :
    (report o.mode o.trace source out).stopped = none := by
  cases hprogram : o.program? source with
  | some code =>
      obtain ⟨_, hrun⟩ := reportRun_done (h code hprogram)
      rw [report_program hprogram, hrun]
  | none =>
      obtain ⟨stderr, hreport⟩ := report_no_program hmode hprogram out
      rw [hreport]

-- The machine of a program is far from filling an archive, since its stack is no longer than its code.
theorem fits_of_booked {k : Nat} {m : Machine} (h : Execution.Booked code k m)
    (hsize : code.size < Nat.pow 2 53) : Snapshot.Fits m := by
  have hstack := h.size_le
  have hinside := h.inside
  apply Snapshot.fits_of_size
  · rw [h.place]
    exact Int.natCast_nonneg k
  · rw [h.place, h.program]
    exact Int.ofNat_le.mpr hinside
  · rw [h.program]
    have hdouble : Nat.pow 2 54 = 2 * Nat.pow 2 53 := by decide
    omega

theorem fault_restored {e : RuntimeError} (hprogram : o.program? source = some code)
    (hsize : source.length < Nat.pow 2 50) (hfault : (o.execution out code).run.1 = some e) :
    let m := (o.execution out code).run.2.machine
    ∃ k : Nat, e.ip = k ∧ Snapshot.restore (Snapshot.save m) = .ok m ∧ m.program = code ∧ m.halted = true ∧
      m.ip = k ∧ m.executed.toNat = k ∧ code[k]? = some e.instruction ∧
      ∃ written, Trail.follow {} (code.toList.take k) = .ok ⟨m.stack, written⟩ := by
  intro m
  obtain ⟨k, hbooked, hip, hinstruction, hfollow⟩ := Execution.run_fault hfault
  have hknown : ∀ i ∈ m.program, i.op.isKnown = true := by
    rw [show m.program = code from hbooked.program]
    exact isKnown_of_program hprogram
  have hcode : code.size < Nat.pow 2 53 := by
    have hcode := size_of_program hprogram
    have hpow : Nat.pow 2 50 = 1125899906842624 := by decide
    have hpow' : Nat.pow 2 53 = 9007199254740992 := by decide
    omega
  have hexecuted : m.executed.toNat = k := by
    have hk : k < UInt64.size := Nat.lt_trans (Nat.lt_of_le_of_lt hbooked.inside hcode) (by decide)
    rw [show m.executed = UInt64.ofNat k from hbooked.executed]
    exact UInt64.toNat_ofNat_of_lt hk
  exact ⟨k, hip, Snapshot.restore_save_known (fits_of_booked hbooked hcode) hknown, hbooked.program,
    Execution.run_halted _, hbooked.place, hexecuted, hinstruction, hfollow⟩

theorem workIn_fault {e : RuntimeError} (hprogram : o.program? source = some code)
    (hout : o.channel? d stdout = some out) (hfault : (o.execution out code).run.1 = some e)
    (hwanted : o.snapshot ≠ "") {place : List (List Char)} (hplace : d.target o.snapshot.toList = .ok place)
    (hroom : ∀ root, (d.rules.room root place).capacity = none) :
    (workIn d o source stdout).1.status = 1 ∧
    (workIn d o source stdout).1.stderr =
      (encode ((o.execution out code).run.2.console.trace.getD "" ++ "runtime error: " ++ e.render ++
        "\n")).toList ++ (encode ("snapshot written to " ++ o.snapshot ++ "\n")).toList ∧
    (workIn d o source stdout).2.read o.snapshot =
      .ok (Snapshot.save (o.execution out code).run.2.machine) := by
  obtain ⟨out', hrun⟩ := reportRun_fault hfault
  obtain ⟨d', houtputs, hwork⟩ := workIn_of_channel hout ((report_program hprogram _).trans hrun)
  have hplace' := houtputs.target hplace
  have hroom' : (d'.room place).capacity = none := by
    rw [Files.Disk.room, houtputs.home_rules.2]
    exact hroom d'.root
  rw [hwork, keepIn_of_stopped rfl hwanted, Files.Disk.write_of_room hplace' hroom']
  exact ⟨rfl, rfl, (Files.Disk.written_put hplace' _).read hplace'⟩

theorem workIn_silent
    (h : ∀ out, o.channel? d stdout = some out → (report o.mode o.trace source out).stopped = none)
    {place : List (List Char)} (hplace : d.target o.output.toList ≠ .ok place) :
    (workIn d o source stdout).2.view place = d.view place := by
  cases hout : o.channel? d stdout with
  | none =>
      obtain ⟨stderr, hwork⟩ := workIn_of_no_channel hout source
      rw [hwork]
  | some out =>
      obtain ⟨d', houtputs, hwork⟩ := workIn_of_channel hout rfl
      rw [hwork, keepIn_of_running (h out hout)]
      exact houtputs.view hplace

-- The bound keeps the archive below the largest offset that it can name; a file of that size is beyond
-- what fits a memory.
theorem fault_snapshot_exact (decode : Suite.Decoder) {args : List String}
    (hparse : Options.parse args = .ok o) (hmode : o.mode = .run ∨ o.mode = .assembly)
    (hwanted : o.snapshot ≠ "") (hread : d.read o.input = .ok source) (stdout : Writer) :
    let ended := sessionIn decode d args stdout
    (∀ out code e place, o.channel? d stdout = some out → o.program? source = some code →
      (o.execution out code).run.1 = some e → source.length < Nat.pow 2 50 →
      d.target o.snapshot.toList = .ok place → (∀ root, (d.rules.room root place).capacity = none) →
      ∃ (k : Nat) (saved : List UInt8) (m : Machine),
        ended.1.status = 1 ∧
        ended.1.stderr = (encode ((o.execution out code).run.2.console.trace.getD "" ++
          ("runtime error: ip " ++ toString k ++ " (" ++ e.instruction.render ++ "): " ++
            e.fault.message ++ "\n") ++ ("snapshot written to " ++ o.snapshot ++ "\n"))).toList ∧
        ended.2.read o.snapshot = .ok saved ∧ Snapshot.restore saved = .ok m ∧
        m.program = code ∧ m.halted = true ∧ m.ip = k ∧ m.executed.toNat = k ∧
        code[k]? = some e.instruction ∧
        ∃ written, Trail.follow {} (code.toList.take k) = .ok ⟨m.stack, written⟩) ∧
    ((∀ out code, o.channel? d stdout = some out → o.program? source = some code →
        (o.execution out code).run.1 = none) →
      ∀ place, d.target o.output.toList ≠ .ok place → ended.2.view place = d.view place) := by
  intro ended
  have hended : ended = workIn d o source stdout :=
    sessionIn_of_read hparse (by rcases hmode with h | h <;> simp [h]) hread stdout
  rw [hended]
  constructor
  · intro out code e place hout hprogram hfault hsize hplace hroom
    obtain ⟨hstatus, hstderr, hsaved⟩ := workIn_fault hprogram hout hfault hwanted hplace hroom
    obtain ⟨k, hip, hrestore, hm⟩ := fault_restored hprogram hsize hfault
    refine ⟨k, _, _, hstatus, ?_, hsaved, hrestore, hm⟩
    have hlead : "runtime error: ip " = "runtime error: " ++ "ip " := rfl
    rw [hstderr, ← Text.Utf8.toList_encode_append, e.render_at hip, hlead]
    simp only [String.append_assoc]
  · intro h place hplace
    exact workIn_silent (fun out hout => stopped_report hmode fun code => h out code hout) hplace

theorem fault_snapshot_exact_shelf :
    let session := sessionIn Suite.ofYaml shelf
    (session ["-r", "-s", "core", "p.pl0"] {}).1.status = 1 ∧
    (∃ saved m, (session ["-r", "-s", "core", "p.pl0"] {}).2.read "core" = .ok saved ∧
      Snapshot.restore saved = .ok m ∧ m.program = Program.sample.code.toArray ∧ m.halted = true) ∧
    (session ["-s", "core", "q.pl0"] {}).2.view ["core".toList] = none := by
  intro session
  have hrun : Options.parse ["-r", "-s", "core", "p.pl0"] = .ok ⟨.run, false, "", "core", 0, "p.pl0"⟩ := by
    decide
  have hrun' : Options.parse ["-s", "core", "q.pl0"] = .ok ⟨.run, false, "", "core", 0, "q.pl0"⟩ := by decide
  have hread : shelf.read "p.pl0" = .ok (encode (String.ofList sampleText)).toList := rfl
  have hread' : shelf.read "q.pl0" = .ok [] := rfl
  have hprogram : Options.program? ⟨.run, false, "", "core", 0, "p.pl0"⟩
      (encode (String.ofList sampleText)).toList = some Program.sample.code.toArray := by
    rw [Options.program?, Text.Utf8.decode_encode, String.toList_ofList,
      compile_of_program lex_sampleText Program.lawful_sample]
    rfl
  have hbroken : Options.program? ⟨.run, false, "", "core", 0, "q.pl0"⟩ [] = none := by decide +kernel
  obtain ⟨k, saved, m, hstatus, _, hsaved, hrestore, hcode, hhalted, _⟩ :=
    (fault_snapshot_exact Suite.ofYaml hrun (.inl rfl) (by decide) hread {}).1 {} _ ⟨.divisionByZero, 8, ⟨.div, 0⟩⟩
      ["core".toList] rfl hprogram (by decide +kernel) (by decide +kernel) rfl fun _ => rfl
  have hsilent := (fault_snapshot_exact Suite.ofYaml hrun' (.inl rfl) (by decide) hread' {}).2
    (fun out code _ h => absurd (hbroken.symm.trans h) (by simp)) ["core".toList] (by decide)
  exact ⟨hstatus, ⟨saved, m, hsaved, hrestore, hcode, hhalted⟩, hsilent⟩

end Command

end PlZero
