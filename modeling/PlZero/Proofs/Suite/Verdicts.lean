import PlZero.Proofs.Compilation.Correctness
import PlZero.Proofs.Machine.Faults
import PlZero.Suite.Verdict

namespace PlZero

theorem ErrorCode.head?_name_other (code : Int) : (ErrorCode.other code).name.toList.head? = some 'E' := by
  have hname : (ErrorCode.other code).name = "ErrorCode(" ++ toString code ++ ")" := rfl
  rw [hname, String.toList_append, String.toList_append]
  rfl

-- A fault without a short name has the empty one, so this also says that no code has the empty name.
theorem ErrorCode.name_ne_faultName (c : ErrorCode) (f : Fault) : c.name ≠ f.name := by
  cases c with
  | other code =>
      intro h
      have hhead := head?_name_other code
      rw [h] at hhead
      cases f <;> cases hhead
  | _ => cases f <;> simp [name, Fault.name, Fault.name?]

theorem ErrorCode.ofName?_faultName (f : Fault) : ErrorCode.ofName? f.name = none := by
  rw [ofName?, List.find?_eq_none]
  intro c _
  simpa using c.name_ne_faultName f

-- Only a sink can refuse a value, and such a fault has no name.
theorem Instruction.name_of_execute_error {i : Instruction} {s : Stack} {f : Fault}
    (h : i.execute s = .error f) : f.name ≠ "" := by
  have houtcome := i.outcome s fun _ => .ok ()
  rw [h] at houtcome
  cases houtcome with
  | fail _ why =>
      cases (why f).mpr rfl with
      | refuse _ _ _ _ refused => cases refused
      | _ => decide

namespace Suite

def recorder : Console := { sink := some (.recorder #[]) }

theorem sink_recorder : recorder.sink = some (.recorder #[]) := rfl

-- A new machine whose values are recorded, run to its end.
def recorded (program : Array Instruction) : Option RuntimeError × Execution :=
  (Execution.start program recorder).run

-- The name of what ended a run, which is empty after a run that came to its end.
def endName : Option RuntimeError → String
  | none => ""
  | some e => e.fault.name

structure Expectation.MeetsError (x : Expectation) (e : CompileError) : Prop where
  error : x.error = e.cause.code.name
  line : x.line = 0 ∨ x.line = e.position.line + 1
  column : x.column = 0 ∨ x.column = e.position.column + 1

structure Expectation.MeetsRun (x : Expectation) (program : Array Instruction) : Prop where
  listing : x.listing = none ∨ x.listing = some (PlZero.listing program)
  output : (recorded program).2.console.sink = some (.recorder x.output.toArray)
  error : x.error = endName (recorded program).1

theorem recorded_spec (program : Array Instruction) :
    ∃ values : List Int32, (recorded program).2.console.sink = some (.recorder values.toArray) ∧
      execute program = ((recorded program).1, values) ∧
      ∀ e, (recorded program).1 = some e → e.fault.name ≠ "" := by
  obtain ⟨r, _, hsink, hended⟩ := Execution.run_start program sink_recorder
  refine ⟨r.written, hsink, ?_, fun e he => ?_⟩
  · change (_, (((recorded program).2.console.sink.map Sink.values).getD #[]).toList) = _
    rw [recorded, hsink]
    rfl
  · rcases hended with ⟨hnone, _⟩ | ⟨done, i, more, f, _, _, hi, hsome⟩
    · cases hnone.symm.trans he
    · cases hsome.symm.trans he
      exact Instruction.name_of_execute_error hi

theorem execute_of_follow {program : Array Instruction} {r : Trail}
    (h : Trail.follow {} program.toList = .ok r) : execute program = (none, r.written) := by
  obtain ⟨values, hsink, hexecute, _⟩ := recorded_spec program
  obtain ⟨r', _, hsink', ⟨hnone, hr'⟩ | ⟨done, i, more, f, hcode, hdone, hi, _⟩⟩ :=
    Execution.run_start program sink_recorder
  · cases h.symm.trans hr'
    have hvalues : values.toArray = r.written.toArray := by
      simpa using hsink.symm.trans hsink'
    rw [hexecute, show (recorded program).1 = none from hnone, List.toArray_inj hvalues]
  · rw [hcode, Trail.follow_append_of_ok hdone, Trail.follow_cons, Trail.step_of_error hi] at h
    cases h

namespace Expectation

variable {x : Expectation}

theorem checkCompileError_eq_none_iff {e : CompileError} :
    x.checkCompileError e = none ↔ x.MeetsError e := by
  have hne : e.cause.code.name ≠ "" := e.cause.code.name_ne_faultName (.writeFailed "")
  constructor
  · intro h
    unfold checkCompileError at h
    split at h
    · cases h
    · split at h
      · cases h
      · next hname =>
          split at h
          · cases h
          · next hline =>
              split at h
              · cases h
              · next hcolumn =>
                  exact ⟨(not_not.mp hname).symm, by omega, by omega⟩
  · rintro ⟨herror, hline, hcolumn⟩
    rw [checkCompileError, if_neg (herror ▸ hne), if_neg (by simp [herror]), if_neg (by omega),
      if_neg (by omega)]

theorem checkProgram_eq_none_iff {program : Array Instruction} :
    x.checkProgram program = none ↔ ErrorCode.ofName? x.error = none ∧
      (x.listing = none ∨ x.listing = some (PlZero.listing program)) := by
  unfold checkProgram
  cases hcode : ErrorCode.ofName? x.error with
  | some c => simp
  | none =>
      cases hlisting : x.listing with
      | none => simp
      | some expected => simp [eq_comm]

theorem checkRun_eq_none_iff {ended : Option RuntimeError} {output : List Int32}
    (hnamed : ∀ e, ended = some e → e.fault.name ≠ "") :
    x.checkRun ended output = none ↔ x.error = endName ended ∧ output = x.output := by
  cases ended with
  | none =>
      simp only [checkRun, endName]
      by_cases herror : x.error = "" <;> simp [herror]
  | some e =>
      have hne := hnamed e rfl
      have hname : e.fault.name?.getD "" = e.fault.name := rfl
      simp only [checkRun, endName, hname]
      by_cases herror : x.error = e.fault.name
      · simp [herror, hne]
      · by_cases hempty : x.error = ""
        · simp [hempty, Ne.symm hne]
        · simp [hempty, herror, Ne.symm herror]

end Expectation

-- Stack safety: what compiles can fail only by a division.
theorem endName_of_compile {source : List Char} {program : Array Instruction}
    (h : (compile source).1 = .ok program) (hsize : (compile source).2.size ≤ 0x80000000) :
    endName (recorded program).1 ∈ ["", "DivisionByZero"] := by
  obtain ⟨P, hlex, hlawful, hcode, _⟩ := program_of_compile h
  have hnames : P.names.length ≤ 0x80000000 := size_compile hlex hlawful ▸ hsize
  obtain rfl : P.code.toArray = program := by rw [← hcode]
  rcases P.run_none_or_division hlawful hnames sink_recorder with hrun | ⟨k, hrun⟩
  · rw [recorded, hrun]
    decide
  · rw [recorded, hrun]
    simp [endName, Fault.name, Fault.name?]

namespace Case

variable {c : Case}

theorem exactly_one (c : Case) :
    c.verdict.skipped.toNat + c.verdict.passed.toNat + c.verdict.discrepancy.isSome.toNat = 1 := by
  unfold verdict
  split
  · rfl
  · split
    · next error _ => cases c.expect.checkCompileError error <;> rfl
    · next program _ =>
        split
        · rfl
        · dsimp only
          cases c.expect.checkRun (execute program).1 (execute program).2 <;> rfl

theorem skipped_verdict (c : Case) : c.verdict.skipped = c.skip.reason?.isSome := by
  unfold verdict
  split
  · next hskip => rw [hskip]; rfl
  · next hskip =>
      rw [hskip]
      split
      · rfl
      · split <;> rfl

theorem skipped_of_passed (h : c.verdict.passed = true) : c.verdict.skipped = false := by
  have hone := c.exactly_one
  rw [h, Bool.toNat_true] at hone
  rw [← Bool.toNat_eq_zero]
  omega

theorem passed_of_error (hskip : c.skip.reason? = none) {e : CompileError}
    (h : (compile c.source).1 = .error e) : c.verdict.passed = true ↔ c.expect.MeetsError e := by
  rw [← Expectation.checkCompileError_eq_none_iff, verdict, hskip, h]
  exact Option.isNone_iff_eq_none

theorem passed_of_ok (hskip : c.skip.reason? = none) {program : Array Instruction}
    (h : (compile c.source).1 = .ok program) : c.verdict.passed = true ↔ c.expect.MeetsRun program := by
  obtain ⟨values, hsink, hexecute, hnamed⟩ := recorded_spec program
  have hcode : c.expect.error = endName (recorded program).1 → ErrorCode.ofName? c.expect.error = none := by
    intro herror
    rw [herror]
    cases (recorded program).1 with
    | none => exact ErrorCode.ofName?_faultName (.writeFailed "")
    | some e => exact ErrorCode.ofName?_faultName e.fault
  have hpass : c.verdict.passed = true ↔ c.expect.checkProgram program = none ∧
      c.expect.checkRun (recorded program).1 values = none := by
    rw [verdict, hskip, h]
    simp only [hexecute]
    cases c.expect.checkProgram program with
    | some d => simp
    | none => simp
  rw [hpass, Expectation.checkProgram_eq_none_iff, Expectation.checkRun_eq_none_iff hnamed]
  constructor
  · rintro ⟨⟨_, hlisting⟩, herror, rfl⟩
    exact ⟨hlisting, hsink, herror⟩
  · rintro ⟨hlisting, houtput, herror⟩
    rw [hsink] at houtput
    exact ⟨⟨hcode herror, hlisting⟩, herror, by simpa using houtput⟩

theorem passed_false_of_stackFault (hsize : (compile c.source).2.size ≤ 0x80000000)
    (herror : c.expect.error ∈ ["StackUnderflow", "IndexOutOfRange", "IllegalInstruction"]) :
    c.verdict.passed = false := by
  obtain ⟨f, hf, hname⟩ :
      ∃ f ∈ [Fault.stackUnderflow, .indexOutOfRange, .illegalInstruction], f.name = c.expect.error :=
    List.mem_map.mp herror
  rw [← Bool.not_eq_true]
  intro hpass
  have hskip : c.skip.reason? = none := by
    simpa [c.skipped_verdict] using skipped_of_passed hpass
  cases hcompile : (compile c.source).1 with
  | error e =>
      have hmeets := (passed_of_error hskip hcompile).mp hpass
      exact e.cause.code.name_ne_faultName f (hmeets.error.symm.trans hname.symm)
  | ok program =>
      have hmeets := (passed_of_ok hskip hcompile).mp hpass
      have hend := endName_of_compile hcompile hsize
      rw [← hmeets.error, ← hname] at hend
      have hsafe : ∀ f ∈ [Fault.stackUnderflow, .indexOutOfRange, .illegalInstruction],
          f.name ∉ ["", "DivisionByZero"] := by decide
      exact hsafe f hf hend

end Case

theorem verdict_is_agreement (c : Case) :
    let v := c.verdict
    v.skipped.toNat + v.passed.toNat + v.discrepancy.isSome.toNat = 1 ∧
    (v.skipped = true ↔ c.skip = .flag true ∨ ∃ reason, c.skip = .reason reason) ∧
    (v.skipped = false →
      (∀ e, (compile c.source).1 = .error e → (v.passed = true ↔ c.expect.MeetsError e)) ∧
      ∀ program, (compile c.source).1 = .ok program → (v.passed = true ↔ c.expect.MeetsRun program)) ∧
    ((compile c.source).2.size ≤ 0x80000000 →
      c.expect.error ∈ ["StackUnderflow", "IndexOutOfRange", "IllegalInstruction"] → v.passed = false) := by
  intro v
  have hskip : v.skipped = c.skip.reason?.isSome := c.skipped_verdict
  refine ⟨c.exactly_one, ?_, fun hv => ?_, Case.passed_false_of_stackFault⟩
  · rw [hskip]
    cases c.skip with
    | flag b => cases b <;> simp [SkipMark.reason?]
    | _ => simp [SkipMark.reason?]
  · have hreason : c.skip.reason? = none := by simpa [hv] using hskip
    exact ⟨fun e => Case.passed_of_error hreason, fun program => Case.passed_of_ok hreason⟩

end Suite

end PlZero
