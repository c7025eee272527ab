import Mathlib.Tactic.MkIffOfInductiveProp
import PlZero.Proofs.Console.Writing
import PlZero.Proofs.Machine.Attached

namespace PlZero

-- So many values must be on the stack.
def Opcode.needs : Opcode → Nat
  | sto | wrt => 1
  | add | sub | mul | div => 2
  | _ => 0

-- The reasons for which an instruction cannot be completed; `answer` is what a sink says to a value.
@[mk_iff] inductive Instruction.Fails (s : Stack) (answer : Int32 → Except String Unit) :
    Instruction → Fault → Prop where
  | illegal (i : Instruction) (meaningless : i.op = .ill ∨ i.op.isKnown = false) :
      Fails s answer i .illegalInstruction
  | underflow (i : Instruction) (short : s.size < i.op.needs) : Fails s answer i .stackUnderflow
  | load (x : Int32) (outside : x.toInt < 0 ∨ s.size ≤ x.toInt) :
      Fails s answer ⟨.lod, x⟩ .indexOutOfRange
  | store (x : Int32) (value : 1 ≤ s.size) (outside : x.toInt < 0 ∨ s.size - 1 ≤ x.toInt) :
      Fails s answer ⟨.sto, x⟩ .indexOutOfRange
  | divide (x : Int32) (values : 2 ≤ s.size) (zero : s.back? = some 0) :
      Fails s answer ⟨.div, x⟩ .divisionByZero
  | refuse (x v : Int32) (message : String) (top : s.back? = some v)
      (refused : answer v = .error message) : Fails s answer ⟨.wrt, x⟩ (.writeFailed message)

-- The next instruction fails, and the error tells which it is and where it stands.
structure Machine.Faults (m : Machine) (answer : Int32 → Except String Unit) (e : RuntimeError) : Prop where
  busy : m.halted = false
  place : e.ip = m.ip
  nonneg : 0 ≤ m.ip
  here : m.program[m.ip.toNat]? = some e.instruction
  why : e.instruction.Fails m.stack answer e.fault

theorem Machine.instruction?_eq_some_iff {m : Machine} {i : Instruction} :
    m.instruction? = some i ↔ 0 ≤ m.ip ∧ m.program[m.ip.toNat]? = some i := by
  unfold instruction?
  by_cases h : 0 ≤ m.ip <;> simp [h]

namespace Stack

theorem pop_cases (s : Stack) :
    s.size = 0 ∧ s.back? = none ∧ s.pop = .error .stackUnderflow ∨
      ∃ v, 1 ≤ s.size ∧ s.back? = some v ∧ s.pop = .ok (v, Array.pop s) := by
  have hback : s.back? = s[s.size - 1]? := Array.back?_eq_getElem?
  unfold pop
  cases h : s.back? with
  | none =>
      rw [h, eq_comm, Array.getElem?_eq_none_iff] at hback
      exact .inl ⟨by omega, rfl, rfl⟩
  | some v =>
      rw [h] at hback
      have hlt := (Array.getElem?_eq_some_iff.mp hback.symm).1
      exact .inr ⟨v, by omega, rfl, rfl⟩

theorem load_cases (s : Stack) (x : Int32) :
    (x.toInt < 0 ∨ s.size ≤ x.toInt) ∧ s.load x = .error .indexOutOfRange ∨
      ¬ (x.toInt < 0 ∨ s.size ≤ x.toInt) ∧ ∃ v, s.load x = .ok v := by
  unfold load
  by_cases hx : 0 ≤ x.toInt
  · rw [if_pos hx]
    cases h : s[x.toInt.toNat]? with
    | none =>
        rw [Array.getElem?_eq_none_iff] at h
        exact .inl ⟨.inr (by omega), rfl⟩
    | some v =>
        have hlt := (Array.getElem?_eq_some_iff.mp h).1
        exact .inr ⟨by omega, v, rfl⟩
  · rw [if_neg hx]
    exact .inl ⟨.inl (by omega), rfl⟩

theorem store_cases (s : Stack) (x : Int32) :
    s.size = 0 ∧ s.store x = .error .stackUnderflow ∨
      1 ≤ s.size ∧ (x.toInt < 0 ∨ s.size - 1 ≤ x.toInt) ∧ s.store x = .error .indexOutOfRange ∨
      1 ≤ s.size ∧ ¬ (x.toInt < 0 ∨ s.size - 1 ≤ x.toInt) ∧ ∃ after, s.store x = .ok after := by
  unfold store
  obtain ⟨hsize, _, hpop⟩ | ⟨v, hsize, _, hpop⟩ := s.pop_cases
  · rw [hpop]
    exact .inl ⟨hsize, rfl⟩
  · rw [hpop]
    have hbelow : ((Array.pop s).size : Int) = s.size - 1 := by
      rw [Array.size_pop]
      omega
    simp only [bind, Except.bind, hbelow]
    split
    · exact .inr (.inr ⟨hsize, by omega, _, rfl⟩)
    · exact .inr (.inl ⟨hsize, by omega, rfl⟩)

theorem combine_cases (s : Stack) (operation : Int32 → Int32 → Except Fault Int32) :
    s.size < 2 ∧ s.combine operation = .error .stackUnderflow ∨
      2 ≤ s.size ∧ ∃ a b below, s.back? = some b ∧
        s.combine operation = (operation a b).map (Array.push below) := by
  unfold combine operands
  obtain ⟨hsize, _, hpop⟩ | ⟨b, hsize, hback, hpop⟩ := s.pop_cases
  · rw [hpop]
    exact .inl ⟨by omega, rfl⟩
  · have hbelow : (Array.pop s).size = s.size - 1 := Array.size_pop
    obtain ⟨hsize', _, hpop'⟩ | ⟨a, hsize', _, hpop'⟩ := Stack.pop_cases (Array.pop s)
    · refine .inl ⟨by omega, ?_⟩
      simp only [hpop, bind, Except.bind, hpop']
    · refine .inr ⟨by omega, a, b, Array.pop (Array.pop s), hback, ?_⟩
      simp only [hpop, bind, Except.bind, hpop']
      cases operation a b <;> rfl

end Stack

-- Whether an instruction fails is decided by the stack, or by what the sink says to the top value.
inductive Instruction.Outcome (s : Stack) (answer : Int32 → Except String Unit) (i : Instruction) :
    Except Fault (Stack × Option Int32) → Prop where
  | fail (f : Fault) (why : ∀ g, i.Fails s answer g ↔ g = f) : Outcome s answer i (.error f)
  | silent (after : Stack) (never : ∀ g, ¬ i.Fails s answer g) : Outcome s answer i (.ok (after, none))
  | offer (after : Stack) (v : Int32) (top : s.back? = some v)
      (why : ∀ g, i.Fails s answer g ↔ ∃ message, answer v = .error message ∧ g = .writeFailed message) :
      Outcome s answer i (.ok (after, some v))

namespace Instruction

variable (s : Stack) (answer : Int32 → Except String Unit)

theorem outcome_operation {op : Opcode} (hop : op ∈ [.add, .sub, .mul]) (x : Int32)
    {f : Int32 → Int32 → Int32} (h : (Instruction.mk op x).execute s =
      do let s ← s.combine fun a b => .ok (f a b); .ok (s, none)) :
    Outcome s answer ⟨op, x⟩ ((Instruction.mk op x).execute s) := by
  have hfails (g : Fault) :
      Fails s answer ⟨op, x⟩ g ↔ s.size < 2 ∧ g = .stackUnderflow := by
    simp only [List.mem_cons, List.not_mem_nil, or_false] at hop
    rcases hop with rfl | rfl | rfl <;> simp [fails_iff, Opcode.isKnown, Opcode.needs]
  rw [h]
  obtain ⟨hshort, hcombine⟩ | ⟨hsize, a, b, below, _, hcombine⟩ := s.combine_cases _
  · rw [hcombine]
    exact .fail _ fun g => by simp [hfails, hshort]
  · rw [hcombine]
    exact .silent _ fun g => by simp [hfails, Nat.not_lt.mpr hsize]

theorem outcome (i : Instruction) : i.Outcome s answer (i.execute s) := by
  obtain ⟨op, x⟩ := i
  cases op with
  | lit => exact .silent _ (by simp [fails_iff, Opcode.isKnown, Opcode.needs])
  | lod =>
      obtain ⟨hout, hload⟩ | ⟨hin, v, hload⟩ := s.load_cases x
      · simp only [execute, hload]
        exact .fail _ fun g => by simp [fails_iff, Opcode.isKnown, Opcode.needs, hout]
      · simp only [execute, hload]
        exact .silent _ fun g => by simp [fails_iff, Opcode.isKnown, Opcode.needs, hin]
  | sto =>
      have hfails (g : Fault) : Fails s answer ⟨.sto, x⟩ g ↔ s.size = 0 ∧ g = .stackUnderflow ∨
          1 ≤ s.size ∧ (x.toInt < 0 ∨ s.size - 1 ≤ x.toInt) ∧ g = .indexOutOfRange := by
        simp [fails_iff, Opcode.isKnown, Opcode.needs]
      obtain ⟨hsize, hstore⟩ | ⟨hsize, hout, hstore⟩ | ⟨hsize, hin, after, hstore⟩ := s.store_cases x
      · simp only [execute, hstore]
        exact .fail _ fun g => by simp [hfails, hsize]
      · simp only [execute, hstore]
        exact .fail _ fun g => by
          simp only [hfails, hsize, hout, Nat.ne_of_gt hsize, true_and, false_and, false_or]
      · simp only [execute, hstore]
        exact .silent _ fun g => by
          simp only [hfails, hin, Nat.ne_of_gt hsize, false_and, and_false, or_false, not_false_eq_true]
  | add | sub | mul => exact outcome_operation s answer (by decide) x rfl
  | div =>
      have hfails (g : Fault) : Fails s answer ⟨.div, x⟩ g ↔ s.size < 2 ∧ g = .stackUnderflow ∨
          2 ≤ s.size ∧ s.back? = some 0 ∧ g = .divisionByZero := by
        simp [fails_iff, Opcode.isKnown, Opcode.needs]
      obtain ⟨hshort, hcombine⟩ | ⟨hsize, a, b, below, hback, hcombine⟩ := s.combine_cases divide
      · simp only [execute, hcombine]
        exact .fail _ fun g => by simp [hfails, hshort, Nat.not_le.mpr hshort]
      · simp only [execute, hcombine, divide]
        by_cases hb : b = 0
        · rw [if_pos hb]
          exact .fail _ fun g => by simp [hfails, hsize, hback, hb, Nat.not_lt.mpr hsize]
        · rw [if_neg hb]
          exact .silent _ fun g => by simp [hfails, hback, hb, Nat.not_lt.mpr hsize]
  | wrt =>
      have hfails (g : Fault) : Fails s answer ⟨.wrt, x⟩ g ↔ s.size = 0 ∧ g = .stackUnderflow ∨
          ∃ v message, s.back? = some v ∧ answer v = .error message ∧ g = .writeFailed message := by
        simp [fails_iff, Opcode.isKnown, Opcode.needs]
      obtain ⟨hsize, hback, hpop⟩ | ⟨v, hsize, hback, hpop⟩ := s.pop_cases
      · simp only [execute, hpop]
        exact .fail _ fun g => by simp [hfails, hsize, hback]
      · simp only [execute, hpop]
        exact .offer _ v hback fun g => by simp [hfails, hback, Nat.ne_of_gt hsize]
  | ill | unknown => exact .fail _ (by simp [fails_iff, Opcode.isKnown, Opcode.needs])

end Instruction

theorem Instruction.Fails.congr {s : Stack} {answer answer' : Int32 → Except String Unit}
    {i : Instruction} {f : Fault} (h : i.Fails s answer f)
    (same : ∀ v, s.back? = some v → answer' v = answer v) : i.Fails s answer' f := by
  cases h with
  | illegal _ meaningless => exact .illegal i meaningless
  | underflow _ short => exact .underflow i short
  | load x outside => exact .load x outside
  | store x value outside => exact .store x value outside
  | divide x values zero => exact .divide x values zero
  | refuse x v message top refused => exact .refuse x v message top ((same v top).trans refused)

namespace Attached

variable {σ : Type} {emit : σ → Int32 → Except String Unit × σ} {p : Attached σ}

-- Nothing has been done, and the sink has been asked for nothing that it took.
structure Untouched (emit : σ → Int32 → Except String Unit × σ) (p q : Attached σ) : Prop where
  machine : q.machine = { p.machine with halted := true }
  trace : q.trace = p.trace
  sink : q.sink = p.sink ∨
    ∃ v message, p.machine.stack.back? = some v ∧ emit p.sink v = (.error message, q.sink)

theorem step_fails {e : RuntimeError} (h : (p.step emit).1 = some e) :
    p.machine.Faults (fun v => (emit p.sink v).1) e ∧ Untouched emit p (p.step emit).2 := by
  unfold step at h ⊢
  cases busy : p.machine.halted with
  | true => simp [busy] at h
  | false =>
      simp only [busy, Bool.false_eq_true, if_false] at h ⊢
      cases here : p.machine.instruction? with
      | none => simp [here] at h
      | some i =>
          have hout := i.outcome p.machine.stack fun v => (emit p.sink v).1
          obtain ⟨hlow, hget⟩ := Machine.instruction?_eq_some_iff.mp here
          simp only [here] at h ⊢
          generalize i.execute p.machine.stack = r at h hout ⊢
          cases hout with
          | fail f why =>
              cases h
              exact ⟨⟨busy, rfl, hlow, hget, (why f).mpr rfl⟩, rfl, rfl, .inl rfl⟩
          | silent after => cases h
          | offer after v top why =>
              simp only at h ⊢
              rcases hemit : emit p.sink v with ⟨message | ⟨⟩, sink⟩
              · simp only [hemit] at h why ⊢
                cases h
                exact ⟨⟨busy, rfl, hlow, hget, (why _).mpr ⟨message, rfl, rfl⟩⟩, rfl, rfl,
                  .inr ⟨v, message, top, hemit⟩⟩
              · simp [hemit] at h

theorem step_of_faults {e : RuntimeError} (h : p.machine.Faults (fun v => (emit p.sink v).1) e) :
    (p.step emit).1 = some e := by
  obtain ⟨f, ip, i⟩ := e
  obtain ⟨busy, rfl, hlow, hget, hfails⟩ := h
  have here := Machine.instruction?_eq_some_iff.mpr ⟨hlow, hget⟩
  have hout := i.outcome p.machine.stack fun v => (emit p.sink v).1
  simp only [step, busy, here, Bool.false_eq_true, if_false]
  generalize i.execute p.machine.stack = r at hout ⊢
  cases hout with
  | fail g why =>
      obtain rfl := (why f).mp hfails
      rfl
  | silent after never => exact absurd hfails (never f)
  | offer after v top why =>
      obtain ⟨message, hmessage, rfl⟩ := (why f).mp hfails
      rcases hemit : emit p.sink v with ⟨answer, sink⟩
      rw [hemit] at hmessage
      cases hmessage
      simp only [hemit]
      rfl

theorem step_eq_some_iff {e : RuntimeError} :
    (p.step emit).1 = some e ↔ p.machine.Faults (fun v => (emit p.sink v).1) e :=
  ⟨fun h => (step_fails h).1, step_of_faults⟩

theorem calls_of_halted (h : p.machine.halted = true) (cs : List Call) :
    p.calls emit cs = (cs.map fun _ => none, p) := by
  have hmake (c : Call) : p.make emit c = (none, p) := by
    cases c with
    | step => simp [make, step, h]
    | run => simp [make, Execution.bound, advance, h]
  induction cs with
  | nil => rfl
  | cons c cs ih => simp only [calls, hmake, ih, List.map_cons]

-- The same happens again, if the sink says the same again.
theorem step_again {e : RuntimeError} (h : (p.step emit).1 = some e) {sink : σ}
    (same : ∀ v, p.machine.stack.back? = some v → (emit sink v).1 = (emit p.sink v).1) :
    let q := (p.step emit).2
    let again := { q with sink, machine.halted := false }.step emit
    again.1 = some e ∧ again.2.machine = q.machine ∧ again.2.trace = q.trace := by
  intro q again
  obtain ⟨⟨busy, hplace, hlow, hget, hfails⟩, hmachine, htrace, _⟩ := step_fails h
  have hresume : { q with sink, machine.halted := false } = { p with sink } := by
    simp only [q, hmachine, htrace]
    rw [← busy]
  simp only [again, hresume]
  have hagain : ({ p with sink }.step emit).1 = some e :=
    step_of_faults ⟨busy, hplace, hlow, hget, hfails.congr same⟩
  obtain ⟨_, hmachine', htrace', _⟩ := step_fails hagain
  exact ⟨hagain, hmachine'.trans hmachine.symm, htrace'.trans htrace.symm⟩

end Attached

theorem RuntimeError.render_at (e : RuntimeError) {k : Nat} (h : e.ip = k) :
    e.render = "ip " ++ toString k ++ " (" ++ e.instruction.render ++ "): " ++ e.fault.message := by
  rw [render, h]
  rfl

namespace Console

-- All that has been taken so far.
def received (c : Console) : Option (Array Int32 × String) × String × Option String :=
  (c.sink.map fun sink => (sink.values, sink.text), c.stdout.text, c.trace)

theorem emit_error {c c' : Console} {v : Int32} {message : String}
    (h : c.emit v = (.error message, c')) :
    c'.received = c.received ∧ ∀ w, c'.emit w = (.error message, c') := by
  obtain ⟨_ | (values | writer), stdout, trace⟩ := c
  · rcases hwrite : stdout.write (Sink.line v) with ⟨answer, stdout'⟩
    simp only [emit, hwrite] at h
    cases h
    obtain ⟨htext, hagain⟩ := Writer.write_error hwrite
    exact ⟨by simp [received, htext], fun w => by simp [emit, hagain]⟩
  · cases h
  · rcases hwrite : writer.write (Sink.line v) with ⟨answer, writer'⟩
    simp only [emit, Sink.emit, hwrite] at h
    cases h
    obtain ⟨htext, hagain⟩ := Writer.write_error hwrite
    exact ⟨by simp [received, Sink.values, Sink.text, htext], fun w => by simp [emit, Sink.emit, hagain]⟩

end Console

namespace Execution

theorem attached_injective : Function.Injective attached := by
  rintro ⟨m, ⟨sink, stdout, trace⟩⟩ ⟨m', ⟨sink', stdout', trace'⟩⟩ h
  cases h
  rfl

theorem step_eq_some_iff {p : Execution} {e : RuntimeError} :
    p.step.1 = some e ↔ p.machine.Faults (fun v => (p.console.emit v).1) e := by
  have hanswer : (fun v => (p.attached.sink.emit v).1) = fun v => (p.console.emit v).1 := by
    funext v
    rw [attached, (p.console.emit_untraced v).1]
  have hattached : (p.attached.step Console.emit).1 = some e ↔
      p.machine.Faults (fun v => (p.attached.sink.emit v).1) e := Attached.step_eq_some_iff
  rwa [step_attached, hanswer] at hattached

theorem calls_of_halted {p : Execution} (h : p.machine.halted = true) (cs : List Call) :
    p.calls cs = (cs.map fun _ => none, p) := by
  have hcalls : p.attached.calls Console.emit cs = (cs.map fun _ => none, p.attached) :=
    Attached.calls_of_halted h cs
  rw [calls_attached] at hcalls
  obtain ⟨hanswers, hstate⟩ := Prod.ext_iff.mp hcalls
  exact Prod.ext hanswers (attached_injective hstate)

theorem step_error {p q : Execution} {e : RuntimeError} (h : p.step = (some e, q)) :
    q.machine = { p.machine with halted := true } ∧ q.console.received = p.console.received ∧
      { q with machine.halted := false }.step = (some e, q) := by
  cases steps_of_step h with
  | halt busy last =>
      have hresume : { p.machine with halted := false } = p.machine := by rw [← busy]
      refine ⟨last.machine_eq, ?_⟩
      cases last with
      | fault i f here stop =>
          refine ⟨rfl, ?_⟩
          simp only [hresume, h]
      | refuse i s v message console here done emitted =>
          -- A channel that has refused once refuses for good, and with the same message.
          obtain ⟨hreceived, hagain⟩ := Console.emit_error emitted
          refine ⟨hreceived, ?_⟩
          simp [hresume, step, here, perform, done, Console.emit?, hagain v, fail]

end Execution

theorem faults_change_nothing {σ : Type} (emit : σ → Int32 → Except String Unit × σ)
    (p : Attached σ) (x : Execution) :
    (∀ e, (p.step emit).1 = some e ↔ p.machine.Faults (fun v => (emit p.sink v).1) e) ∧
    (∀ e, (p.step emit).1 = some e →
      let q := (p.step emit).2
      Attached.Untouched emit p q ∧
      (∀ cs, q.calls emit cs = (cs.map fun _ => none, q)) ∧
      ∀ sink, (∀ v, p.machine.stack.back? = some v → (emit sink v).1 = (emit p.sink v).1) →
        let again := { q with sink, machine.halted := false }.step emit
        again.1 = some e ∧ again.2.machine = q.machine ∧ again.2.trace = q.trace) ∧
    (∀ cs, x.attached.calls Console.emit cs = ((x.calls cs).1, (x.calls cs).2.attached)) ∧
    (∀ e, x.step.1 = some e ↔ x.machine.Faults (fun v => (x.console.emit v).1) e) ∧
    ∀ e y, x.step = (some e, y) →
      y.machine = { x.machine with halted := true } ∧ y.console.received = x.console.received ∧
      (∀ cs, y.calls cs = (cs.map fun _ => none, y)) ∧
      { y with machine.halted := false }.step = (some e, y) := by
  refine ⟨fun e => Attached.step_eq_some_iff, fun e h => ?_, x.calls_attached,
    fun e => Execution.step_eq_some_iff, fun e y h => ?_⟩
  · obtain ⟨_, huntouched⟩ := Attached.step_fails h
    have hhalted : (p.step emit).2.machine.halted = true := by rw [huntouched.machine]
    exact ⟨huntouched, Attached.calls_of_halted hhalted, fun sink => Attached.step_again h⟩
  · obtain ⟨hmachine, hreceived, hagain⟩ := Execution.step_error h
    have hhalted : y.machine.halted = true := by rw [hmachine]
    exact ⟨hmachine, hreceived, Execution.calls_of_halted hhalted, hagain⟩

end PlZero
