import PlZero.Proofs.Snapshot.Interruption

namespace PlZero

-- A machine whose values go to a sink of any kind: `σ` is what the sink can be in, and nothing is known
-- about how it answers a value.
structure Attached (σ : Type) where
  machine : Machine
  sink : σ
  trace : Option String

namespace Attached

variable {σ : Type}

def fail (p : Attached σ) (i : Instruction) (f : Fault) : Option RuntimeError × Attached σ :=
  (some ⟨f, p.machine.ip, i⟩, { p with machine.halted := true })

def complete (p : Attached σ) (i : Instruction) (after : Stack) : Attached σ :=
  let done := Execution.complete ⟨p.machine, { trace := p.trace }⟩ i after
  ⟨done.machine, p.sink, done.console.trace⟩

variable (emit : σ → Int32 → Except String Unit × σ)

def step (p : Attached σ) : Option RuntimeError × Attached σ :=
  if p.machine.halted then (none, p)
  else
    match p.machine.instruction? with
    | none => (none, { p with machine.halted := true })
    | some i =>
        match i.execute p.machine.stack with
        | .error f => p.fail i f
        | .ok (after, none) => (none, p.complete i after)
        | .ok (after, some v) =>
            match emit p.sink v with
            | (.error message, sink) => { p with sink }.fail i (.writeFailed message)
            | (.ok (), sink) => (none, { p with sink }.complete i after)

def advance : Nat → Attached σ → Option RuntimeError × Attached σ
  | 0, p => (none, p)
  | n + 1, p =>
      if p.machine.halted then (none, p)
      else
        match p.step emit with
        | (some e, p) => (some e, p)
        | (none, p) => advance n p

def make (p : Attached σ) : Call → Option RuntimeError × Attached σ
  | .step => p.step emit
  | .run => p.advance emit (Execution.bound p.machine)

def calls : Attached σ → List Call → List (Option RuntimeError) × Attached σ
  | p, [] => ([], p)
  | p, c :: cs => ((p.make emit c).1 :: (calls (p.make emit c).2 cs).1, (calls (p.make emit c).2 cs).2)

end Attached

namespace Console

theorem emit_untraced (c : Console) (v : Int32) :
    { c with trace := none }.emit v = ((c.emit v).1, { (c.emit v).2 with trace := none }) ∧
      (c.emit v).2.trace = c.trace := by
  unfold emit
  cases c.sink <;> exact ⟨rfl, rfl⟩

end Console

namespace Execution

def attached (p : Execution) : Attached Console :=
  ⟨p.machine, { p.console with trace := none }, p.console.trace⟩

@[simp] theorem machine_attached (p : Execution) : p.attached.machine = p.machine := rfl

theorem step_attached (p : Execution) :
    p.attached.step Console.emit = (p.step.1, p.step.2.attached) := by
  cases hb : p.machine.halted with
  | true => simp [Attached.step, step, hb]
  | false =>
      simp only [Attached.step, step, machine_attached, hb, Bool.false_eq_true, if_false]
      cases p.machine.instruction? with
      | none => rfl
      | some i =>
          simp only [perform]
          rcases i.execute p.machine.stack with f | ⟨after, _ | v⟩
          · rfl
          · rfl
          · obtain ⟨hemit, htrace⟩ := p.console.emit_untraced v
            simp only [attached, hemit, Console.emit?]
            generalize p.console.emit v = emitted at htrace
            obtain ⟨message | ⟨⟩, console⟩ := emitted
            · simp [Attached.fail, fail, ← htrace]
            · simp [Attached.complete, complete, Console.note, ← htrace]

theorem advance_attached (n : Nat) (p : Execution) :
    p.attached.advance Console.emit n = ((p.advance n).1, (p.advance n).2.attached) := by
  induction n generalizing p with
  | zero => rfl
  | succ n ih =>
      cases hb : p.machine.halted with
      | true => simp [Attached.advance, advance, hb]
      | false =>
          simp only [Attached.advance, advance, step_attached, machine_attached, hb,
            Bool.false_eq_true, if_false]
          rcases p.step with ⟨_ | e, q⟩
          · exact ih q
          · rfl

theorem calls_attached (p : Execution) (cs : List Call) :
    p.attached.calls Console.emit cs = ((p.calls cs).1, (p.calls cs).2.attached) := by
  induction cs generalizing p with
  | nil => rfl
  | cons c cs ih =>
      have hmake : p.attached.make Console.emit c = ((c.make p).1, (c.make p).2.attached) := by
        cases c with
        | step => exact p.step_attached
        | run => exact p.advance_attached _
      simp only [Attached.calls, calls, hmake, ih]

end Execution

end PlZero
