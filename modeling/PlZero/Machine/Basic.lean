import PlZero.Console.Sink
import PlZero.Machine.Execute
import PlZero.Text.Column

namespace PlZero

structure Machine where
  program : Array Instruction
  stack : Stack := #[]
  ip : Int := 0
  halted : Bool := false
  executed : UInt64 := 0
deriving DecidableEq, Repr

structure Console where
  sink : Option Sink := none
  stdout : Writer := {}
  trace : Option String := none
deriving DecidableEq, Repr

namespace Console

def emit (c : Console) (v : Int32) : Except String Unit × Console :=
  match c.sink with
  | some sink =>
      let emitted := sink.emit v
      (emitted.1, { c with sink := some emitted.2 })
  | none =>
      let written := c.stdout.write (Sink.line v)
      (written.1, { c with stdout := written.2 })

def emit? (c : Console) : Option Int32 → Except String Unit × Console
  | some v => c.emit v
  | none => (.ok (), c)

def note (c : Console) (line : String) : Console :=
  { c with trace := c.trace.map (· ++ line) }

end Console

namespace Machine

def instruction? (m : Machine) : Option Instruction :=
  if 0 ≤ m.ip then m.program[m.ip.toNat]? else none

def renderStack (s : Stack) : String :=
  "[" ++ " ".intercalate (s.toList.map fun v => toString v.toInt) ++ "]"

def traceLine (m : Machine) (i : Instruction) (after : Stack) : String :=
  Text.zeroPadded 4 m.ip.toNat ++ "  " ++ Text.padRight 8 i.render ++ " " ++ renderStack after ++ "\n"

end Machine

structure Execution where
  machine : Machine
  console : Console := {}
deriving DecidableEq, Repr

namespace Execution

def fail (p : Execution) (i : Instruction) (f : Fault) : Option RuntimeError × Execution :=
  (some ⟨f, p.machine.ip, i⟩, { p with machine.halted := true })

def complete (p : Execution) (i : Instruction) (after : Stack) : Execution :=
  { machine := { p.machine with
      stack := after
      ip := p.machine.ip + 1
      executed := p.machine.executed + 1 }
    console := p.console.note (p.machine.traceLine i after) }

def perform (p : Execution) (i : Instruction) : Option RuntimeError × Execution :=
  match i.execute p.machine.stack with
  | .error f => p.fail i f
  | .ok (after, value) =>
      match p.console.emit? value with
      | (.error message, console) => { p with console }.fail i (.writeFailed message)
      | (.ok (), console) => (none, { p with console }.complete i after)

def step (p : Execution) : Option RuntimeError × Execution :=
  if p.machine.halted then (none, p)
  else
    match p.machine.instruction? with
    | none => (none, { p with machine.halted := true })
    | some i => p.perform i

def advance : Nat → Execution → Option RuntimeError × Execution
  | 0, p => (none, p)
  | n + 1, p =>
      if p.machine.halted then (none, p)
      else
        match p.step with
        | (some e, p) => (some e, p)
        | (none, p) => advance n p

-- So many steps end every run: one for each instruction that is left, and one to halt.
def bound (m : Machine) : Nat :=
  m.program.size - m.ip.toNat + 1

def run (p : Execution) : Option RuntimeError × Execution :=
  p.advance (bound p.machine)

theorem instruction?_lt {m : Machine} {i : Instruction} (h : m.instruction? = some i) :
    0 ≤ m.ip ∧ m.ip.toNat < m.program.size := by
  unfold Machine.instruction? at h
  split at h
  · next hp => exact ⟨hp, (Array.getElem?_eq_some_iff.mp h).1⟩
  · simp at h

theorem step_none {p q : Execution} (h : p.step = (none, q)) :
    q.machine.halted = true ∨ bound q.machine < bound p.machine := by
  unfold step at h
  split at h
  · next hh =>
      cases h
      exact .inl hh
  · split at h
    · cases h
      exact .inl rfl
    · next i hi =>
        have hlt := instruction?_lt hi
        unfold perform at h
        split at h
        · cases h
        · split at h
          · cases h
          · cases h
            right
            simp only [complete, bound]
            omega

theorem advance_halted (n : Nat) (p : Execution) (h : bound p.machine ≤ n ∨ p.machine.halted = true) :
    (p.advance n).2.machine.halted = true := by
  induction n generalizing p with
  | zero =>
      rcases h with h | h
      · simp [bound] at h
      · exact h
  | succ n ih =>
      unfold advance
      split
      · next hh => exact hh
      · split
        · next e q hs =>
            unfold step at hs
            split at hs
            · cases hs
            · split at hs
              · cases hs
              · unfold perform at hs
                split at hs
                · cases hs
                  rfl
                · split at hs <;> cases hs
                  rfl
        · next q hs =>
            apply ih
            rcases step_none hs with hq | hq
            · exact .inr hq
            · rcases h with h | h
              · left; omega
              · simp_all

theorem run_halted (p : Execution) : p.run.2.machine.halted = true :=
  advance_halted _ p (.inl (Nat.le_refl _))

end Execution

end PlZero
