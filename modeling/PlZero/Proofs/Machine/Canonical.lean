import PlZero.Proofs.Machine.Trail

namespace PlZero

namespace Opcode

theorem ofName?_name {op : Opcode} (h : op.isKnown = true) : ofName? op.name = some op := by
  cases op with
  | unknown => cases h
  | _ => decide

theorem isKnown_of_ofName? {name : String} {op : Opcode} (h : ofName? name = some op) :
    op.isKnown = true := by
  have hknown : ∀ op ∈ known, op.isKnown = true := by decide
  exact hknown op (List.mem_of_find?_eq_some h)

theorem toList_name_unknown (byte : UInt8) (free : 9 ≤ byte) :
    (unknown byte free).name.toList =
      "Opcode(".toList ++ (Nat.toDigits 10 byte.toNat ++ [')']) := by
  have hname : (unknown byte free).name = "Opcode(" ++ toString byte.toNat ++ ")" := rfl
  simp [hname]

-- What an opcode without a meaning is called is no mnemonic.
theorem ofName?_name_unknown {op : Opcode} (h : op.isKnown = false) : ofName? op.name = none := by
  cases op with
  | unknown byte free =>
      have hhead : ∀ op ∈ known, op.name.toList.head? ≠ some 'O' := by decide
      rw [ofName?, List.find?_eq_none]
      intro op hop heq
      apply hhead op hop
      rw [eq_of_beq heq, toList_name_unknown]
      rfl
  | _ => cases h

end Opcode

namespace Instruction

-- The instruction that is written in the same way and holds nothing that is not written.
def canonical (i : Instruction) : Instruction :=
  match i.op with
  | .unknown _ _ => ⟨.ill, 0⟩
  | op => if op.hasOperand then i else ⟨op, 0⟩

theorem render_canonical (i : Instruction) : i.canonical.render = i.render := by
  obtain ⟨op, x⟩ := i
  cases op <;> rfl

-- An instruction is written with its operand or without one.
theorem written_cases (i : Instruction) :
    (∃ op x, op.hasOperand = true ∧ i.render = op.name ++ " " ++ toString x.toInt ∧
      i.canonical = ⟨op, x⟩) ∨
    ∃ op, op.isKnown = true ∧ op.hasOperand = false ∧ i.render = op.name ∧ i.canonical = ⟨op, 0⟩ := by
  obtain ⟨op, x⟩ := i
  cases op with
  | lit => exact .inl ⟨.lit, x, rfl, rfl, rfl⟩
  | lod => exact .inl ⟨.lod, x, rfl, rfl, rfl⟩
  | sto => exact .inl ⟨.sto, x, rfl, rfl, rfl⟩
  | unknown => exact .inr ⟨.ill, rfl, rfl, rfl, rfl⟩
  | _ => exact .inr ⟨_, rfl, rfl, rfl, rfl⟩

theorem execute_canonical (i : Instruction) (s : Stack) : i.canonical.execute s = i.execute s := by
  obtain ⟨op, x⟩ := i
  cases op <;> rfl

theorem canonical_of_hasOperand {i : Instruction} (h : i.op.hasOperand = true) : i.canonical = i := by
  obtain ⟨op, x⟩ := i
  cases op <;> first | rfl | cases h

theorem canonical_of_isKnown {op : Opcode} (h : op.isKnown = true) :
    (Instruction.mk op 0).canonical = ⟨op, 0⟩ := by
  cases op <;> first | rfl | cases h

end Instruction

def RuntimeError.canonical (e : RuntimeError) : RuntimeError :=
  { e with instruction := e.instruction.canonical }

theorem RuntimeError.render_canonical (e : RuntimeError) : e.canonical.render = e.render := by
  simp [render, canonical, Instruction.render_canonical]

namespace Machine

def canonical (m : Machine) : Machine :=
  { m with program := m.program.map Instruction.canonical }

theorem instruction?_canonical (m : Machine) :
    m.canonical.instruction? = m.instruction?.map Instruction.canonical := by
  simp only [instruction?, canonical, Array.getElem?_map]
  split <;> rfl

end Machine

namespace Execution

def canonical (p : Execution) : Execution := { p with machine := p.machine.canonical }

@[simp] theorem console_canonical (p : Execution) : p.canonical.console = p.console := rfl

@[simp] theorem stack_canonical (p : Execution) :
    p.canonical.machine.stack = p.machine.stack := rfl

@[simp] theorem halted_canonical (p : Execution) :
    p.canonical.machine.halted = p.machine.halted := rfl

@[simp] theorem instruction?_canonical (p : Execution) :
    p.canonical.machine.instruction? = p.machine.instruction?.map Instruction.canonical :=
  Machine.instruction?_canonical p.machine

theorem complete_canonical (p : Execution) (i : Instruction) (s : Stack) :
    p.canonical.complete i.canonical s = (p.complete i s).canonical := by
  simp [complete, canonical, Machine.canonical, Machine.traceLine, Instruction.render_canonical]

theorem perform_canonical (p : Execution) (i : Instruction) :
    p.canonical.perform i.canonical =
      ((p.perform i).1.map RuntimeError.canonical, (p.perform i).2.canonical) := by
  simp only [perform, Instruction.execute_canonical, stack_canonical, console_canonical]
  cases i.execute p.machine.stack with
  | error f => rfl
  | ok result =>
      obtain ⟨s, v⟩ := result
      dsimp only
      rcases p.console.emit? v with ⟨message | ⟨⟩, console⟩
      · rfl
      · exact congrArg (Prod.mk none) (complete_canonical { p with console } i s)

theorem step_canonical (p : Execution) :
    p.canonical.step = (p.step.1.map RuntimeError.canonical, p.step.2.canonical) := by
  simp only [step, halted_canonical, instruction?_canonical]
  split
  · rfl
  · cases p.machine.instruction? with
    | none => rfl
    | some i => exact perform_canonical p i

theorem advance_canonical (n : Nat) (p : Execution) :
    p.canonical.advance n =
      ((p.advance n).1.map RuntimeError.canonical, (p.advance n).2.canonical) := by
  induction n generalizing p with
  | zero => rfl
  | succ n ih =>
      simp only [advance, step_canonical, halted_canonical]
      split
      · rfl
      · rcases p.step with ⟨_ | e, q⟩
        · exact ih q
        · rfl

theorem run_canonical (p : Execution) :
    p.canonical.run = (p.run.1.map RuntimeError.canonical, p.run.2.canonical) := by
  have hbound : bound p.canonical.machine = bound p.machine := by
    simp [bound, canonical, Machine.canonical]
  rw [run, hbound, advance_canonical, run]

end Execution

theorem Instruction.isKnown_of_canonical {i : Instruction} (h : i.canonical = i) : i.op.isKnown = true := by
  obtain ⟨op, x⟩ := i
  cases op with
  | unknown => cases h
  | _ => rfl

theorem isKnown_of_map_canonical {code : Array Instruction} (h : code.map Instruction.canonical = code) :
    ∀ i ∈ code, i.op.isKnown = true := by
  intro i hi
  obtain ⟨k, hk, rfl⟩ := Array.mem_iff_getElem.mp hi
  apply Instruction.isKnown_of_canonical
  have hget : (code.map Instruction.canonical)[k]? = code[k]? := by rw [h]
  simpa [hk] using hget

end PlZero
