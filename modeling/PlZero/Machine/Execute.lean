import PlZero.Machine.Fault

namespace PlZero

abbrev Stack := Array Int32

namespace Stack

def load (s : Stack) (slot : Int32) : Except Fault Int32 :=
  match if 0 ≤ slot.toInt then s[slot.toInt.toNat]? else none with
  | some v => .ok v
  | none => .error .indexOutOfRange

def pop (s : Stack) : Except Fault (Int32 × Stack) :=
  match s.back? with
  | some v => .ok (v, Array.pop s)
  | none => .error .stackUnderflow

def store (s : Stack) (slot : Int32) : Except Fault Stack := do
  let (v, below) ← s.pop
  if 0 ≤ slot.toInt ∧ slot.toInt < below.size then .ok (below.set! slot.toInt.toNat v)
  else .error .indexOutOfRange

def operands (s : Stack) : Except Fault (Int32 × Int32 × Stack) := do
  let (b, below) ← s.pop
  let (a, below) ← Stack.pop below
  .ok (a, b, below)

def combine (s : Stack) (operation : Int32 → Int32 → Except Fault Int32) : Except Fault Stack := do
  let (a, b, below) ← s.operands
  let r ← operation a b
  .ok (below.push r)

end Stack

def divide (a b : Int32) : Except Fault Int32 :=
  if b = 0 then .error .divisionByZero else .ok (a / b)

namespace Instruction

def execute (i : Instruction) (s : Stack) : Except Fault (Stack × Option Int32) :=
  match i.op with
  | .lit => .ok (s.push i.operand, none)
  | .lod => do
      let v ← s.load i.operand
      .ok (s.push v, none)
  | .sto => do
      let s ← s.store i.operand
      .ok (s, none)
  | .add => do
      let s ← s.combine fun a b => .ok (a + b)
      .ok (s, none)
  | .sub => do
      let s ← s.combine fun a b => .ok (a - b)
      .ok (s, none)
  | .mul => do
      let s ← s.combine fun a b => .ok (a * b)
      .ok (s, none)
  | .div => do
      let s ← s.combine divide
      .ok (s, none)
  | .wrt => do
      let (v, below) ← s.pop
      .ok (below, some v)
  | .ill => .error .illegalInstruction
  | .unknown _ _ => .error .illegalInstruction

end Instruction

end PlZero
