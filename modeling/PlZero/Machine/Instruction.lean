namespace PlZero

-- The opcodes. A byte without a meaning is kept as it is.
inductive Opcode where
  | ill
  | lit
  | lod
  | sto
  | add
  | sub
  | mul
  | div
  | wrt
  | unknown (byte : UInt8) (free : 9 ≤ byte)
deriving DecidableEq, Repr

namespace Opcode

def known : List Opcode := [ill, lit, lod, sto, add, sub, mul, div, wrt]

def toByte : Opcode → UInt8
  | ill => 0
  | lit => 1
  | lod => 2
  | sto => 3
  | add => 4
  | sub => 5
  | mul => 6
  | div => 7
  | wrt => 8
  | unknown byte _ => byte

def ofByte (byte : UInt8) : Opcode :=
  if free : 9 ≤ byte then unknown byte free
  else
    match byte with
    | 1 => lit
    | 2 => lod
    | 3 => sto
    | 4 => add
    | 5 => sub
    | 6 => mul
    | 7 => div
    | 8 => wrt
    | _ => ill

theorem ofByte_toByte (op : Opcode) : ofByte op.toByte = op := by
  cases op with
  | unknown byte free => simp [ofByte, toByte, free]
  | _ => rfl

def name : Opcode → String
  | ill => "ILL"
  | lit => "LIT"
  | lod => "LOD"
  | sto => "STO"
  | add => "ADD"
  | sub => "SUB"
  | mul => "MUL"
  | div => "DIV"
  | wrt => "WRT"
  | unknown byte _ => s!"Opcode({byte.toNat})"

def ofName? (name : String) : Option Opcode :=
  known.find? (·.name == name)

def hasOperand : Opcode → Bool
  | lit => true
  | lod => true
  | sto => true
  | _ => false

def isKnown : Opcode → Bool
  | unknown _ _ => false
  | _ => true

end Opcode

structure Instruction where
  op : Opcode
  operand : Int32 := 0
deriving DecidableEq, Repr

namespace Instruction

-- How an instruction is written. A byte without a meaning is written as the illegal instruction, which it
-- acts like.
def render (i : Instruction) : String :=
  match i.op with
  | .unknown _ _ => Opcode.ill.name
  | op => if op.hasOperand then op.name ++ " " ++ toString i.operand.toInt else op.name

end Instruction

end PlZero
