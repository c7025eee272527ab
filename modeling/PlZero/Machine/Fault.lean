import PlZero.Machine.Instruction

namespace PlZero

inductive Fault where
  | stackUnderflow
  | indexOutOfRange
  | divisionByZero
  | illegalInstruction
  | writeFailed (message : String)
deriving DecidableEq, Repr

namespace Fault

def message : Fault → String
  | stackUnderflow => "stack underflow"
  | indexOutOfRange => "stack index out of range"
  | divisionByZero => "division by zero"
  | illegalInstruction => "illegal instruction"
  | writeFailed message => "write output: " ++ message

def name? : Fault → Option String
  | stackUnderflow => some "StackUnderflow"
  | indexOutOfRange => some "IndexOutOfRange"
  | divisionByZero => some "DivisionByZero"
  | illegalInstruction => some "IllegalInstruction"
  | writeFailed _ => none

def name (f : Fault) : String :=
  f.name?.getD ""

def named : List Fault :=
  [stackUnderflow, indexOutOfRange, divisionByZero, illegalInstruction]

def ofName? (name : String) : Option Fault :=
  named.find? (·.name == name)

end Fault

structure RuntimeError where
  fault : Fault
  ip : Int
  instruction : Instruction
deriving DecidableEq, Repr

def RuntimeError.render (e : RuntimeError) : String :=
  s!"ip {e.ip} ({e.instruction.render}): {e.fault.message}"

end PlZero
