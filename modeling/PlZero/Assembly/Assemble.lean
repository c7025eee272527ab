import PlZero.Machine.Instruction
import PlZero.Text.Blank
import PlZero.Text.Lines
import PlZero.Text.Numeral
import PlZero.Text.Uppercase

namespace PlZero

inductive AssemblyError where
  | unknownInstruction (line : Nat) (mnemonic : String)
  | unwantedOperand (line : Nat) (op : Opcode)
  | operandCount (line : Nat) (op : Opcode)
  | outOfRange (line : Nat) (operand : String)
  | malformed (line : Nat) (operand : String)
deriving DecidableEq, Repr

namespace AssemblyError

def message : AssemblyError → String
  | unknownInstruction line mnemonic => s!"unknown instruction on line {line}: {mnemonic}"
  | unwantedOperand line op => s!"{op.name} takes no operand on line {line}"
  | operandCount line op => s!"{op.name} expects exactly one operand on line {line}"
  | outOfRange line operand => s!"immediate out of range on line {line}: {operand}"
  | malformed line operand => s!"invalid immediate '{operand}' on line {line}"

def line : AssemblyError → Nat
  | unknownInstruction line _ => line
  | unwantedOperand line _ => line
  | operandCount line _ => line
  | outOfRange line _ => line
  | malformed line _ => line

end AssemblyError

namespace Assembly

def withoutComment : List Char → List Char
  | [] => []
  | ';' :: _ => []
  | '/' :: '/' :: _ => []
  | c :: cs => c :: withoutComment cs

def operand (line : Nat) (digits : List Char) : Except AssemblyError Int32 :=
  match Text.readSigned 32 digits with
  | .ok n => .ok (Int32.ofInt n)
  | .error .outOfRange => .error (.outOfRange line (String.ofList digits))
  | .error .malformed => .error (.malformed line (String.ofList digits))

def instruction (line : Nat) (mnemonic : List Char) (words : List (List Char)) :
    Except AssemblyError Instruction :=
  let name := String.ofList (Text.upper mnemonic)
  match Opcode.ofName? name with
  | none => .error (.unknownInstruction line name)
  | some op =>
      if op.hasOperand then
        match words with
        | [digits] => (operand line digits).map fun x => ⟨op, x⟩
        | _ => .error (.operandCount line op)
      else if words.isEmpty then .ok ⟨op, 0⟩
      else .error (.unwantedOperand line op)

def readLine (line : Nat) (cs : List Char) : Except AssemblyError (Option Instruction) :=
  match Text.words (withoutComment cs) with
  | [] => .ok none
  | mnemonic :: words => (instruction line mnemonic words).map some

def readLines : Nat → List (List Char) → Except AssemblyError (List Instruction)
  | _, [] => .ok []
  | number, line :: lines => do
      let first ← readLine number line
      let rest ← readLines (number + 1) lines
      .ok (first.toList ++ rest)

end Assembly

def assemble (source : List Char) : Except AssemblyError (Array Instruction) :=
  (Assembly.readLines 1 (Text.lines source)).map List.toArray

end PlZero
