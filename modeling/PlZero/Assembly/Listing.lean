import PlZero.Machine.Instruction

namespace PlZero

def listing (program : Array Instruction) : List String :=
  program.toList.map Instruction.render

def disassemble (program : Array Instruction) : String :=
  String.join ((listing program).map (· ++ "\n"))

end PlZero
