import PlZero.Json.Value
import PlZero.Machine.Basic
import PlZero.Text.Numeral

namespace PlZero.Snapshot

-- A character without its case, as far as the letters of member names go: two characters outside ASCII are
-- cases of such letters.
def foldChar (c : Char) : Char :=
  match c with
  | 'ſ' => 's'
  | 'K' => 'k'
  | c => c.toLower

def named (key : List Char) (name : String) : Bool :=
  key.map foldChar == name.toList

def readOver {α : Type} (read : Json → Option α) (old : α) : Json → Option α
  | .null => some old
  | j => read j

def readBool : Json → Option Bool
  | .bool b => some b
  | _ => none

def readText : Json → Option (List Char)
  | .string s => some s
  | _ => none

def readInteger (bits : Nat) : Json → Option Int
  | .number literal => (Text.readSigned bits literal).toOption
  | _ => none

def readNatural (bits : Nat) : Json → Option Nat
  | .number literal => (Text.readUnsigned bits literal).toOption
  | _ => none

def readWord (j : Json) : Option Int32 :=
  (readInteger 32 j).map Int32.ofInt

-- A list of words in the making: the cells that have been filled so far, of which the first `length` count.
structure Cells where
  filled : List Int32 := []
  length : Nat := 0
deriving DecidableEq, Repr

namespace Cells

def fill : List Int32 → List Json → Option (List Int32)
  | old, [] => some old
  | old, j :: items => do
      let v ← readOver readWord (old.headD 0) j
      let rest ← fill (old.drop 1) items
      return v :: rest

def read (old : Cells) : Json → Option Cells
  | .null => some {}
  | .array [] => some {}
  | .array items => (fill old.filled items).map fun filled => ⟨filled, items.length⟩
  | _ => none

def words (c : Cells) : List Int32 :=
  c.filled.take c.length

end Cells

structure StateDocument where
  ip : Int := 0
  halted : Bool := false
  executed : UInt64 := 0
  cells : Cells := {}
deriving DecidableEq, Repr

namespace StateDocument

def member (d : StateDocument) (key : List Char) (j : Json) : Option StateDocument :=
  if named key "ip" then (readOver (readInteger 64) d.ip j).map ({ d with ip := · })
  else if named key "halted" then (readOver readBool d.halted j).map ({ d with halted := · })
  else if named key "executed" then
    (readOver (fun j => (readNatural 64 j).map UInt64.ofNat) d.executed j).map ({ d with executed := · })
  else if named key "stack" then (d.cells.read j).map ({ d with cells := · })
  else some d

def read : Json → Option StateDocument
  | .null => some {}
  | .object members => members.foldlM (fun d (key, j) => d.member key j) {}
  | _ => none

def renderWords (words : List Int32) : String :=
  if words.isEmpty then "[]"
  else "[\n" ++ ",\n".intercalate (words.map fun v => "    " ++ toString v.toInt) ++ "\n  ]"

def render (m : Machine) : String :=
  "\x7b\n  \"ip\": " ++ toString m.ip ++ ",\n  \"halted\": " ++ toString m.halted
    ++ ",\n  \"executed\": " ++ toString m.executed.toNat
    ++ ",\n  \"stack\": " ++ renderWords m.stack.toList ++ "\n\x7d"

end StateDocument

structure InstructionDocument where
  op : List Char := []
  operand : Int32 := 0
deriving DecidableEq, Repr

namespace InstructionDocument

def member (d : InstructionDocument) (key : List Char) (j : Json) : Option InstructionDocument :=
  if named key "op" then (readOver readText d.op j).map ({ d with op := · })
  else if named key "x" then (readOver readWord d.operand j).map ({ d with operand := · })
  else some d

def read : Json → Option InstructionDocument
  | .null => some {}
  | .object members => members.foldlM (fun d (key, j) => d.member key j) {}
  | _ => none

def render (i : Instruction) : String :=
  let operand := if i.operand = 0 then "" else ",\"x\":" ++ toString i.operand.toInt
  "\x7b\"op\":\"" ++ i.op.name ++ "\"" ++ operand ++ "\x7d"

end InstructionDocument

def readProgram : Json → Option (List InstructionDocument)
  | .null => some []
  | .array items => items.mapM InstructionDocument.read
  | _ => none

def renderProgram (program : Array Instruction) : String :=
  "[" ++ ",".intercalate (program.toList.map InstructionDocument.render) ++ "]"

end PlZero.Snapshot
