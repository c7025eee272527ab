import PlZero.Archive.Pack
import PlZero.Archive.Read
import PlZero.Snapshot.Document
import PlZero.Text.Quoted
import PlZero.Text.Utf8

namespace PlZero.Snapshot

def stateName : String := "vm_state.json"

def programName : String := "program.json"

def listingName : String := "program.asm"

def renderListing (m : Machine) : String :=
  String.join (m.program.toList.mapIdx fun i instruction =>
    (if (i : Int) = m.ip then "> " else "  ") ++ instruction.render ++ "\n")

def entries (m : Machine) : List (String × String) :=
  [(stateName, StateDocument.render m), (programName, renderProgram m.program),
    (listingName, renderListing m)]

def save (m : Machine) : List UInt8 :=
  Archive.pack ((entries m).map fun (name, text) =>
    ⟨(Text.Utf8.encode name).toList, (Text.Utf8.encode text).toList⟩)

inductive RestoreError where
  | notArchive
  | noEntry (name : String)
  | unopened (name : String) (error : Archive.OpenError)
  | damaged
  | badState
  | badProgram
  | unknownOpcode (index : Nat) (name : String)
deriving DecidableEq, Repr

def RestoreError.message : RestoreError → String
  | notArchive => "open snapshot: " ++ Archive.OpenError.noEntry.message
  | noEntry name => "zip entry " ++ Text.quote name ++ " not found"
  | unopened name error => "open zip entry " ++ Text.quote name ++ ": " ++ error.message
  | damaged => "zip: checksum error"
  | badState => "unmarshal vm_state: malformed document"
  | badProgram => "unmarshal program: malformed document"
  | unknownOpcode index name => s!"program entry {index}: unknown opcode " ++ Text.quote name

def readEntry (bytes : List UInt8) (headers : List Archive.Header) (name : String) :
    Except RestoreError (List Char) :=
  match Archive.findEntry? headers (Text.Utf8.encode name).toList with
  | none => .error (.noEntry name)
  | some header =>
      match Archive.readContents bytes header with
      | .ok contents => .ok (Text.Utf8.decode contents)
      | .error (.unopened e) => .error (.unopened name e)
      | .error .damaged => .error .damaged

def program : Nat → List InstructionDocument → Except RestoreError (List Instruction)
  | _, [] => .ok []
  | index, d :: rest =>
      match Opcode.ofName? (String.ofList d.op) with
      | none => .error (.unknownOpcode index (String.ofList d.op))
      | some op => (program (index + 1) rest).map (⟨op, d.operand⟩ :: ·)

def restoreTexts (state : List Char) (code : Except RestoreError (List Char)) :
    Except RestoreError Machine := do
  let some state := (Json.parse? state).bind StateDocument.read | .error .badState
  let code ← code
  let some documents := (Json.parse? code).bind readProgram | .error .badProgram
  let instructions ← program 0 documents
  return ⟨instructions.toArray, state.cells.words.toArray, state.ip, state.halted, state.executed⟩

def restoreEntries (bytes : List UInt8) : Option (List Archive.Header) → Except RestoreError Machine
  | none => .error .notArchive
  | some headers => do
      let state ← readEntry bytes headers stateName
      restoreTexts state (readEntry bytes headers programName)

def restore (bytes : List UInt8) : Except RestoreError Machine :=
  restoreEntries bytes (Archive.readDirectory bytes)

end PlZero.Snapshot
