import PlZero.Proofs.Json.Reading
import PlZero.Proofs.Machine.Canonical
import PlZero.Snapshot.Basic

namespace PlZero.Snapshot

open Json (Layout Renders ReadsValue memberText)

def numberJson (v : Int) : Json := .number (toString v).toList

theorem readWord_numberJson (v : Int32) : readWord (numberJson v.toInt) = some v := by
  simp only [readWord, readInteger, numberJson, Text.readSigned_int32, Except.toOption, Option.map_some,
    Int32.ofInt_toInt]

def compact : Layout := { before := [], between := [], after := [] }

def indented : Layout := { before := ['\n'], between := ['\n'], after := "\n  ".toList }

namespace StateDocument

theorem renders_words (words : List Int32) :
    Renders (ReadsValue 1) (renderWords words).toList
      (.array (words.map fun v => numberJson v.toInt)) := by
  unfold renderWords
  split
  · next hempty =>
      rw [List.isEmpty_iff.mp hempty]
      exact Json.renders_array compact .nil
  · have htext :
        ("[\n" ++ ",\n".intercalate (words.map fun v => "    " ++ toString v.toInt) ++ "\n  ]").toList =
          indented.text '[' ']' (words.map fun v => "    ".toList ++ (toString v.toInt).toList) := by
      simp [Layout.text, indented, Function.comp_def]
    rw [htext]
    apply Json.renders_array
    rw [List.forall₂_map_left_iff, List.forall₂_map_right_iff, List.forall₂_same]
    intro v _
    have hnumber : Renders (ReadsValue 0) (toString v.toInt).toList (numberJson v.toInt) :=
      Json.renders_number v.toInt
    obtain ⟨ts, hwrites, hreads⟩ := hnumber
    exact ⟨ts, hwrites.blank (by decide), hreads⟩

def lines : Layout := { before := [], between := [], after := ['\n'] }

def json (m : Machine) : Json :=
  .object [("ip".toList, numberJson m.ip), ("halted".toList, .bool m.halted),
    ("executed".toList, numberJson m.executed.toNat),
    ("stack".toList, .array (m.stack.toList.map fun v => numberJson v.toInt))]

theorem renders_json (m : Machine) : Renders (ReadsValue 2) (render m).toList (json m) := by
  have htext : (render m).toList = lines.text '\x7b' '\x7d'
      [memberText "\n  ".toList [' '] "ip".toList (toString m.ip).toList,
        memberText "\n  ".toList [' '] "halted".toList (toString m.halted).toList,
        memberText "\n  ".toList [' '] "executed".toList (toString m.executed.toNat).toList,
        memberText "\n  ".toList [' '] "stack".toList (renderWords m.stack.toList).toList] := by
    unfold render
    simp [Layout.text, lines, memberText]
  rw [htext]
  apply Json.renders_object
  refine .cons ?_ (.cons ?_ (.cons ?_ (.cons ?_ .nil)))
  · exact Json.renders_member (by decide) (by decide) (by decide) (Json.renders_number m.ip)
  · exact Json.renders_member (by decide) (by decide) (by decide) (Json.renders_bool m.halted)
  · exact Json.renders_member (by decide) (by decide) (by decide) (Json.renders_number m.executed.toNat)
  · exact Json.renders_member (by decide) (by decide) (by decide) (renders_words m.stack.toList)

theorem fill_words (words : List Int32) :
    Cells.fill [] (words.map fun v => numberJson v.toInt) = some words := by
  induction words with
  | nil => rfl
  | cons v words ih =>
      have hv : readOver readWord 0 (numberJson v.toInt) = some v := readWord_numberJson v
      simp [Cells.fill, hv, ih]

theorem read_words (words : List Int32) :
    ∃ cells, Cells.read {} (.array (words.map fun v => numberJson v.toInt)) = some cells ∧
      cells.words = words := by
  cases words with
  | nil => exact ⟨{}, rfl, rfl⟩
  | cons v words =>
      have hfill := fill_words (v :: words)
      refine ⟨⟨v :: words, words.length + 1⟩, ?_, by simp [Cells.words]⟩
      rw [List.map_cons] at hfill ⊢
      simp [Cells.read, hfill]

theorem member_ip (d : StateDocument) {ip : Int} (hlow : -(Nat.pow 2 63 : Nat) ≤ ip)
    (hhigh : ip < (Nat.pow 2 63 : Nat)) :
    d.member "ip".toList (numberJson ip) = some { d with ip := ip } := by
  have hread : Text.readSigned 64 (toString ip).toList = .ok ip :=
    Text.readSigned_toString (by decide) hlow hhigh
  change ((Text.readSigned 64 (toString ip).toList).toOption).map ({ d with ip := · }) = _
  rw [hread]
  rfl

theorem member_halted (d : StateDocument) (b : Bool) :
    d.member "halted".toList (.bool b) = some { d with halted := b } := rfl

theorem member_executed (d : StateDocument) (n : UInt64) :
    d.member "executed".toList (numberJson n.toNat) = some { d with executed := n } := by
  have hread : Text.readUnsigned 64 (toString (n.toNat : Int)).toList = .ok n.toNat := by
    rw [Text.toList_toString_ofNat, Text.readUnsigned_toDigits n.toNat_lt]
  change (((Text.readUnsigned 64 (toString (n.toNat : Int)).toList).toOption).map UInt64.ofNat).map
    ({ d with executed := · }) = _
  rw [hread]
  simp [Except.toOption]

theorem member_stack (d : StateDocument) {j : Json} {cells : Cells} (h : d.cells.read j = some cells) :
    d.member "stack".toList j = some { d with cells := cells } := by
  change (d.cells.read j).map ({ d with cells := · }) = _
  rw [h]
  rfl

theorem read_json {m : Machine} (hlow : -(Nat.pow 2 63 : Nat) ≤ m.ip)
    (hhigh : m.ip < (Nat.pow 2 63 : Nat)) :
    ∃ cells, read (json m) = some ⟨m.ip, m.halted, m.executed, cells⟩ ∧
      cells.words = m.stack.toList := by
  obtain ⟨cells, hcells, hwords⟩ := read_words m.stack.toList
  refine ⟨cells, ?_, hwords⟩
  have hstack := member_stack { ip := m.ip, halted := m.halted, executed := m.executed } hcells
  simp only [read, json, List.foldlM_cons, List.foldlM_nil, member_ip _ hlow hhigh, member_halted,
    member_executed, hstack, Option.pure_def, Option.bind_eq_bind, Option.bind_some]

end StateDocument

namespace InstructionDocument

theorem isPlain_of_isDigit {c : Char} (h : Text.isDigit c = true) : Json.isPlain c = true := by
  have hcode := Text.code_of_isDigit h
  simp only [Json.isPlain, Bool.and_eq_true, bne_iff_ne, decide_eq_true_eq]
  exact ⟨⟨Text.ne_of_isDigit h (by decide), Text.ne_of_isDigit h (by decide)⟩, by omega⟩

theorem plain_name (op : Opcode) : op.name.toList.all Json.isPlain = true := by
  cases op with
  | unknown byte free =>
      have hdigits : (Nat.toDigits 10 byte.toNat).all Json.isPlain = true :=
        List.all_eq_true.mpr fun c hc => isPlain_of_isDigit (Text.isDigit_of_mem_toDigits hc)
      rw [Opcode.toList_name_unknown, List.all_append, List.all_append, hdigits]
      decide
  | _ => decide

def ofInstruction (i : Instruction) : InstructionDocument := ⟨i.op.name.toList, i.operand⟩

def json (i : Instruction) : Json :=
  .object (("op".toList, .string i.op.name.toList) ::
    if i.operand = 0 then [] else [("x".toList, numberJson i.operand.toInt)])

theorem renders_json (i : Instruction) : Renders (ReadsValue 1) (render i).toList (json i) := by
  have hop : Renders (Json.ReadsMember 0)
      (memberText [] [] "op".toList ('"' :: (i.op.name.toList ++ ['"'])))
      ("op".toList, .string i.op.name.toList) :=
    Json.renders_member (by decide) (by decide) (by decide) (Json.renders_string (plain_name i.op))
  unfold render json
  by_cases hzero : i.operand = 0
  · have hobject := Json.renders_object compact (.cons hop .nil)
    simpa [hzero, Layout.text, compact, memberText] using hobject
  · have hoperand : Renders (Json.ReadsMember 0)
        (memberText [] [] "x".toList (toString i.operand.toInt).toList)
        ("x".toList, numberJson i.operand.toInt) :=
      Json.renders_member (by decide) (by decide) (by decide) (Json.renders_number _)
    have hobject := Json.renders_object compact (.cons hop (.cons hoperand .nil))
    simpa [hzero, Layout.text, compact, memberText] using hobject

theorem member_op (d : InstructionDocument) (s : List Char) :
    d.member "op".toList (.string s) = some { d with op := s } := rfl

theorem member_operand (d : InstructionDocument) (v : Int32) :
    d.member "x".toList (numberJson v.toInt) = some { d with operand := v } := by
  change (readWord (numberJson v.toInt)).map ({ d with operand := · }) = _
  rw [readWord_numberJson]
  rfl

theorem read_json (i : Instruction) : read (json i) = some (ofInstruction i) := by
  unfold json
  by_cases hzero : i.operand = 0
  · simp only [read, hzero, if_true, List.foldlM_cons, List.foldlM_nil, member_op, ofInstruction,
      Option.pure_def, Option.bind_eq_bind, Option.bind_some]
  · simp only [read, hzero, if_false, List.foldlM_cons, List.foldlM_nil, member_op, member_operand,
      ofInstruction, Option.pure_def, Option.bind_eq_bind, Option.bind_some]

end InstructionDocument

theorem renders_program (instructions : Array Instruction) :
    Renders (ReadsValue 2) (renderProgram instructions).toList
      (.array (instructions.toList.map InstructionDocument.json)) := by
  have htext : (renderProgram instructions).toList = compact.text '[' ']'
      (instructions.toList.map fun i => (InstructionDocument.render i).toList) := by
    unfold renderProgram
    simp [Layout.text, compact, Function.comp_def]
  rw [htext]
  apply Json.renders_array
  rw [List.forall₂_map_left_iff, List.forall₂_map_right_iff, List.forall₂_same]
  exact fun i _ => InstructionDocument.renders_json i

theorem readProgram_json (instructions : List Instruction) :
    readProgram (.array (instructions.map InstructionDocument.json)) =
      some (instructions.map InstructionDocument.ofInstruction) := by
  unfold readProgram
  induction instructions with
  | nil => rfl
  | cons i instructions ih => simp_all [InstructionDocument.read_json]

end PlZero.Snapshot
