import PlZero.Proofs.Archive.Packing
import PlZero.Proofs.Snapshot.Documents
import PlZero.Proofs.Text.Encoding

namespace PlZero.Snapshot

-- What a snapshot can hold: a 64-bit place in the program, and as many bytes as an archive can have.
structure Fits (m : Machine) : Prop where
  low : -(Nat.pow 2 63 : Nat) ≤ m.ip
  high : m.ip < (Nat.pow 2 63 : Nat)
  size : (save m).length < Archive.offsetLimit

instance (m : Machine) : Decidable (Fits m) :=
  decidable_of_iff (-(Nat.pow 2 63 : Nat) ≤ m.ip ∧ m.ip < (Nat.pow 2 63 : Nat) ∧
      (save m).length < Archive.offsetLimit)
    ⟨fun h => ⟨h.1, h.2.1, h.2.2⟩, fun h => ⟨h.low, h.high, h.size⟩⟩

def packed (entry : String × String) : Archive.Member :=
  ⟨(Text.Utf8.encode entry.1).toList, (Text.Utf8.encode entry.2).toList⟩

def members (m : Machine) : List Archive.Member := (entries m).map packed

theorem save_eq (m : Machine) : save m = Archive.pack (members m) := rfl

theorem name_lt (m : Machine) : ∀ member ∈ members m, member.name.length < 0x10000 := by
  have hnames : ∀ name ∈ [stateName, programName, listingName],
      (Text.Utf8.encode name).toList.length < 0x10000 := by decide +kernel
  intro member hmember
  obtain ⟨entry, hentry, rfl⟩ := List.mem_map.mp hmember
  exact hnames entry.1 (List.mem_map_of_mem hentry)

theorem nodup_names (m : Machine) : ((members m).map Archive.Member.name).Nodup := by
  have hnodup : [stateName, programName, listingName].Nodup := by decide
  exact List.Pairwise.map (fun name => (Text.Utf8.encode name).toList)
    (fun _ _ hne heq => hne (Text.Utf8.encode_injective heq)) hnodup

theorem readEntry_save {m : Machine} (h : (save m).length < Archive.offsetLimit)
    {entry : String × String} (hentry : entry ∈ entries m) :
    readEntry (save m) (Archive.headers 0 (members m)) entry.1 = .ok entry.2.toList := by
  obtain ⟨header, hfound, hread⟩ := Archive.findEntry?_pack (name_lt m) h (nodup_names m)
    (List.mem_map_of_mem (f := packed) hentry)
  have hread : Archive.readContents (save m) header = .ok (Text.Utf8.encode entry.2).toList := hread
  have hfound : Archive.findEntry? (Archive.headers 0 (members m)) (Text.Utf8.encode entry.1).toList =
    some header := hfound
  simp only [readEntry, hfound, hread, Text.Utf8.decode_encode]

theorem ok_bind {ε α β : Type} (a : α) (f : α → Except ε β) : Except.ok a >>= f = f a := rfl

theorem restoreTexts_render {m : Machine} (h : Fits m) :
    restoreTexts (StateDocument.render m).toList (.ok (renderProgram m.program).toList) =
      (program 0 (m.program.toList.map InstructionDocument.ofInstruction)).map
        fun instructions => { m with program := instructions.toArray } := by
  obtain ⟨cells, hstate, hwords⟩ := StateDocument.read_json h.low h.high
  have hparse := (StateDocument.renders_json m).parse? (by decide)
  have hprogram := (renders_program m.program).parse? (by decide)
  have hread := readProgram_json m.program.toList
  simp only [restoreTexts, hparse, Option.bind_some, hstate, ok_bind, hprogram, hread, hwords]
  cases program 0 (m.program.toList.map InstructionDocument.ofInstruction) with
  | error e => rfl
  | ok instructions => rfl

theorem readDirectory_save {m : Machine} (h : (save m).length < Archive.offsetLimit) :
    Archive.readDirectory (save m) = some (Archive.headers 0 (members m)) := by
  rw [save_eq] at h ⊢
  exact Archive.readDirectory_pack (name_lt m) h

theorem restore_of_texts {bytes : List UInt8} {headers : List Archive.Header} {state code : List Char}
    (hdirectory : Archive.readDirectory bytes = some headers)
    (hstate : readEntry bytes headers stateName = .ok state)
    (hcode : readEntry bytes headers programName = .ok code) :
    restore bytes = restoreTexts state (.ok code) := by
  rw [restore, hdirectory, restoreEntries, hstate, hcode, ok_bind]

theorem restore_save {m : Machine} (h : Fits m) :
    restore (save m) = (program 0 (m.program.toList.map InstructionDocument.ofInstruction)).map
      fun instructions => { m with program := instructions.toArray } := by
  have hstate : readEntry (save m) (Archive.headers 0 (members m)) stateName =
    .ok (StateDocument.render m).toList := readEntry_save h.size (.head _)
  have hprogram : readEntry (save m) (Archive.headers 0 (members m)) programName =
    .ok (renderProgram m.program).toList := readEntry_save h.size (.tail _ (.head _))
  rw [restore_of_texts (readDirectory_save h.size) hstate hprogram, restoreTexts_render h]

theorem program_known (index : Nat) {instructions : List Instruction}
    (h : ∀ i ∈ instructions, i.op.isKnown = true) :
    program index (instructions.map InstructionDocument.ofInstruction) = .ok instructions := by
  induction instructions generalizing index with
  | nil => rfl
  | cons i instructions ih =>
      have htail := ih (index + 1) fun i hi => h i (List.mem_cons_of_mem _ hi)
      simp only [List.map_cons, program, InstructionDocument.ofInstruction, String.ofList_toList,
        Opcode.ofName?_name (h i List.mem_cons_self)] at htail ⊢
      rw [htail]
      rfl

theorem program_unknown (index : Nat) {before : List Instruction} {i : Instruction}
    (h : ∀ i ∈ before, i.op.isKnown = true) (hi : i.op.isKnown = false) (after : List Instruction) :
    program index ((before ++ i :: after).map InstructionDocument.ofInstruction) =
      .error (.unknownOpcode (index + before.length) i.op.name) := by
  induction before generalizing index with
  | nil =>
      simp only [List.nil_append, List.map_cons, program, InstructionDocument.ofInstruction,
        String.ofList_toList, Opcode.ofName?_name_unknown hi, List.length_nil, Nat.add_zero]
  | cons j before ih =>
      have htail := ih (index + 1) fun i hi => h i (List.mem_cons_of_mem _ hi)
      simp only [List.cons_append, List.map_cons, program, InstructionDocument.ofInstruction,
        String.ofList_toList, Opcode.ofName?_name (h j List.mem_cons_self)] at htail ⊢
      rw [htail, List.length_cons, Nat.add_assoc, Nat.add_comm 1]
      rfl

theorem restore_save_known {m : Machine} (h : Fits m) (hknown : ∀ i ∈ m.program, i.op.isKnown = true) :
    restore (save m) = .ok m := by
  rw [restore_save h, program_known 0 fun i hi => hknown i (Array.mem_toList_iff.mp hi)]
  rfl

theorem restore_save_unknown {m : Machine} (h : Fits m)
    (hunknown : ¬ ∀ i ∈ m.program, i.op.isKnown = true) :
    ∃ k i, m.program[k]? = some i ∧ i.op.isKnown = false ∧
      (∀ j < k, ∀ i, m.program[j]? = some i → i.op.isKnown = true) ∧
      restore (save m) = .error (.unknownOpcode k i.op.name) := by
  obtain ⟨i, hfirst⟩ : ∃ i, m.program.toList.find? (fun i => !i.op.isKnown) = some i := by
    simpa [← Option.isSome_iff_exists] using hunknown
  obtain ⟨hi, before, after, hsplit, hbefore⟩ := List.find?_eq_some_iff_append.mp hfirst
  have hi : i.op.isKnown = false := by simpa using hi
  have hbefore : ∀ i ∈ before, i.op.isKnown = true := by simpa using hbefore
  refine ⟨before.length, i, ?_, hi, ?_, ?_⟩
  · rw [← Array.getElem?_toList, hsplit]
    simp
  · intro j hj i hget
    rw [← Array.getElem?_toList, hsplit, List.getElem?_append_left hj] at hget
    exact hbefore i (List.mem_of_getElem? hget)
  · rw [restore_save h, hsplit, program_unknown 0 hbefore hi, Nat.zero_add]
    rfl

-- What is kept: the names and the texts of the entries as bytes.
def contents (m : Machine) : List (List UInt8 × List UInt8) :=
  (entries m).map fun (name, text) => ((Text.Utf8.encode name).toList, (Text.Utf8.encode text).toList)

theorem readAll_save {m : Machine} (h : (save m).length < Archive.offsetLimit) :
    Archive.readAll (save m) = some (contents m) := by
  rw [save_eq] at h ⊢
  rw [Archive.readAll_pack (name_lt m) h, members, List.map_map]
  rfl

-- A machine from a snapshot, attached to nothing.
def reopen (bytes : List UInt8) : Except RestoreError Execution :=
  (restore bytes).map fun machine => { machine }

theorem snapshot_round_trip (p : Execution) (h : Fits p.machine) :
    ((∀ i ∈ p.machine.program, i.op.isKnown = true) →
      ∃ q, reopen (save p.machine) = .ok q ∧ q.machine = p.machine ∧ q.console.sink = none ∧
        q.console.trace = none ∧ Archive.readAll (save p.machine) = some (contents p.machine) ∧
        Archive.readAll (save q.machine) = some (contents p.machine) ∧
        (entries p.machine).map Prod.fst = ["vm_state.json", "program.json", "program.asm"]) ∧
    ((¬ ∀ i ∈ p.machine.program, i.op.isKnown = true) →
      ∃ k i, p.machine.program[k]? = some i ∧ i.op.isKnown = false ∧
        (∀ j < k, ∀ i, p.machine.program[j]? = some i → i.op.isKnown = true) ∧
        reopen (save p.machine) = .error (.unknownOpcode k i.op.name)) := by
  constructor
  · intro hknown
    have hall := readAll_save h.size
    refine ⟨{ machine := p.machine }, ?_, rfl, rfl, rfl, hall, hall, rfl⟩
    rw [reopen, restore_save_known h hknown]
    rfl
  · intro hunknown
    obtain ⟨k, i, hget, hi, hfirst, hrestore⟩ := restore_save_unknown h hunknown
    refine ⟨k, i, hget, hi, hfirst, ?_⟩
    rw [reopen, hrestore]
    rfl

def extremes (op : Opcode) : Machine where
  program := #[⟨.lit, -2147483648⟩, ⟨.add, 7⟩, ⟨op, 2147483647⟩]
  stack := #[-2147483648, 0, 2147483647]
  ip := -9223372036854775808
  halted := true
  executed := 18446744073709551615

theorem snapshot_round_trip_extremes :
    (Fits (extremes .sto) ∧ (∀ i ∈ (extremes .sto).program, i.op.isKnown = true) ∧
      ∃ q, reopen (save (extremes .sto)) = .ok q ∧ q.machine = extremes .sto ∧ q.console.sink = none) ∧
    Fits (extremes (.unknown 255 (by decide))) ∧
      ∃ k i, (extremes (.unknown 255 (by decide))).program[k]? = some i ∧ i.op.isKnown = false ∧
        reopen (save (extremes (.unknown 255 (by decide)))) = .error (.unknownOpcode k i.op.name) := by
  have hknown : Fits (extremes .sto) := by decide +kernel
  have hunknown : Fits (extremes (.unknown 255 (by decide))) := by decide +kernel
  obtain ⟨q, hopen, hmachine, hsink, _⟩ := (snapshot_round_trip { machine := _ } hknown).1 (by decide)
  obtain ⟨k, i, hget, hi, _, herror⟩ := (snapshot_round_trip { machine := _ } hunknown).2 (by decide)
  exact ⟨⟨hknown, by decide, q, hopen, hmachine, hsink⟩, hunknown, k, i, hget, hi, herror⟩

end PlZero.Snapshot
