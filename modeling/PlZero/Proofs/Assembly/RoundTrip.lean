import PlZero.Assembly.Assemble
import PlZero.Assembly.Listing
import PlZero.Proofs.Compilation.Replay
import PlZero.Proofs.Text.Lines
import PlZero.Proofs.Text.Numerals

namespace PlZero

namespace Text

theorem splitWords_append {word : List Char} (h : ∀ c ∈ word, isBlank c = false) (rest : List Char) :
    splitWords (word ++ rest) = (word ++ (splitWords rest).1, (splitWords rest).2) := by
  induction word with
  | nil => rfl
  | cons c word ih =>
      have htail := ih fun c hc => h c (List.mem_cons_of_mem _ hc)
      simp [splitWords, htail, h c (by simp)]

theorem words_singleton {word : List Char} (h : ∀ c ∈ word, isBlank c = false) (hne : word ≠ []) :
    words word = [word] := by
  have hsplit := splitWords_append h []
  rw [List.append_nil] at hsplit
  simp [words, hsplit, splitWords, hne]

theorem words_pair {first second : List Char} (hfirst : ∀ c ∈ first, isBlank c = false)
    (hsecond : ∀ c ∈ second, isBlank c = false) (hne : first ≠ []) (hne' : second ≠ []) :
    words (first ++ ' ' :: second) = [first, second] := by
  have hrest : splitWords (' ' :: second) = ([], [second]) := by
    have hsplit := splitWords_append hsecond []
    rw [List.append_nil] at hsplit
    simp [splitWords, hsplit, hne', show isBlank ' ' = true by decide]
  simp [words, splitWords_append hfirst, hrest, hne]

theorem upperChar_of_lt {c : Char} (h : c.toNat < 0x61) : upperChar c = c := by
  have hrows : ∀ row ∈ upperRows, 0x61 ≤ row.first := by decide +kernel
  have hnone : upperRows.find? (·.holds c.toNat) = none := by
    rw [List.find?_eq_none]
    intro row hrow hholds
    have hfirst := hrows row hrow
    simp only [CaseRow.holds, Bool.and_eq_true, decide_eq_true_eq] at hholds
    omega
  rw [upperChar, hnone]

theorem upper_of_lt {cs : List Char} (h : ∀ c ∈ cs, c.toNat < 0x61) : upper cs = cs := by
  rw [upper, List.map_congr_left fun c hc => upperChar_of_lt (h c hc), List.map_id']

end Text

theorem of_map_eq_ok {ε α β : Type} {x : Except ε α} {f : α → β} {b : β} (h : x.map f = .ok b) :
    ∃ a, x = .ok a ∧ f a = b := by
  cases x with
  | error e => cases h
  | ok a => exact ⟨a, rfl, Except.ok.inj h⟩

namespace Assembly

-- A character that ends neither a word nor a line and begins no comment.
def isPlain (c : Char) : Bool :=
  !Text.isBlank c && c != '\n' && c != ';' && c != '/'

theorem isPlain_of_isDigit {c : Char} (h : Text.isDigit c = true) : isPlain c = true := by
  have hcode := Text.code_of_isDigit h
  have hblank : Text.isBlank c = false := by
    simp only [Text.isBlank, Text.blankRanges, Text.inRanges]
    simp
    omega
  have hne : c ≠ '\n' ∧ c ≠ ';' ∧ c ≠ '/' :=
    ⟨Text.ne_of_isDigit h (by decide), Text.ne_of_isDigit h (by decide), Text.ne_of_isDigit h (by decide)⟩
  simp [isPlain, hblank, hne]

theorem plain_toString (v : Int) : ∀ c ∈ (toString v).toList, isPlain c = true := by
  intro c hc
  rcases Text.mem_toString hc with rfl | hdigit
  · decide
  · exact isPlain_of_isDigit hdigit

theorem plain_name {op : Opcode} (h : op.isKnown = true) : ∀ c ∈ op.name.toList, isPlain c = true := by
  apply List.all_eq_true.mp
  cases op with
  | unknown => cases h
  | _ => decide

theorem name_ne_nil {op : Opcode} (h : op.isKnown = true) : op.name.toList ≠ [] := by
  cases op with
  | unknown => cases h
  | _ => decide

theorem upper_name {op : Opcode} (h : op.isKnown = true) :
    Text.upper op.name.toList = op.name.toList := by
  have hcodes : op.name.toList.all (fun c => decide (c.toNat < 0x61)) = true := by
    cases op with
    | unknown => cases h
    | _ => decide
  apply Text.upper_of_lt
  simpa using hcodes

theorem withoutComment_eq {cs : List Char} (h : ∀ c ∈ cs, c ≠ ';' ∧ c ≠ '/') :
    withoutComment cs = cs := by
  fun_induction withoutComment cs with
  | case1 => rfl
  | case2 => exact absurd rfl (h ';' (by simp)).1
  | case3 => exact absurd rfl (h '/' (by simp)).2
  | case4 c cs _ _ ih => rw [ih fun c hc => h c (List.mem_cons_of_mem _ hc)]

theorem blank_of_plain {c : Char} (h : isPlain c = true) : Text.isBlank c = false := by
  simp_all [isPlain]

theorem comment_of_plain {c : Char} (h : isPlain c = true) : c ≠ ';' ∧ c ≠ '/' := by
  simp_all [isPlain]

theorem operand_toString (line : Nat) (x : Int32) : operand line (toString x.toInt).toList = .ok x := by
  simp only [operand, Text.readSigned_int32, Int32.ofInt_toInt]

theorem isKnown_of_hasOperand {op : Opcode} (h : op.hasOperand = true) : op.isKnown = true := by
  cases op <;> first | rfl | cases h

theorem readLine_bare (line : Nat) {op : Opcode} (hknown : op.isKnown = true)
    (hbare : op.hasOperand = false) : readLine line op.name.toList = .ok (some ⟨op, 0⟩) := by
  have hplain := plain_name hknown
  have hwords : Text.words op.name.toList = [op.name.toList] :=
    Text.words_singleton (fun c hc => blank_of_plain (hplain c hc)) (name_ne_nil hknown)
  rw [readLine, withoutComment_eq fun c hc => comment_of_plain (hplain c hc), hwords]
  simp [instruction, upper_name hknown, Opcode.ofName?_name hknown, hbare, Except.map]

theorem readLine_operand (line : Nat) {op : Opcode} (h : op.hasOperand = true) (x : Int32) :
    readLine line (op.name ++ " " ++ toString x.toInt).toList = .ok (some ⟨op, x⟩) := by
  have hknown := isKnown_of_hasOperand h
  have hname := plain_name hknown
  have hdigits := plain_toString x.toInt
  have htext : (op.name ++ " " ++ toString x.toInt).toList =
      op.name.toList ++ ' ' :: (toString x.toInt).toList := by
    simp
  have hwords : Text.words (op.name.toList ++ ' ' :: (toString x.toInt).toList) =
      [op.name.toList, (toString x.toInt).toList] :=
    Text.words_pair (fun c hc => blank_of_plain (hname c hc))
      (fun c hc => blank_of_plain (hdigits c hc)) (name_ne_nil hknown) Text.toString_ne_nil
  have hcomment : ∀ c ∈ op.name.toList ++ ' ' :: (toString x.toInt).toList, c ≠ ';' ∧ c ≠ '/' := by
    intro c hc
    rcases List.mem_append.mp hc with hc | hc
    · exact comment_of_plain (hname c hc)
    · rcases List.mem_cons.mp hc with rfl | hc
      · decide
      · exact comment_of_plain (hdigits c hc)
  rw [htext, readLine, withoutComment_eq hcomment, hwords]
  simp only [instruction, upper_name hknown, String.ofList_toList, Opcode.ofName?_name hknown, h, if_true,
    operand_toString, Except.map]

theorem readLine_render (line : Nat) (i : Instruction) :
    readLine line i.render.toList = .ok (some i.canonical) := by
  obtain ⟨op, x, hop, hrender, hcanonical⟩ | ⟨op, hknown, hbare, hrender, hcanonical⟩ := i.written_cases
  · rw [hrender, hcanonical, readLine_operand line hop]
  · rw [hrender, hcanonical, readLine_bare line hknown hbare]

theorem render_no_break (i : Instruction) : '\n' ∉ i.render.toList := by
  have hbreak : isPlain '\n' = false := by decide
  obtain ⟨op, x, hop, hrender, _⟩ | ⟨op, hknown, _, hrender, _⟩ := i.written_cases
  · have hname := plain_name (isKnown_of_hasOperand hop) '\n'
    have hdigits := plain_toString x.toInt '\n'
    simp only [hrender, String.toList_append, List.mem_append, hbreak, Bool.false_eq_true] at hname hdigits ⊢
    rintro ((hmem | hmem) | hmem)
    · exact hname hmem
    · exact absurd hmem (by decide)
    · exact hdigits hmem
  · intro hmem
    rw [hrender] at hmem
    rw [plain_name hknown _ hmem] at hbreak
    cases hbreak

theorem readLines_listing (line : Nat) (program : List Instruction) :
    readLines line (Text.lines (program.flatMap fun i => i.render.toList ++ ['\n'])) =
      .ok (program.map Instruction.canonical) := by
  induction program generalizing line with
  | nil => rfl
  | cons i program ih =>
      rw [List.flatMap_cons, List.append_assoc, List.singleton_append,
        Text.lines_append (render_no_break i), readLines, readLine_render, ih]
      rfl

theorem instruction_canonical {line : Nat} {mnemonic : List Char} {words : List (List Char)}
    {i : Instruction} (h : instruction line mnemonic words = .ok i) : i.canonical = i := by
  simp only [instruction] at h
  split at h
  · cases h
  · next op hop =>
      split at h
      · next hoperand =>
          split at h
          · obtain ⟨x, _, rfl⟩ := of_map_eq_ok h
            exact Instruction.canonical_of_hasOperand hoperand
          · cases h
      · split at h <;> cases h
        exact Instruction.canonical_of_isKnown (Opcode.isKnown_of_ofName? hop)

theorem readLine_canonical {line : Nat} {cs : List Char} {i : Instruction}
    (h : readLine line cs = .ok (some i)) : i.canonical = i := by
  unfold readLine at h
  split at h
  · cases h
  · obtain ⟨j, hj, heq⟩ := of_map_eq_ok h
    cases heq
    exact instruction_canonical hj

theorem readLines_canonical {line : Nat} {lines : List (List Char)} {program : List Instruction}
    (h : readLines line lines = .ok program) : ∀ i ∈ program, i.canonical = i := by
  induction lines generalizing line program with
  | nil =>
      cases h
      simp
  | cons cs lines ih =>
      obtain ⟨first, hfirst, h⟩ := of_bind_eq_ok h
      obtain ⟨rest, hrest, h⟩ := of_bind_eq_ok h
      cases h
      intro i hi
      rcases List.mem_append.mp hi with hi | hi
      · rw [Option.mem_toList] at hi
        exact readLine_canonical (hfirst.trans (congrArg Except.ok hi))
      · exact ih hrest i hi

end Assembly

theorem toList_disassemble (program : Array Instruction) :
    (disassemble program).toList = program.toList.flatMap fun i => i.render.toList ++ ['\n'] := by
  simp [disassemble, listing, String.toList_join, List.flatMap_map]

theorem assemble_disassemble (program : Array Instruction) :
    assemble (disassemble program).toList = .ok (program.map Instruction.canonical) := by
  rw [assemble, toList_disassemble, Assembly.readLines_listing, Except.map, ← Array.toList_map,
    Array.toArray_toList]

theorem map_canonical_eq {program : Array Instruction} (h : ∀ i ∈ program, i.canonical = i) :
    program.map Instruction.canonical = program := by
  rw [Array.map_congr_left h, Array.map_id']

theorem assemble_canonical {source : List Char} {program : Array Instruction}
    (h : assemble source = .ok program) : program.map Instruction.canonical = program := by
  obtain ⟨instructions, hread, rfl⟩ := of_map_eq_ok h
  exact map_canonical_eq fun i hi => Assembly.readLines_canonical hread i (by simpa using hi)

theorem compile_canonical {source : List Char} {code : Array Instruction}
    (h : (compile source).1 = .ok code) : code.map Instruction.canonical = code := by
  rw [compile_eq] at h
  have hsound : Analyser.Verdict.Sound (fun _ => True)
      (Analyser.pursue (.eof (Lexer.ofText source).answers.2) 0 {} Task.program
        (Lexer.ofText source).answers.1) :=
    Analyser.pursue_sound (fun _ _ => trivial) (fun _ _ => trivial) Draft.canonical_empty
      Task.sound_program
  rw [hsound.answer code h]
  exact map_canonical_eq hsound.code

theorem run_start_canonical (program : Array Instruction) (console : Console) :
    (Execution.start (program.map Instruction.canonical) console).run =
      ((Execution.start program console).run.1.map RuntimeError.canonical,
        (Execution.start program console).run.2.canonical) :=
  Execution.run_canonical (Execution.start program console)

theorem assembly_canonical_form :
    (∀ program : Array Instruction,
      assemble (disassemble program).toList = .ok (program.map Instruction.canonical)) ∧
    (∀ source program, assemble source = .ok program ∨ (compile source).1 = .ok program →
      program.map Instruction.canonical = program ∧
        assemble (disassemble program).toList = .ok program) ∧
    ∀ (program : Array Instruction) (console : Console),
      let ended := (Execution.start program console).run
      let ended' := (Execution.start (program.map Instruction.canonical) console).run
      ended'.2.console = ended.2.console ∧
      ended'.2.machine = { ended.2.machine with program := program.map Instruction.canonical } ∧
      (ended'.1.map fun e => (e.fault, e.ip, e.render)) = ended.1.map fun e => (e.fault, e.ip, e.render) := by
  refine ⟨assemble_disassemble, fun source program h => ?_, fun program console => ?_⟩
  · have hfixed := h.elim assemble_canonical compile_canonical
    exact ⟨hfixed, by rw [assemble_disassemble, hfixed]⟩
  intro ended ended'
  have hended : ended' = (ended.1.map RuntimeError.canonical, ended.2.canonical) :=
    run_start_canonical program console
  have hprogram : ended.2.machine.program = program := (Execution.advance_start program console _).1
  rw [hended]
  refine ⟨rfl, ?_, ?_⟩
  · rw [Execution.canonical, Machine.canonical, hprogram]
  · cases ended.1 with
    | none => rfl
    | some e =>
        simp only [Option.map_some, RuntimeError.render_canonical]
        rfl

end PlZero
