import Mathlib.Data.List.Forall2
import Mathlib.Data.List.ReduceOption
import PlZero.Proofs.Assembly.RoundTrip
import PlZero.Proofs.Text.Lines

namespace PlZero

theorem Opcode.ofName?_eq_some_iff {name : String} {op : Opcode} :
    ofName? name = some op ↔ op.isKnown = true ∧ op.name = name := by
  constructor
  · intro h
    exact ⟨isKnown_of_ofName? h, by simpa using List.find?_some h⟩
  · rintro ⟨hknown, rfl⟩
    exact ofName?_name hknown

namespace Text

theorem splitOnP_eq_splitWords (cs : List Char) :
    ∃ pieces, cs.splitOnP isBlank = (splitWords cs).1 :: pieces ∧
      (splitWords cs).2 = pieces.filter (· ≠ []) := by
  induction cs with
  | nil => exact ⟨[], rfl, rfl⟩
  | cons c cs ih =>
      obtain ⟨pieces, hsplit, hmore⟩ := ih
      rw [List.splitOnP_cons_eq_if_modifyHead, hsplit, splitWords]
      by_cases hc : isBlank c = true
      · refine ⟨(splitWords cs).1 :: pieces, by simp [hc], ?_⟩
        simp [hc, hmore, List.filter_cons]
      · exact ⟨pieces, by simp [hc], by simp [hc, hmore]⟩

-- The words are what a text falls into at its blanks, without the empty pieces.
theorem words_eq_splitOnP (cs : List Char) : words cs = (cs.splitOnP isBlank).filter (· ≠ []) := by
  obtain ⟨pieces, hsplit, hmore⟩ := splitOnP_eq_splitWords cs
  simp [words, hsplit, hmore, List.filter_cons]

theorem words_eq_nil_iff {cs : List Char} : words cs = [] ↔ ∀ c ∈ cs, isBlank c = true := by
  rw [words_eq_splitOnP]
  induction cs with
  | nil => simp
  | cons c cs ih =>
      rw [List.splitOnP_cons_eq_if_modifyHead, List.forall_mem_cons, ← ih]
      by_cases hc : isBlank c = true
      · simp [hc]
      · obtain ⟨first, pieces, hsplit⟩ := List.exists_cons_of_ne_nil (List.splitOnP_ne_nil isBlank cs)
        simp [hc, hsplit]

end Text

namespace Assembly

-- A comment begins with a semicolon or with two slashes.
def StartsComment (cs : List Char) : Prop := [';'] <+: cs ∨ ['/', '/'] <+: cs

-- What stands in a line before the first comment, which is all of it if there is none.
structure Uncommented (line part : List Char) : Prop where
  front : part <+: line
  clear : ∀ k < part.length, ¬ StartsComment (line.drop k)
  stop : part = line ∨ StartsComment (line.drop part.length)

theorem Uncommented.unique {line part part' : List Char} (h : Uncommented line part)
    (h' : Uncommented line part') : part = part' := by
  have shorter {p q : List Char} (hp : Uncommented line p) (hq : Uncommented line q) :
      q.length ≤ p.length := by
    by_contra hlt
    rcases hp.stop with rfl | hstop
    · exact hlt hq.front.length_le
    · exact hq.clear _ (Nat.not_le.mp hlt) hstop
  exact (List.prefix_of_prefix_length_le h.front h'.front (shorter h' h)).eq_of_length
    (Nat.le_antisymm (shorter h' h) (shorter h h'))

theorem uncommented_withoutComment (line : List Char) : Uncommented line (withoutComment line) := by
  fun_induction withoutComment line with
  | case1 => exact ⟨List.prefix_refl _, by simp, .inl rfl⟩
  | case2 cs => exact ⟨List.nil_prefix, by simp, .inr (.inl ⟨cs, rfl⟩)⟩
  | case3 cs => exact ⟨List.nil_prefix, by simp, .inr (.inr ⟨cs, rfl⟩)⟩
  | case4 c cs hsemicolon hslash ih =>
      refine ⟨List.cons_prefix_cons.mpr ⟨rfl, ih.front⟩, ?_, ?_⟩
      · rintro (_ | k) hk
        · rintro (⟨more, hmore⟩ | ⟨more, hmore⟩)
          · cases hmore
            exact hsemicolon rfl
          · cases hmore
            exact hslash more rfl rfl
        · exact ih.clear k (Nat.lt_of_succ_lt_succ hk)
      · rcases ih.stop with heq | hstop
        · exact .inl (congrArg _ heq)
        · exact .inr hstop

theorem uncommented_iff {line part : List Char} : Uncommented line part ↔ part = withoutComment line := by
  constructor
  · intro h
    exact h.unique (uncommented_withoutComment line)
  · rintro rfl
    exact uncommented_withoutComment line

-- The instruction that the words of a line spell.
inductive Spelt : List (List Char) → Instruction → Prop where
  | bare {op : Opcode} (which : op ∈ [.ill, .add, .sub, .mul, .div, .wrt]) {mnemonic : List Char}
      (name : Text.upper mnemonic = op.name.toList) : Spelt [mnemonic] ⟨op, 0⟩
  | operand {op : Opcode} (which : op ∈ [.lit, .lod, .sto]) {mnemonic numeral : List Char}
      (name : Text.upper mnemonic = op.name.toList) {v : Int} (value : Text.Numeral numeral v)
      (low : -0x80000000 ≤ v) (high : v ≤ 0x7FFFFFFF) : Spelt [mnemonic, numeral] ⟨op, Int32.ofInt v⟩

-- What a line holds: no instruction if it is blank, and one if it is valid.
inductive Holds (line : List Char) : Option Instruction → Prop where
  | blank {part : List Char} (before : Uncommented line part)
      (blank : ∀ c ∈ part, Text.isBlank c = true) : Holds line none
  | valid {part : List Char} (before : Uncommented line part) {i : Instruction}
      (spelt : Spelt ((part.splitOnP Text.isBlank).filter (· ≠ [])) i) : Holds line (some i)

theorem operand_eq_ok_iff {n : Nat} {digits : List Char} {x : Int32} :
    operand n digits = .ok x ↔
      ∃ v, Text.Numeral digits v ∧ -0x80000000 ≤ v ∧ v ≤ 0x7FFFFFFF ∧ Int32.ofInt v = x := by
  have hread (v : Int) : Text.readSigned 32 digits = .ok v ↔
      Text.Numeral digits v ∧ -0x80000000 ≤ v ∧ v ≤ 0x7FFFFFFF := by
    rw [Text.readSigned_eq_ok_iff (by decide)]
    have hhalf : (Nat.pow 2 (32 - 1) : Nat) = 2147483648 := rfl
    rw [hhalf]
    refine and_congr_right fun _ => ?_
    omega
  simp only [← and_assoc, ← hread]
  unfold operand
  cases Text.readSigned 32 digits with
  | ok v => simp
  | error e => cases e <;> simp

theorem bare_iff {op : Opcode} :
    op.isKnown = true ∧ op.hasOperand = false ↔ op ∈ [.ill, .add, .sub, .mul, .div, .wrt] := by
  cases op <;> simp [Opcode.isKnown, Opcode.hasOperand]

theorem hasOperand_iff {op : Opcode} : op.hasOperand = true ↔ op ∈ [.lit, .lod, .sto] := by
  cases op <;> simp [Opcode.hasOperand]

theorem ofName?_upper_iff {mnemonic : List Char} {op : Opcode} :
    Opcode.ofName? (String.ofList (Text.upper mnemonic)) = some op ↔
      op.isKnown = true ∧ Text.upper mnemonic = op.name.toList := by
  rw [Opcode.ofName?_eq_some_iff, eq_comm (b := String.ofList _), ← String.toList_inj, String.toList_ofList]

theorem instruction_eq_ok_iff {n : Nat} {mnemonic : List Char} {words : List (List Char)} {i : Instruction} :
    instruction n mnemonic words = .ok i ↔ Spelt (mnemonic :: words) i := by
  constructor
  · intro h
    simp only [instruction] at h
    split at h
    · cases h
    · next op hop =>
        obtain ⟨hknown, hname⟩ := ofName?_upper_iff.mp hop
        split at h
        · next hoperand =>
            split at h
            · obtain ⟨x, hx, rfl⟩ := of_map_eq_ok h
              obtain ⟨v, hvalue, hlow, hhigh, rfl⟩ := operand_eq_ok_iff.mp hx
              exact .operand (hasOperand_iff.mp hoperand) hname hvalue hlow hhigh
            · cases h
        · next hbare =>
            split at h
            · next hwords =>
                cases h
                rw [List.isEmpty_iff.mp hwords]
                exact .bare (bare_iff.mp ⟨hknown, by simpa using hbare⟩) hname
            · cases h
  · intro h
    cases h with
    | bare which name =>
        obtain ⟨hknown, hbare⟩ := bare_iff.mpr which
        simp [instruction, ofName?_upper_iff.mpr ⟨hknown, name⟩, hbare]
    | operand which name value low high =>
        have hoperand := hasOperand_iff.mpr which
        have hop := ofName?_upper_iff.mpr ⟨isKnown_of_hasOperand hoperand, name⟩
        simp only [instruction, hop, hoperand, if_true,
          operand_eq_ok_iff.mpr ⟨_, value, low, high, rfl⟩, Except.map]

theorem readLine_eq_ok_iff {n : Nat} {line : List Char} {o : Option Instruction} :
    readLine n line = .ok o ↔ Holds line o := by
  constructor
  · intro h
    have hpart := uncommented_withoutComment line
    unfold readLine at h
    split at h
    · next hwords =>
        cases h
        exact .blank hpart (Text.words_eq_nil_iff.mp hwords)
    · next mnemonic words hwords =>
        obtain ⟨i, hi, rfl⟩ := of_map_eq_ok h
        refine .valid hpart ?_
        rw [← Text.words_eq_splitOnP, hwords]
        exact instruction_eq_ok_iff.mp hi
  · intro h
    cases h with
    | blank before blank =>
        rw [uncommented_iff] at before
        subst before
        rw [readLine, Text.words_eq_nil_iff.mpr blank]
    | valid before spelt =>
        rw [uncommented_iff] at before
        subst before
        rw [← Text.words_eq_splitOnP] at spelt
        unfold readLine
        split
        · next hwords =>
            rw [hwords] at spelt
            cases spelt
        · next mnemonic words hwords =>
            rw [hwords] at spelt
            rw [instruction_eq_ok_iff.mpr spelt, Except.map]

theorem line_of_instruction_error {n : Nat} {mnemonic : List Char} {words : List (List Char)}
    {e : AssemblyError} (h : instruction n mnemonic words = .error e) : e.line = n := by
  simp only [instruction] at h
  split at h
  · cases h
    rfl
  · split at h
    · split at h
      · next digits =>
          unfold operand at h
          split at h <;> cases h <;> rfl
      · cases h
        rfl
    · split at h <;> cases h
      rfl

theorem line_of_readLine_error {n : Nat} {line : List Char} {e : AssemblyError}
    (h : readLine n line = .error e) : e.line = n := by
  unfold readLine at h
  split at h
  · cases h
  · next mnemonic words _ =>
      cases hi : instruction n mnemonic words with
      | ok i =>
          rw [hi] at h
          cases h
      | error f =>
          rw [hi] at h
          cases h
          exact line_of_instruction_error hi

theorem readLines_eq_ok_iff {n : Nat} {lines : List (List Char)} {program : List Instruction} :
    readLines n lines = .ok program ↔
      ∃ contents, List.Forall₂ Holds lines contents ∧ program = contents.reduceOption := by
  induction lines generalizing n program with
  | nil =>
      constructor
      · rintro ⟨⟩
        exact ⟨[], .nil, rfl⟩
      · rintro ⟨_, ⟨⟩, rfl⟩
        rfl
  | cons line lines ih =>
      constructor
      · intro h
        obtain ⟨first, hfirst, h⟩ := of_bind_eq_ok h
        obtain ⟨rest, hrest, h⟩ := of_bind_eq_ok h
        cases h
        obtain ⟨contents, hcontents, rfl⟩ := ih.mp hrest
        refine ⟨first :: contents, .cons (readLine_eq_ok_iff.mp hfirst) hcontents, ?_⟩
        cases first <;> rfl
      · rintro ⟨_, hcontents, rfl⟩
        cases hcontents with
        | @cons _ first _ contents hfirst hrest =>
            rw [readLines, readLine_eq_ok_iff.mpr hfirst, ih.mpr ⟨contents, hrest, rfl⟩]
            cases first <;> rfl

theorem readLines_error {n : Nat} {lines : List (List Char)} {e : AssemblyError}
    (h : readLines n lines = .error e) :
    ∃ (k : Nat) (line : List Char), lines[k]? = some line ∧ (∀ o, ¬ Holds line o) ∧
      (∀ l ∈ lines.take k, ∃ o, Holds l o) ∧ e.line = n + k := by
  induction lines generalizing n with
  | nil => cases h
  | cons line lines ih =>
      cases hfirst : readLine n line with
      | error f =>
          rw [readLines, hfirst] at h
          cases h
          refine ⟨0, line, rfl, fun o ho => ?_, by simp, line_of_readLine_error hfirst⟩
          rw [readLine_eq_ok_iff.mpr ho] at hfirst
          cases hfirst
      | ok first =>
          cases hrest : readLines (n + 1) lines with
          | ok rest =>
              rw [readLines, hfirst, hrest] at h
              cases h
          | error f =>
              rw [readLines, hfirst, hrest] at h
              cases h
              obtain ⟨k, bad, hbad, hnone, hbefore, hline⟩ := ih hrest
              refine ⟨k + 1, bad, hbad, hnone, ?_, by omega⟩
              rw [List.take_succ_cons, List.forall_mem_cons]
              exact ⟨⟨first, readLine_eq_ok_iff.mp hfirst⟩, hbefore⟩

end Assembly

theorem AssemblyError.message_line (e : AssemblyError) :
    ∃ front back, e.message = front ++ " on line " ++ toString e.line ++ back ∧
      (back = "" ∨ ∃ rest, back = ": " ++ rest) := by
  cases e with
  | unknownInstruction line mnemonic =>
      refine ⟨"unknown instruction", ": " ++ mnemonic, ?_, .inr ⟨mnemonic, rfl⟩⟩
      have hfront : "unknown instruction on line " = "unknown instruction" ++ " on line " := by decide
      change "unknown instruction on line " ++ toString line ++ ": " ++ mnemonic = _
      simp only [hfront, String.append_assoc, AssemblyError.line]
  | unwantedOperand line op =>
      refine ⟨op.name ++ " takes no operand", "", ?_, .inl rfl⟩
      have hfront : " takes no operand on line " = " takes no operand" ++ " on line " := by decide
      change op.name ++ " takes no operand on line " ++ toString line = _
      simp only [hfront, String.append_assoc, String.append_empty, AssemblyError.line]
  | operandCount line op =>
      refine ⟨op.name ++ " expects exactly one operand", "", ?_, .inl rfl⟩
      have hfront :
          " expects exactly one operand on line " = " expects exactly one operand" ++ " on line " := by decide
      change op.name ++ " expects exactly one operand on line " ++ toString line = _
      simp only [hfront, String.append_assoc, String.append_empty, AssemblyError.line]
  | outOfRange line operand =>
      refine ⟨"immediate out of range", ": " ++ operand, ?_, .inr ⟨operand, rfl⟩⟩
      have hfront : "immediate out of range on line " = "immediate out of range" ++ " on line " := by decide
      change "immediate out of range on line " ++ toString line ++ ": " ++ operand = _
      simp only [hfront, String.append_assoc, AssemblyError.line]
  | malformed line operand =>
      refine ⟨"invalid immediate '" ++ operand ++ "'", "", ?_, .inl rfl⟩
      have hfront : "' on line " = "'" ++ " on line " := by decide
      change "invalid immediate '" ++ operand ++ "' on line " ++ toString line = _
      simp only [hfront, String.append_assoc, String.append_empty, AssemblyError.line]

theorem assemble_eq_ok_iff {bytes : List UInt8} {program : Array Instruction} :
    assemble (Text.Utf8.decode bytes) = .ok program ↔
      ∃ contents, List.Forall₂ Assembly.Holds ((bytes.splitOn 0x0A).map Text.Utf8.decode) contents ∧
        program.toList = contents.reduceOption := by
  rw [← Text.Utf8.lines_decode, ← Assembly.readLines_eq_ok_iff (n := 1), assemble]
  constructor
  · intro h
    obtain ⟨instructions, hread, rfl⟩ := of_map_eq_ok h
    exact hread
  · intro h
    rw [h, Except.map, Array.toArray_toList]

theorem assemble_error {bytes : List UInt8} {e : AssemblyError}
    (h : assemble (Text.Utf8.decode bytes) = .error e) :
    ∃ (k : Nat) (line : List Char), ((bytes.splitOn 0x0A).map Text.Utf8.decode)[k]? = some line ∧
      (∀ o, ¬ Assembly.Holds line o) ∧
      (∀ l ∈ ((bytes.splitOn 0x0A).map Text.Utf8.decode).take k, ∃ o, Assembly.Holds l o) ∧
      e.line = k + 1 := by
  rw [assemble, Text.Utf8.lines_decode] at h
  cases hread : Assembly.readLines 1 ((bytes.splitOn 0x0A).map Text.Utf8.decode) with
  | ok instructions =>
      rw [hread] at h
      cases h
  | error f =>
      rw [hread] at h
      cases h
      obtain ⟨k, line, hline, hnone, hbefore, hnumber⟩ := Assembly.readLines_error hread
      exact ⟨k, line, hline, hnone, hbefore, by omega⟩

theorem assemble_append {t u : List UInt8} {p q : Array Instruction}
    (ht : assemble (Text.Utf8.decode t) = .ok p) (hu : assemble (Text.Utf8.decode u) = .ok q) :
    assemble (Text.Utf8.decode (t ++ 0x0A :: u)) = .ok (p ++ q) := by
  obtain ⟨front, hfront, hp⟩ := assemble_eq_ok_iff.mp ht
  obtain ⟨back, hback, hq⟩ := assemble_eq_ok_iff.mp hu
  refine assemble_eq_ok_iff.mpr ⟨front ++ back, ?_, ?_⟩
  · rw [List.splitOn_append_cons_self, List.map_append]
    exact List.rel_append hfront hback
  · rw [Array.toList_append, hp, hq, List.reduceOption_append]

theorem assemble_accepts_listings :
    (∀ bytes : List UInt8,
      let lines := (bytes.splitOn 0x0A).map Text.Utf8.decode
      let result := assemble (Text.Utf8.decode bytes)
      ((∃ program, result = .ok program) ↔ ∀ line ∈ lines, ∃ o, Assembly.Holds line o) ∧
      (∀ program, result = .ok program ↔ ∃ contents, List.Forall₂ Assembly.Holds lines contents ∧
        program.toList = contents.reduceOption) ∧
      ∀ e, result = .error e → ∃ (k : Nat) (line : List Char), lines[k]? = some line ∧
        (∀ o, ¬ Assembly.Holds line o) ∧ (∀ l ∈ lines.take k, ∃ o, Assembly.Holds l o) ∧
        ∃ front back, e.message = front ++ " on line " ++ toString (k + 1) ++ back ∧
          (back = "" ∨ ∃ rest, back = ": " ++ rest)) ∧
    ∀ (t u : List UInt8) (p q : Array Instruction), assemble (Text.Utf8.decode t) = .ok p →
      assemble (Text.Utf8.decode u) = .ok q →
      assemble (Text.Utf8.decode (t ++ 0x0A :: u)) = .ok (p ++ q) := by
  refine ⟨fun bytes => ⟨⟨?_, fun h => ?_⟩, fun program => assemble_eq_ok_iff, fun e he => ?_⟩,
    fun t u p q ht hu => assemble_append ht hu⟩
  · rintro ⟨program, hprogram⟩ line hline
    obtain ⟨contents, hcontents, _⟩ := assemble_eq_ok_iff.mp hprogram
    obtain ⟨k, hk, rfl⟩ := List.mem_iff_getElem.mp hline
    exact ⟨_, hcontents.get hk (hcontents.length_eq ▸ hk)⟩
  · cases hresult : assemble (Text.Utf8.decode bytes) with
    | ok program => exact ⟨program, rfl⟩
    | error e =>
        obtain ⟨k, line, hline, hnone, _⟩ := assemble_error hresult
        obtain ⟨o, ho⟩ := h line (List.mem_of_getElem? hline)
        exact absurd ho (hnone o)
  · obtain ⟨k, line, hline, hnone, hbefore, hnumber⟩ := assemble_error he
    exact ⟨k, line, hline, hnone, hbefore, hnumber ▸ e.message_line⟩

end PlZero
