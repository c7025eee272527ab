import PlZero.Proofs.Snapshot.RoundTrip

namespace PlZero

namespace Text

theorem length_toDigits_le {n k : Nat} (hk : 0 < k) (h : n < Nat.pow 10 k) :
    (Nat.toDigits 10 n).length ≤ k :=
  (Nat.length_toDigits_le_iff (by decide) hk).mpr h

theorem length_toString_le {v : Int} {k : Nat} (hk : 0 < k) (h : v.natAbs < Nat.pow 10 k) :
    (toString v).toList.length ≤ k + 1 := by
  cases v with
  | ofNat n =>
      rw [Int.ofNat_eq_natCast, toList_toString_ofNat]
      exact Nat.le_succ_of_le (length_toDigits_le hk h)
  | negSucc n =>
      rw [toList_toString_negSucc, List.length_cons]
      exact Nat.succ_le_succ (length_toDigits_le hk h)

theorem length_toString_int32 (v : Int32) : (toString v.toInt).toList.length ≤ 11 := by
  have hlow := v.le_toInt
  have hhigh := v.toInt_lt
  exact length_toString_le (k := 10) (by decide) (by simp at hlow hhigh ⊢; omega)

theorem length_intercalate_le (sep : String) {texts : List String} {k : Nat}
    (h : ∀ s ∈ texts, s.toList.length ≤ k) :
    (sep.intercalate texts).toList.length ≤ (k + sep.toList.length) * texts.length := by
  induction texts with
  | nil => simp
  | cons s texts ih =>
      have hs := h s (by simp)
      have htail := ih fun s hs => h s (List.mem_cons_of_mem _ hs)
      cases texts with
      | nil =>
          rw [String.intercalate_singleton]
          simp only [List.length_singleton]
          omega
      | cons t texts =>
          rw [String.intercalate_cons_cons, String.toList_append, String.toList_append,
            List.length_append, List.length_append, List.length_cons, Nat.mul_succ]
          omega

theorem length_join_le {texts : List String} {k : Nat} (h : ∀ s ∈ texts, s.toList.length ≤ k) :
    (String.join texts).toList.length ≤ k * texts.length := by
  induction texts with
  | nil => simp
  | cons s texts ih =>
      have hs := h s (by simp)
      have htail := ih fun s hs => h s (List.mem_cons_of_mem _ hs)
      rw [String.join_cons, String.toList_append, List.length_append, List.length_cons, Nat.mul_succ]
      omega

theorem Utf8.length_encode_le (s : String) : (encode s).toList.length ≤ 4 * s.toList.length := by
  rw [toList_encode]
  induction s.toList with
  | nil => exact Nat.le_refl _
  | cons c cs ih =>
      have hc := c.utf8Size_le_four
      rw [List.flatMap_cons, List.length_append, String.length_utf8EncodeChar, List.length_cons]
      omega

end Text

theorem Opcode.length_name_le (op : Opcode) : op.name.toList.length ≤ 11 := by
  cases op with
  | unknown byte free =>
      have hbyte := byte.toNat_lt
      have hdigits : (Nat.toDigits 10 byte.toNat).length ≤ 3 :=
        Text.length_toDigits_le (by decide) (Nat.lt_of_lt_of_le hbyte (by decide))
      rw [toList_name_unknown]
      simp
      omega
  | _ => decide

theorem Instruction.length_render_le (i : Instruction) : i.render.toList.length ≤ 23 := by
  obtain ⟨op, x, _, hrender, _⟩ | ⟨op, _, _, hrender, _⟩ := i.written_cases
  · have hname := op.length_name_le
    have hdigits := Text.length_toString_int32 x
    rw [hrender]
    simp at hname hdigits ⊢
    omega
  · rw [hrender]
    exact Nat.le_trans op.length_name_le (by decide)

namespace Snapshot

theorem InstructionDocument.length_render_le (i : Instruction) :
    (InstructionDocument.render i).toList.length ≤ 36 := by
  have hname := i.op.length_name_le
  have hdigits := Text.length_toString_int32 i.operand
  unfold InstructionDocument.render
  split
  · simp at hname ⊢
    omega
  · simp at hname hdigits ⊢
    omega

theorem length_renderProgram_le (program : Array Instruction) :
    (renderProgram program).toList.length ≤ 2 + 37 * program.size := by
  have hlist := Text.length_intercalate_le "," (k := 36)
    (List.forall_mem_map.mpr fun i (_ : i ∈ program.toList) => InstructionDocument.length_render_le i)
  simp [renderProgram] at hlist ⊢
  omega

theorem length_renderListing_le (m : Machine) :
    (renderListing m).toList.length ≤ 26 * m.program.size := by
  have hlines : ∀ s ∈ m.program.toList.mapIdx fun i instruction =>
      (if (i : Int) = m.ip then "> " else "  ") ++ instruction.render ++ "\n", s.toList.length ≤ 26 := by
    intro s hs
    obtain ⟨i, hi, rfl⟩ := List.mem_mapIdx.mp hs
    have hrender := m.program.toList[i].length_render_le
    split <;> simp at hrender ⊢ <;> omega
  have hlist := Text.length_join_le hlines
  rwa [List.length_mapIdx] at hlist

theorem StateDocument.length_renderWords_le (words : List Int32) :
    (renderWords words).toList.length ≤ 6 + 17 * words.length := by
  unfold renderWords
  split
  · exact Nat.le_trans (by decide) (Nat.le_add_right 6 _)
  · have hlines : ∀ s ∈ words.map fun v => "    " ++ toString v.toInt, s.toList.length ≤ 15 := by
      intro s hs
      obtain ⟨v, _, rfl⟩ := List.mem_map.mp hs
      have hdigits := Text.length_toString_int32 v
      simp at hdigits ⊢
      omega
    have hlist := Text.length_intercalate_le ",\n" hlines
    simp at hlist ⊢
    omega

theorem StateDocument.length_render_le {m : Machine} (hlow : -(Nat.pow 2 63 : Nat) ≤ m.ip)
    (hhigh : m.ip < (Nat.pow 2 63 : Nat)) :
    (render m).toList.length ≤ 120 + 17 * m.stack.size := by
  have hip : (toString m.ip).toList.length ≤ 20 :=
    Text.length_toString_le (k := 19) (by decide) (by simp at hlow hhigh ⊢; omega)
  have hexecuted : (Nat.toDigits 10 m.executed.toNat).length ≤ 20 :=
    Text.length_toDigits_le (by decide) (Nat.lt_of_lt_of_le m.executed.toNat_lt (by decide))
  have hhalted : (toString m.halted).toList.length ≤ 5 := by
    cases m.halted <;> decide
  have hwords := length_renderWords_le m.stack.toList
  unfold render
  simp at hip hexecuted hhalted hwords ⊢
  omega

end Snapshot

namespace Archive

theorem length_record (m : Member) : m.record.length = 50 + m.name.length + m.contents.length := by
  rw [m.record_eq, List.length_append, List.length_append, List.length_append, m.length_front,
    m.length_wideSizes, entryHeaderSize, List.length_nil]
  omega

theorem length_listed (m : Member) (offset : Nat) : (m.listed offset).length = 74 + m.name.length := by
  rw [m.listed_eq, List.length_append, List.length_append, m.length_head, m.length_wideSizes, length_field,
    directoryHeaderSize]
  omega

end Archive

namespace Snapshot

theorem length_save_le (m : Machine) :
    (save m).length ≤ 1000 + 4 * ((StateDocument.render m).toList.length +
      (renderProgram m.program).toList.length + (renderListing m).toList.length) := by
  have hstate := Text.Utf8.length_encode_le (StateDocument.render m)
  have hprogram := Text.Utf8.length_encode_le (renderProgram m.program)
  have hlisting := Text.Utf8.length_encode_le (renderListing m)
  have hname := Text.Utf8.length_encode_le stateName
  have hname' := Text.Utf8.length_encode_le programName
  have hname'' := Text.Utf8.length_encode_le listingName
  simp only [stateName, programName, listingName, String.reduceToList, List.length_cons,
    List.length_nil] at hname hname' hname''
  rw [save_eq, Archive.length_pack]
  simp only [members, entries, packed, Archive.listMembers, Archive.length_record, Archive.length_listed,
    List.map_cons, List.map_nil, List.flatMap_cons, List.flatMap_nil, List.length_append,
    List.length_nil, stateName, programName, listingName]
  omega

-- Far fewer instructions and values than would fill an archive.
theorem fits_of_size {m : Machine} (hlow : 0 ≤ m.ip) (hhigh : m.ip ≤ m.program.size)
    (hsize : m.program.size + m.stack.size < Nat.pow 2 54) : Fits m := by
  have hprogram := length_renderProgram_le m.program
  have hlisting := length_renderListing_le m
  have hsave := length_save_le m
  have hpow : Nat.pow 2 54 = 18014398509481984 := by decide
  have hpow' : Nat.pow 2 63 = 9223372036854775808 := by decide
  have hhigh : m.ip < (Nat.pow 2 63 : Nat) := by omega
  have hlow : -(Nat.pow 2 63 : Nat) ≤ m.ip := by omega
  have hstate := StateDocument.length_render_le hlow hhigh
  refine ⟨hlow, hhigh, ?_⟩
  rw [Archive.offsetLimit]
  omega

end Snapshot

end PlZero
