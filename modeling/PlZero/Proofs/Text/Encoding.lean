import PlZero.Proofs.Text.Decoding

namespace PlZero.Text.Utf8

theorem toList_loop (bytes : ByteArray) (i : Nat) (acc : List UInt8) :
    ByteArray.toList.loop bytes i acc = acc.reverse ++ bytes.data.toList.drop i := by
  fun_induction ByteArray.toList.loop bytes i acc with
  | case1 i acc h ih =>
      have hi : i < bytes.data.toList.length := h
      rw [ih, List.drop_eq_getElem_cons hi]
      simp [ByteArray.get!, getElem!_pos bytes.data i h]
  | case2 i acc h =>
      have hi : bytes.data.toList.length ≤ i := Nat.le_of_not_lt h
      simp [List.drop_eq_nil_of_le hi]

theorem toList_encode (s : String) : (encode s).toList = s.toList.flatMap String.utf8EncodeChar := by
  rw [ByteArray.toList, toList_loop, encode, String.toUTF8, ← String.utf8Encode_toList,
    List.utf8Encode, List.toList_data_toByteArray]
  rfl

theorem toList_encode_append (s t : String) :
    (encode (s ++ t)).toList = (encode s).toList ++ (encode t).toList := by
  simp [toList_encode]

@[simp] theorem toList_encode_empty : (encode "").toList = [] := by
  simp [toList_encode]

theorem decode_encodeChar (c : Char) (rest : List UInt8) :
    decode (String.utf8EncodeChar c ++ rest) = c :: decode rest := by
  have hleading := leading?_encodeChar c rest
  have hpos : 0 < (String.utf8EncodeChar c).length := by
    rw [String.length_utf8EncodeChar]
    exact c.utf8Size_pos
  obtain ⟨b, more, hencode⟩ := List.exists_cons_of_length_pos hpos
  rw [hencode, List.cons_append] at hleading ⊢
  rw [decode_of_leading? hleading]
  simp

theorem decode_encode (s : String) : decode (encode s).toList = s.toList := by
  rw [toList_encode]
  induction s.toList with
  | nil => rfl
  | cons c cs ih => rw [List.flatMap_cons, decode_encodeChar, ih]

theorem encode_injective {s t : String} (h : (encode s).toList = (encode t).toList) : s = t := by
  rw [← String.toList_inj, ← decode_encode s, h, decode_encode]

end PlZero.Text.Utf8
