import PlZero.Text.Utf8

namespace PlZero.Text.Utf8

theorem continuation?_eq_some {b : UInt8} {x : Nat} :
    continuation? b = some x ↔ x < 0x40 ∧ b.toNat = 0x80 + x := by
  simp only [continuation?, UInt8.le_iff_toNat_le, UInt8.lt_iff_toNat_lt, UInt8.reduceToNat]
  split
  · simp only [Option.some.injEq]
    omega
  · simp only [reduceCtorEq, false_iff]
    omega

theorem toNat_ofNat {n : Nat} (h : n.isValidChar) : (Char.ofNat n).toNat = n := by
  rw [Char.ofNat, dif_pos h]
  rfl

theorem scalar?_eq_some {least n : Nat} {c : Char} :
    scalar? least n = some c ↔ least ≤ n ∧ c.toNat = n := by
  unfold scalar?
  constructor
  · intro h
    split at h
    · next hn =>
        cases h
        refine ⟨hn.1, toNat_ofNat ?_⟩
        unfold Nat.isValidChar
        omega
    · cases h
  · rintro ⟨hn, rfl⟩
    have hvalid : c.toNat.isValidChar := c.valid
    unfold Nat.isValidChar at hvalid
    rw [if_pos (by omega), Char.ofNat_toNat]

theorem ofNat_eq {b : UInt8} {n : Nat} (h : b.toNat = n) : UInt8.ofNat n = b := by
  rw [← h, UInt8.ofNat_toNat]

theorem encodeChar_eq (c : Char) :
    String.utf8EncodeChar c =
      if c.toNat ≤ 0x7F then [UInt8.ofNat c.toNat]
      else if c.toNat ≤ 0x7FF then
        [UInt8.ofNat (c.toNat / 0x40 % 0x20 + 0xC0), UInt8.ofNat (c.toNat % 0x40 + 0x80)]
      else if c.toNat ≤ 0xFFFF then
        [UInt8.ofNat (c.toNat / 0x1000 % 0x10 + 0xE0), UInt8.ofNat (c.toNat / 0x40 % 0x40 + 0x80),
          UInt8.ofNat (c.toNat % 0x40 + 0x80)]
      else
        [UInt8.ofNat (c.toNat / 0x40000 % 8 + 0xF0), UInt8.ofNat (c.toNat / 0x1000 % 0x40 + 0x80),
          UInt8.ofNat (c.toNat / 0x40 % 0x40 + 0x80), UInt8.ofNat (c.toNat % 0x40 + 0x80)] := rfl

theorem toNat_lt (c : Char) : c.toNat < 0x110000 := by
  have hvalid : c.toNat.isValidChar := c.valid
  unfold Nat.isValidChar at hvalid
  omega

theorem leading?_encodeChar (c : Char) (rest : List UInt8) :
    leading? (String.utf8EncodeChar c ++ rest) =
      some (c, (String.utf8EncodeChar c).length - 1) := by
  have byte (n : Nat) (h : n < 0x100) : (UInt8.ofNat n).toNat = n := UInt8.toNat_ofNat_of_lt h
  have tail (n : Nat) : continuation? (UInt8.ofNat (n % 0x40 + 0x80)) = some (n % 0x40) := by
    rw [continuation?_eq_some, byte _ (by omega)]
    omega
  have code {least n : Nat} (hl : least ≤ n) (hn : c.toNat = n) : scalar? least n = some c :=
    scalar?_eq_some.mpr ⟨hl, hn⟩
  have hlt := toNat_lt c
  rw [encodeChar_eq]
  split
  · simp only [List.cons_append, List.nil_append, leading?, UInt8.lt_iff_toNat_lt, UInt8.reduceToNat]
    rw [byte _ (by omega), if_pos (by omega), Char.ofNat_toNat]
    rfl
  split
  · simp only [List.cons_append, List.nil_append, leading?, UInt8.lt_iff_toNat_lt, UInt8.reduceToNat,
      tail, Option.bind_eq_bind, Option.bind_some]
    rw [byte _ (by omega), if_neg (by omega), if_neg (by omega), if_pos (by omega), code]
    · rfl
    all_goals omega
  split
  · simp only [List.cons_append, List.nil_append, leading?, UInt8.lt_iff_toNat_lt, UInt8.reduceToNat,
      tail, Option.bind_eq_bind, Option.bind_some]
    rw [byte _ (by omega), if_neg (by omega), if_neg (by omega), if_neg (by omega), if_pos (by omega),
      code]
    · rfl
    all_goals omega
  · simp only [List.cons_append, List.nil_append, leading?, UInt8.lt_iff_toNat_lt, UInt8.reduceToNat,
      tail, Option.bind_eq_bind, Option.bind_some]
    rw [byte _ (by omega), if_neg (by omega), if_neg (by omega), if_neg (by omega), if_neg (by omega),
      if_pos (by omega), code]
    · rfl
    all_goals omega

theorem encodeChar_of_leading? {b : UInt8} {rest : List UInt8} {c : Char} {k : Nat}
    (h : leading? (b :: rest) = some (c, k)) :
    ∃ more, b :: rest = String.utf8EncodeChar c ++ more ∧ (String.utf8EncodeChar c).length = k + 1 := by
  simp only [leading?, UInt8.lt_iff_toNat_lt, UInt8.reduceToNat] at h
  split at h
  · next hb =>
      cases h
      have hc : (Char.ofNat b.toNat).toNat = b.toNat := toNat_ofNat (.inl (by omega))
      have hencode : String.utf8EncodeChar (Char.ofNat b.toNat) = [b] := by
        rw [encodeChar_eq, if_pos (by omega), ofNat_eq hc.symm]
      rw [hencode]
      exact ⟨rest, rfl, rfl⟩
  split at h
  · cases h
  split at h
  · cases rest with
    | nil => cases h
    | cons b₁ rest =>
        simp only [Option.bind_eq_bind, Option.bind_eq_some_iff, continuation?_eq_some,
          scalar?_eq_some] at h
        obtain ⟨x, ⟨hx, hb₁⟩, _, ⟨hle, hc⟩, heq⟩ := h
        cases heq
        have hencode : String.utf8EncodeChar c = [b, b₁] := by
          rw [encodeChar_eq, if_neg (by omega), if_pos (by omega), ofNat_eq (b := b) (by omega),
            ofNat_eq (b := b₁) (by omega)]
        rw [hencode]
        exact ⟨rest, rfl, rfl⟩
  split at h
  · rcases rest with _ | ⟨b₁, _ | ⟨b₂, rest⟩⟩
    · cases h
    · cases h
    · simp only [Option.bind_eq_bind, Option.bind_eq_some_iff, continuation?_eq_some,
        scalar?_eq_some] at h
      obtain ⟨x, ⟨hx, hb₁⟩, y, ⟨hy, hb₂⟩, _, ⟨hle, hc⟩, heq⟩ := h
      cases heq
      have hencode : String.utf8EncodeChar c = [b, b₁, b₂] := by
        rw [encodeChar_eq, if_neg (by omega), if_neg (by omega), if_pos (by omega),
          ofNat_eq (b := b) (by omega), ofNat_eq (b := b₁) (by omega), ofNat_eq (b := b₂) (by omega)]
      rw [hencode]
      exact ⟨rest, rfl, rfl⟩
  split at h
  · rcases rest with _ | ⟨b₁, _ | ⟨b₂, _ | ⟨b₃, rest⟩⟩⟩
    · cases h
    · cases h
    · cases h
    · simp only [Option.bind_eq_bind, Option.bind_eq_some_iff, continuation?_eq_some,
        scalar?_eq_some] at h
      obtain ⟨x, ⟨hx, hb₁⟩, y, ⟨hy, hb₂⟩, z, ⟨hz, hb₃⟩, _, ⟨hle, hc⟩, heq⟩ := h
      cases heq
      have hencode : String.utf8EncodeChar c = [b, b₁, b₂, b₃] := by
        rw [encodeChar_eq, if_neg (by omega), if_neg (by omega), if_neg (by omega),
          ofNat_eq (b := b) (by omega), ofNat_eq (b := b₁) (by omega), ofNat_eq (b := b₂) (by omega),
          ofNat_eq (b := b₃) (by omega)]
      rw [hencode]
      exact ⟨rest, rfl, rfl⟩
  · cases h

-- A text is read character by character; a byte that begins no character is read as one replacement.
inductive Decodes : List UInt8 → List Char → Prop where
  | nil : Decodes [] []
  | char (c : Char) {rest : List UInt8} {cs : List Char} (more : Decodes rest cs) :
      Decodes (String.utf8EncodeChar c ++ rest) (c :: cs)
  | invalid (b : UInt8) {rest : List UInt8} {cs : List Char}
      (alone : ∀ c, ¬ String.utf8EncodeChar c <+: b :: rest) (more : Decodes rest cs) :
      Decodes (b :: rest) (replacement :: cs)

theorem decodeFrom_eq (skip : Nat) (bytes : List UInt8) :
    decodeFrom skip bytes = decode (bytes.drop skip) := by
  induction bytes generalizing skip with
  | nil => cases skip <;> rfl
  | cons b rest ih =>
      cases skip with
      | zero => rfl
      | succ skip => exact ih skip

theorem decode_of_leading? {b : UInt8} {rest : List UInt8} {c : Char} {k : Nat}
    (h : leading? (b :: rest) = some (c, k)) : decode (b :: rest) = c :: decode (rest.drop k) := by
  rw [decode, decodeFrom, h, ← decodeFrom_eq]

theorem decode_of_leading?_none {b : UInt8} {rest : List UInt8} (h : leading? (b :: rest) = none) :
    decode (b :: rest) = replacement :: decode rest := by
  rw [decode, decodeFrom, h, decode]

theorem decodes_decode (bytes : List UInt8) : Decodes bytes (decode bytes) := by
  induction hn : bytes.length using Nat.strongRecOn generalizing bytes with
  | _ n ih =>
      cases bytes with
      | nil => exact .nil
      | cons b rest =>
          rcases hl : leading? (b :: rest) with _ | ⟨c, k⟩
          · rw [decode_of_leading?_none hl]
            refine .invalid b ?_ (ih rest.length (by simp [← hn]) rest rfl)
            rintro c ⟨more, hmore⟩
            rw [← hmore, leading?_encodeChar] at hl
            cases hl
          · obtain ⟨more, hmore, hlen⟩ := encodeChar_of_leading? hl
            have hrest : rest.drop k = more := by
              have hdrop := congrArg (List.drop (k + 1)) hmore
              rwa [← hlen, List.drop_left, hlen] at hdrop
            rw [decode_of_leading? hl, hrest, hmore]
            refine .char c (ih more.length ?_ more rfl)
            have hlength := congrArg List.length hmore
            rw [List.length_append, hlen, hn] at hlength
            omega

end PlZero.Text.Utf8
