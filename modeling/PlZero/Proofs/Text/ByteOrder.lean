import PlZero.Proofs.Text.Encoding

namespace PlZero.Text.Utf8

theorem byte_lt {m n : Nat} (hn : n < 0x100) (h : m < n) : UInt8.ofNat m < UInt8.ofNat n := by
  have byte (n : Nat) (h : n < 0x100) : (UInt8.ofNat n).toNat = n := UInt8.toNat_ofNat_of_lt h
  rw [UInt8.lt_iff_toNat_lt, byte n hn, byte m (Nat.lt_trans h hn)]
  exact h

-- A code point without its lowest six bits, so many times over.
def upper : Nat → Nat → Nat
  | 0, n => n
  | k + 1, n => upper k n / 0x40

theorem upper_le {m n : Nat} (h : m ≤ n) (k : Nat) : upper k m ≤ upper k n := by
  induction k with
  | zero => exact h
  | succ k ih => exact Nat.div_le_div_right ih

-- The bytes after the first, each with six bits of a code point.
def continuations : Nat → Nat → List UInt8
  | 0, _ => []
  | k + 1, n => UInt8.ofNat (upper k n % 0x40 + 0x80) :: continuations k n

theorem lex_continuations {k m n : Nat} (hsame : upper k m = upper k n) (h : m < n) (x y : List UInt8) :
    List.Lex (· < ·) (continuations k m ++ x) (continuations k n ++ y) := by
  induction k with
  | zero => exact absurd hsame (Nat.ne_of_lt h)
  | succ k ih =>
      rw [upper, upper] at hsame
      rw [continuations, continuations]
      rcases Nat.lt_or_eq_of_le (upper_le (Nat.le_of_lt h) k) with hlt | heq
      · exact .rel (byte_lt (by omega) (by omega))
      · rw [heq]
        exact .cons (ih heq)

theorem encodeChar_lead (c : Char) : ∃ k base,
    String.utf8EncodeChar c = UInt8.ofNat (base + upper k c.toNat) :: continuations k c.toNat ∧
      (k = 0 ∧ base = 0 ∧ c.toNat ≤ 0x7F ∨
        k = 1 ∧ base = 0xC0 ∧ 0x7F < c.toNat ∧ c.toNat ≤ 0x7FF ∨
        k = 2 ∧ base = 0xE0 ∧ 0x7FF < c.toNat ∧ c.toNat ≤ 0xFFFF ∨
        k = 3 ∧ base = 0xF0 ∧ 0xFFFF < c.toNat ∧ c.toNat < 0x110000) := by
  have hlt := toNat_lt c
  have htwo : c.toNat / 0x1000 = c.toNat / 0x40 / 0x40 := by omega
  have hthree : c.toNat / 0x40000 = c.toNat / 0x40 / 0x40 / 0x40 := by omega
  rw [encodeChar_eq, htwo, hthree]
  split
  · exact ⟨0, 0, by simp [upper, continuations], by omega⟩
  · split
    · have hlead : c.toNat / 0x40 % 0x20 + 0xC0 = 0xC0 + upper 1 c.toNat := by simp only [upper]; omega
      exact ⟨1, 0xC0, by rw [hlead]; rfl, by omega⟩
    · split
      · have hlead : c.toNat / 0x40 / 0x40 % 0x10 + 0xE0 = 0xE0 + upper 2 c.toNat := by
          simp only [upper]
          omega
        exact ⟨2, 0xE0, by rw [hlead]; rfl, by omega⟩
      · have hlead : c.toNat / 0x40 / 0x40 / 0x40 % 8 + 0xF0 = 0xF0 + upper 3 c.toNat := by
          simp only [upper]
          omega
        exact ⟨3, 0xF0, by rw [hlead]; rfl, by omega⟩

-- A longer sequence begins with a greater byte, and of two that are as long the first byte in which they
-- differ carries the higher bits.
theorem lex_encodeChar {c d : Char} (h : c.toNat < d.toNat) (x y : List UInt8) :
    List.Lex (· < ·) (String.utf8EncodeChar c ++ x) (String.utf8EncodeChar d ++ y) := by
  obtain ⟨k, base, hc, hk⟩ := encodeChar_lead c
  obtain ⟨l, base', hd, hl⟩ := encodeChar_lead d
  have hleads : base + upper k c.toNat < base' + upper l d.toNat ∧ base' + upper l d.toNat < 0x100 ∨
      k = l ∧ base = base' ∧ upper k c.toNat = upper l d.toNat := by
    rcases hk with ⟨rfl, rfl, _⟩ | ⟨rfl, rfl, _⟩ | ⟨rfl, rfl, _⟩ | ⟨rfl, rfl, _⟩ <;>
      rcases hl with ⟨rfl, rfl, _⟩ | ⟨rfl, rfl, _⟩ | ⟨rfl, rfl, _⟩ | ⟨rfl, rfl, _⟩ <;>
      simp only [upper, true_and] <;> omega
  rw [hc, hd]
  rcases hleads with ⟨hlt, hbyte⟩ | ⟨rfl, rfl, hsame⟩
  · exact .rel (byte_lt hbyte hlt)
  · rw [hsame]
    exact .cons (lex_continuations hsame h x y)

theorem lex_append_left {x y : List UInt8} (h : List.Lex (· < ·) x y) (bytes : List UInt8) :
    List.Lex (· < ·) (bytes ++ x) (bytes ++ y) := by
  induction bytes with
  | nil => exact h
  | cons b bytes ih => exact .cons ih

theorem lex_flatMap {a b : List Char} (h : List.Lex (· < ·) a b) :
    List.Lex (· < ·) (a.flatMap String.utf8EncodeChar) (b.flatMap String.utf8EncodeChar) := by
  induction h with
  | nil =>
      next c cs =>
      obtain ⟨k, base, hc, _⟩ := encodeChar_lead c
      rw [List.flatMap_cons, hc]
      exact .nil
  | rel hlt => exact lex_encodeChar hlt _ _
  | cons _ ih => exact lex_append_left ih _

theorem lex_encode_iff {s t : String} :
    List.Lex (· < ·) (encode s).toList (encode t).toList ↔ s < t := by
  have hof {s t : String} (h : s < t) : List.Lex (· < ·) (encode s).toList (encode t).toList := by
    rw [toList_encode, toList_encode]
    exact lex_flatMap (String.lt_iff.mp h)
  refine ⟨fun h => ?_, hof⟩
  by_cases hlt : s < t
  · exact hlt
  · by_cases hgt : t < s
    · exact absurd (hof hgt) (List.lt_asymm h)
    · obtain rfl : s = t := String.le_antisymm (String.not_lt.mp hgt) (String.not_lt.mp hlt)
      exact absurd h (List.lt_irrefl _)

end PlZero.Text.Utf8
