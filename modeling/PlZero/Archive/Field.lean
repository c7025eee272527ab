namespace PlZero.Archive

def field : Nat → Nat → List UInt8
  | 0, _ => []
  | width + 1, n => UInt8.ofNat n :: field width (n / 256)

def number : List UInt8 → Nat
  | [] => 0
  | b :: bytes => b.toNat + 256 * number bytes

def numberAt (bytes : List UInt8) (offset width : Nat) : Nat :=
  number ((bytes.drop offset).take width)

@[simp] theorem length_field (width n : Nat) : (field width n).length = width := by
  induction width generalizing n with
  | zero => rfl
  | succ width ih => simp [field, ih]

theorem number_field {width n : Nat} (h : n < Nat.pow 256 width) : number (field width n) = n := by
  induction width generalizing n with
  | zero =>
      have : n = 0 := Nat.lt_one_iff.mp h
      simp [field, number, this]
  | succ width ih =>
      have hd : n / 256 < Nat.pow 256 width := by
        rw [Nat.div_lt_iff_lt_mul (by decide)]
        exact h
      simp only [field, number, ih hd, UInt8.toNat_ofNat']
      omega

def slice? (bytes : List UInt8) (offset length : Nat) : Option (List UInt8) :=
  let part := (bytes.drop offset).take length
  if part.length = length then some part else none

end PlZero.Archive
