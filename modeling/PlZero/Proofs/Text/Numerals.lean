import PlZero.Text.Numeral

namespace PlZero.Text

theorem isDigit_digitChar {n : Nat} (h : n < 10) : isDigit n.digitChar = true := by
  decide +revert

theorem digitValue_digitChar {n : Nat} (h : n < 10) : digitValue n.digitChar = n := by
  decide +revert

theorem code_of_isDigit {c : Char} (h : isDigit c = true) : 48 ≤ c.toNat ∧ c.toNat ≤ 57 := by
  simpa [isDigit, Char.le_def, UInt32.le_iff_toNat_le] using h

theorem ne_of_isDigit {c d : Char} (hc : isDigit c = true) (hd : isDigit d = false) : c ≠ d := by
  rintro rfl
  rw [hc] at hd
  cases hd

theorem readDigits_append (limit acc : Nat) (cs ds : List Char) :
    readDigits limit acc (cs ++ ds) =
      (readDigits limit acc cs).bind fun acc => readDigits limit acc ds := by
  induction cs generalizing acc with
  | nil => rfl
  | cons c cs ih =>
      simp only [List.cons_append, readDigits]
      split
      · split
        · rfl
        · exact ih _
      · rfl

theorem readDigits_digitChar {limit acc d : Nat} (hd : d < 10) (h : acc * 10 + d ≤ limit) :
    readDigits limit acc [d.digitChar] = .ok (acc * 10 + d) := by
  simp [readDigits, isDigit_digitChar hd, digitValue_digitChar hd, Nat.not_lt.mpr h]

theorem readDigits_toDigits {limit n : Nat} (h : n ≤ limit) :
    readDigits limit 0 (Nat.toDigits 10 n) = .ok n := by
  induction n using Nat.strongRecOn with
  | _ n ih =>
      by_cases hn : n < 10
      · rw [Nat.toDigits_of_lt_base hn, readDigits_digitChar hn (by omega)]
        simp
      · have hsmaller := ih (n / 10) (by omega) (by omega)
        rw [Nat.toDigits_of_base_le (by decide) (by omega), readDigits_append, hsmaller]
        simp only [Except.bind]
        rw [readDigits_digitChar (by omega) (by omega)]
        congr 1
        omega

theorem isDigit_of_mem_toDigits {n : Nat} {c : Char} (h : c ∈ Nat.toDigits 10 n) :
    isDigit c = true := by
  induction n using Nat.strongRecOn with
  | _ n ih =>
      by_cases hn : n < 10
      · rw [Nat.toDigits_of_lt_base hn, List.mem_singleton] at h
        rw [h]
        exact isDigit_digitChar hn
      · rw [Nat.toDigits_of_base_le (by decide) (by omega), List.mem_append, List.mem_singleton] at h
        rcases h with h | rfl
        · exact ih (n / 10) (by omega) h
        · exact isDigit_digitChar (by omega)

theorem readUnsigned_toDigits {bits n : Nat} (h : n < Nat.pow 2 bits) :
    readUnsigned bits (Nat.toDigits 10 n) = .ok n := by
  rw [readUnsigned, if_neg (by simp [Nat.toDigits_ne_nil]), readDigits_toDigits (by omega)]

theorem toList_toString_ofNat (n : Nat) : (toString (n : Int)).toList = Nat.toDigits 10 n := by
  rw [Int.toString_eq_repr, ← Nat.toList_repr]
  rfl

theorem toList_toString_negSucc (n : Nat) :
    (toString (Int.negSucc n)).toList = '-' :: Nat.toDigits 10 (n + 1) := by
  rw [Int.toString_eq_repr, ← Nat.toList_repr]
  exact String.toList_append

theorem mem_toString {v : Int} {c : Char} (h : c ∈ (toString v).toList) :
    c = '-' ∨ isDigit c = true := by
  cases v with
  | ofNat n => exact .inr (isDigit_of_mem_toDigits (toList_toString_ofNat n ▸ h))
  | negSucc n =>
      rw [toList_toString_negSucc, List.mem_cons] at h
      exact h.imp_right isDigit_of_mem_toDigits

theorem toString_ne_nil {v : Int} : (toString v).toList ≠ [] := by
  cases v with
  | ofNat n =>
      rw [Int.ofNat_eq_natCast, toList_toString_ofNat]
      exact Nat.toDigits_ne_nil
  | negSucc n =>
      rw [toList_toString_negSucc]
      exact List.cons_ne_nil _ _

-- A number without a sign is read as such whatever digit it begins with.
theorem readSigned_of_digits {bits : Nat} {cs : List Char} (h : ∀ c ∈ cs, isDigit c = true) :
    readSigned bits cs = (do
      let n ← readUnsigned bits cs
      if Nat.pow 2 (bits - 1) ≤ n then .error .outOfRange else .ok n) := by
  unfold readSigned
  split
  · exact absurd (h '-' (by simp)) (by decide)
  · exact absurd (h '+' (by simp)) (by decide)
  · rfl

theorem readSigned_toString {bits : Nat} (hbits : 0 < bits) {v : Int}
    (hlow : -(Nat.pow 2 (bits - 1) : Nat) ≤ v) (hhigh : v < (Nat.pow 2 (bits - 1) : Nat)) :
    readSigned bits (toString v).toList = .ok v := by
  have hhalf : Nat.pow 2 (bits - 1) < Nat.pow 2 bits := Nat.pow_lt_pow_right (by decide) (by omega)
  cases v with
  | ofNat n =>
      have hn : n < Nat.pow 2 (bits - 1) := Int.ofNat_lt.mp hhigh
      rw [Int.ofNat_eq_natCast, toList_toString_ofNat,
        readSigned_of_digits fun c => isDigit_of_mem_toDigits, readUnsigned_toDigits (by omega)]
      exact if_neg (by omega)
  | negSucc n =>
      have hn : n + 1 ≤ Nat.pow 2 (bits - 1) := by omega
      rw [toList_toString_negSucc, readSigned, readUnsigned_toDigits (by omega)]
      exact if_neg (by omega)

theorem readSigned_int32 (v : Int32) : readSigned 32 (toString v.toInt).toList = .ok v.toInt :=
  readSigned_toString (by decide) v.le_toInt v.toInt_lt

-- One or more digits, of any length, and the number that they write.
structure Decimal (cs : List Char) (n : Nat) : Prop where
  nonempty : cs ≠ []
  digits : ∀ c ∈ cs, isDigit c = true
  value : Nat.ofDigitChars 10 cs 0 = n

-- A number with an optional sign.
inductive Numeral : List Char → Int → Prop where
  | unsigned {cs : List Char} {n : Nat} (number : Decimal cs n) : Numeral cs n
  | positive {cs : List Char} {n : Nat} (number : Decimal cs n) : Numeral ('+' :: cs) n
  | negative {cs : List Char} {n : Nat} (number : Decimal cs n) : Numeral ('-' :: cs) (-n)

theorem le_ofDigitChars (cs : List Char) (acc : Nat) : acc ≤ Nat.ofDigitChars 10 cs acc := by
  induction cs generalizing acc with
  | nil => exact Nat.le_refl acc
  | cons c cs ih =>
      rw [Nat.ofDigitChars_cons]
      exact Nat.le_trans (by omega) (ih _)

-- Leading zeros never pass the limit, and digits that pass it are refused whatever follows them.
theorem readDigits_eq_ok_iff {limit acc n : Nat} {cs : List Char} (hacc : acc ≤ limit) :
    readDigits limit acc cs = .ok n ↔
      (∀ c ∈ cs, isDigit c = true) ∧ Nat.ofDigitChars 10 cs acc = n ∧ n ≤ limit := by
  induction cs generalizing acc with
  | nil =>
      simp only [readDigits, Except.ok.injEq, List.not_mem_nil, false_implies, implies_true, true_and,
        Nat.ofDigitChars_nil]
      constructor
      · rintro rfl
        exact ⟨rfl, hacc⟩
      · exact And.left
  | cons c cs ih =>
      have hvalue : Nat.ofDigitChars 10 (c :: cs) acc = Nat.ofDigitChars 10 cs (acc * 10 + digitValue c) := by
        rw [Nat.ofDigitChars_cons, Nat.mul_comm]
        rfl
      by_cases hc : isDigit c = true
      · by_cases hlimit : limit < acc * 10 + digitValue c
        · have hle := le_ofDigitChars cs (acc * 10 + digitValue c)
          simp only [readDigits, hc, if_true, hlimit, reduceCtorEq, false_iff, hvalue]
          rintro ⟨_, rfl, hn⟩
          omega
        · simp only [readDigits, hc, if_true, hlimit, if_false, ih (Nat.not_lt.mp hlimit), hvalue,
            List.forall_mem_cons, true_and]
      · simp [readDigits, hc]

theorem readUnsigned_eq_ok_iff {bits n : Nat} {cs : List Char} :
    readUnsigned bits cs = .ok n ↔ Decimal cs n ∧ n < Nat.pow 2 bits := by
  have hpos : 0 < Nat.pow 2 bits := Nat.two_pow_pos bits
  unfold readUnsigned
  by_cases hcs : cs = []
  · simp only [hcs, List.isEmpty_nil, if_true, reduceCtorEq, false_iff]
    rintro ⟨⟨hne, _⟩, _⟩
    exact hne rfl
  · rw [if_neg (by simpa using hcs), readDigits_eq_ok_iff (Nat.zero_le _)]
    constructor
    · rintro ⟨hdigits, hvalue, hn⟩
      exact ⟨⟨hcs, hdigits, hvalue⟩, by omega⟩
    · rintro ⟨⟨_, hdigits, hvalue⟩, hn⟩
      exact ⟨hdigits, hvalue, by omega⟩

theorem readUnsigned_bounded_iff {bits : Nat} {cs : List Char} {tooLarge : Nat → Prop}
    [DecidablePred tooLarge] (hlarge : ∀ n, ¬ tooLarge n → n < Nat.pow 2 bits) {sign : Nat → Int} {v : Int} :
    (do
      let n ← readUnsigned bits cs
      if tooLarge n then .error .outOfRange else .ok (sign n)) = Except.ok v ↔
      ∃ n, Decimal cs n ∧ ¬ tooLarge n ∧ sign n = v := by
  constructor
  · intro h
    cases hn : readUnsigned bits cs with
    | error e =>
        rw [hn] at h
        cases h
    | ok n =>
        rw [hn] at h
        change (if tooLarge n then .error NumeralError.outOfRange else .ok (sign n)) = Except.ok v at h
        split at h
        · cases h
        · next hsmall => exact ⟨n, (readUnsigned_eq_ok_iff.mp hn).1, hsmall, Except.ok.inj h⟩
  · rintro ⟨n, hn, hsmall, rfl⟩
    rw [readUnsigned_eq_ok_iff.mpr ⟨hn, hlarge n hsmall⟩]
    exact if_neg hsmall

theorem Decimal.head_ne {c d : Char} {cs : List Char} {n : Nat} (h : Decimal (c :: cs) n)
    (hd : isDigit d = false) : c ≠ d :=
  ne_of_isDigit (h.digits c (by simp)) hd

theorem readSigned_eq_ok_iff {bits : Nat} (hbits : 0 < bits) {cs : List Char} {v : Int} :
    readSigned bits cs = .ok v ↔
      Numeral cs v ∧ -(Nat.pow 2 (bits - 1) : Nat) ≤ v ∧ v < (Nat.pow 2 (bits - 1) : Nat) := by
  have hhalf : Nat.pow 2 (bits - 1) < Nat.pow 2 bits := Nat.pow_lt_pow_right (by decide) (by omega)
  have hpos : 0 < Nat.pow 2 (bits - 1) := Nat.two_pow_pos _
  unfold readSigned
  split
  · rw [readUnsigned_bounded_iff (by omega)]
    constructor
    · rintro ⟨n, hn, hsmall, rfl⟩
      exact ⟨.negative hn, by omega, by omega⟩
    · rintro ⟨hnumeral, hlow, _⟩
      cases hnumeral with
      | unsigned hn => exact absurd rfl (hn.head_ne (by decide))
      | @negative _ n hn => exact ⟨n, hn, by omega, rfl⟩
  · rw [readUnsigned_bounded_iff (by omega)]
    constructor
    · rintro ⟨n, hn, hsmall, rfl⟩
      exact ⟨.positive hn, by omega, by omega⟩
    · rintro ⟨hnumeral, _, hhigh⟩
      cases hnumeral with
      | unsigned hn => exact absurd rfl (hn.head_ne (by decide))
      | @positive _ n hn => exact ⟨n, hn, by omega, rfl⟩
  · next hminus hplus =>
      rw [readUnsigned_bounded_iff (by omega)]
      constructor
      · rintro ⟨n, hn, hsmall, rfl⟩
        exact ⟨.unsigned hn, by omega, by omega⟩
      · rintro ⟨hnumeral, _, hhigh⟩
        cases hnumeral with
        | @unsigned _ n hn => exact ⟨n, hn, by omega, rfl⟩
        | positive => exact absurd rfl (hplus _)
        | negative => exact absurd rfl (hminus _)

end PlZero.Text
