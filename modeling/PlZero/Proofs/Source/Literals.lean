import PlZero.Proofs.Source.Order
import PlZero.Proofs.Source.Spacing

namespace PlZero

theorem getElem?_slice (cs : List Char) {i j k : Nat} (hi : i ≤ j) (hk : j < k) :
    (slice cs i k)[j - i]? = cs[j]? := by
  rw [slice, List.getElem?_drop, Nat.add_sub_cancel' hi, List.getElem?_take_of_lt hk]

theorem slice_succ {cs : List Char} {i k : Nat} {c : Char} (hi : i ≤ k) (hc : cs[k]? = some c) :
    slice cs i (k + 1) = slice cs i k ++ [c] := by
  have hk : k < cs.length := (List.getElem?_eq_some_iff.mp hc).1
  have hlength : i ≤ (cs.take k).length := by
    rw [List.length_take]
    omega
  rw [slice, List.take_add_one, hc, List.drop_append_of_le_length hlength]
  rfl

namespace Run

variable {class? : Char → Bool} {cs : List Char} {i j k : Nat}

theorem mem (h : Run class? cs i j) {c : Char} (hi : i ≤ k) (hk : k < j) (hc : cs[k]? = some c) :
    class? c = true :=
  h.inside c (List.mem_of_getElem? ((getElem?_slice cs hi hk).trans hc))

theorem part (h : Run class? cs i j) (hk : k ≤ j) : ∀ c ∈ slice cs i k, class? c = true := by
  have hslice : (slice cs i k).Sublist (slice cs i j) := (List.take_sublist_take_left hk).drop i
  exact fun c hc => h.inside c (hslice.subset hc)

theorem takeRun (h : Run class? cs i j) :
    (Lexer.upTo cs i).takeRun class? = (slice cs i j, Lexer.upTo cs j) := by
  have hlength : i ≤ (cs.take j).length := by
    rw [List.length_take, Nat.min_eq_left h.bound]
    exact h.order
  have hsplit : cs.drop i = slice cs i j ++ cs.drop j := by
    rw [slice, ← List.drop_append_of_le_length hlength, List.take_append_drop]
  have hnext : ∀ c ∈ (cs.drop j).head?, class? c = false := by
    intro c hc
    rw [List.head?_drop] at hc
    exact h.longest c hc
  rw [Lexer.upTo, hsplit, Lexer.takeRun_append h.inside hnext, place_after_slice cs h.order]
  rfl

end Run

namespace Lexer

theorem toNat_appendDigit {u : UInt64} {c : Char} (hu : u ≤ maxLiteral) (hc : Text.isDigit c = true) :
    (appendDigit u c).toNat = 10 * u.toNat + Text.digitValue c := by
  have hdigit := Text.digitValue_lt hc
  have hsmall : u.toNat ≤ 2147483648 := hu
  simp only [appendDigit, UInt64.toNat_add, UInt64.toNat_mul, UInt64.toNat_ofNat']
  change (u.toNat * 10 % _ + _) % _ = _
  omega

theorem foldl_extendLiteral_none (ds : List Char) : ds.foldl extendLiteral none = none := by
  induction ds with
  | nil => rfl
  | cons c ds ih => exact ih

-- The number so far stays below the limit until it passes it for good.
theorem foldl_extendLiteral_eq_some_iff {ds : List Char} (hds : ∀ c ∈ ds, Text.isDigit c = true)
    {u v : UInt64} (hu : u ≤ maxLiteral) :
    ds.foldl extendLiteral (some u) = some v ↔
      v ≤ maxLiteral ∧ v.toNat = Nat.ofDigitChars 10 ds u.toNat := by
  induction ds generalizing u with
  | nil =>
      simp only [List.foldl_nil, Option.some.injEq, Nat.ofDigitChars_nil, UInt64.toNat_inj]
      constructor
      · rintro rfl
        exact ⟨hu, rfl⟩
      · exact fun h => h.2.symm
  | cons c ds ih =>
      have hvalue : (appendDigit u c).toNat = 10 * u.toNat + (c.toNat - '0'.toNat) :=
        toNat_appendDigit hu (hds c (by simp))
      rw [List.foldl_cons, Nat.ofDigitChars_cons, ← hvalue]
      by_cases hlarge : maxLiteral < appendDigit u c
      · have hgrows := Text.le_ofDigitChars ds (appendDigit u c).toNat
        have hnone : extendLiteral (some u) c = none := if_pos hlarge
        rw [hnone, foldl_extendLiteral_none]
        simp only [reduceCtorEq, false_iff, not_and, UInt64.le_iff_toNat_le]
        have := UInt64.lt_iff_toNat_lt.mp hlarge
        omega
      · have hsome : extendLiteral (some u) c = some (appendDigit u c) := if_neg hlarge
        rw [hsome]
        exact ih (fun d hd => hds d (by simp [hd])) (UInt64.not_lt.mp hlarge)

theorem literalValue_eq_some_iff {ds : List Char} (hds : ∀ c ∈ ds, Text.isDigit c = true) {v : UInt64} :
    literalValue ds = some v ↔ v ≤ maxLiteral ∧ v.toNat = Nat.ofDigitChars 10 ds 0 :=
  foldl_extendLiteral_eq_some_iff hds (by decide)

theorem literalValue_of_le {ds : List Char} (hds : ∀ c ∈ ds, Text.isDigit c = true)
    (h : Nat.ofDigitChars 10 ds 0 ≤ maxLiteral.toNat) :
    ∃ v : UInt64, v.toNat = Nat.ofDigitChars 10 ds 0 ∧ literalValue ds = some v := by
  have hvalue : (UInt64.ofNat (Nat.ofDigitChars 10 ds 0)).toNat = Nat.ofDigitChars 10 ds 0 :=
    UInt64.toNat_ofNat_of_lt' (Nat.lt_of_le_of_lt h maxLiteral.toNat_lt)
  refine ⟨_, hvalue, (literalValue_eq_some_iff hds).mpr ⟨?_, hvalue⟩⟩
  rwa [UInt64.le_iff_toNat_le, hvalue]

theorem literalValue_of_lt {ds : List Char} (hds : ∀ c ∈ ds, Text.isDigit c = true)
    (h : maxLiteral.toNat < Nat.ofDigitChars 10 ds 0) : literalValue ds = none := by
  cases hvalue : literalValue ds with
  | none => rfl
  | some v =>
      obtain ⟨hmax, heq⟩ := (literalValue_eq_some_iff hds).mp hvalue
      rw [UInt64.le_iff_toNat_le, heq] at hmax
      exact absurd h (Nat.not_lt.mpr hmax)

theorem number_of_some {cs : List Char} {i j : Nat} (run : Run Text.isDigit cs i j) {v : UInt64}
    (h : literalValue (slice cs i j) = some v) :
    (upTo cs i).number = (.ok (tokenOf .number v cs i j), upTo cs j) := by
  simp only [number, run.takeRun, h]
  rfl

theorem number_of_none {cs : List Char} {i j : Nat} (run : Run Text.isDigit cs i j)
    (h : literalValue (slice cs i j) = none) :
    (upTo cs i).number = (.error ⟨place cs i, .integerOverflow⟩, upTo cs j) := by
  simp only [number, run.takeRun, h]
  rfl

theorem next_of_digit {cs : List Char} {b i : Nat} {c : Char} (hb : b ≤ i)
    (hblank : ∀ d ∈ slice cs b i, Text.isBlank d = true) (hc : cs[i]? = some c)
    (hdigit : Text.isDigit c = true) : (upTo cs b).next = (upTo cs i).number := by
  have hi : i < cs.length := (List.getElem?_eq_some_iff.mp hc).1
  have hrun : Run Text.isBlank cs b i := by
    refine ⟨hb, Nat.le_of_lt hi, hblank, fun d hd => ?_⟩
    rw [hc] at hd
    cases hd
    exact Text.not_blank_of_in_token (.inl hdigit)
  have hskip : (upTo cs b).skipBlanks = upTo cs i := congrArg Prod.snd hrun.takeRun
  have hrest : (upTo cs i).rest = c :: cs.drop (i + 1) := by
    rw [upTo, List.drop_eq_getElem_cons hi, (List.getElem?_eq_some_iff.mp hc).2]
  rw [next_of_cons (by rw [hskip, hrest]), hskip, token, if_pos hdigit]

end Lexer

theorem literals_read_exactly {cs : List Char} {i j : Nat} (run : Run Text.isDigit cs i j) :
    let value := fun k => Nat.ofDigitChars 10 (slice cs i k) 0
    (value j ≤ 0x80000000 →
      ∃ v : UInt64, v.toNat = value j ∧
        (Lexer.upTo cs i).number = (.ok (tokenOf .number v cs i j), Lexer.upTo cs j)) ∧
    (0x80000000 < value j →
      (Lexer.upTo cs i).number = (.error ⟨place cs i, .integerOverflow⟩, Lexer.upTo cs j)) ∧
    (∀ k c v, i ≤ k → k < j → cs[k]? = some c → Lexer.literalValue (slice cs i k) = some v →
      v.toNat = value k ∧ (Lexer.appendDigit v c).toNat = value (k + 1)) ∧
    ∀ b ≤ i, (∀ c ∈ slice cs b i, Text.isBlank c = true) → i < j →
      (Lexer.upTo cs b).next = (Lexer.upTo cs i).number := by
  intro value
  refine ⟨?_, ?_, ?_, ?_⟩
  · intro hsmall
    obtain ⟨v, hvalue, hliteral⟩ := Lexer.literalValue_of_le run.inside hsmall
    exact ⟨v, hvalue, Lexer.number_of_some run hliteral⟩
  · intro hlarge
    exact Lexer.number_of_none run (Lexer.literalValue_of_lt run.inside hlarge)
  · -- The sum is exact before it is compared with the limit, also at the digit that passes it.
    intro k c v hi hk hc hv
    obtain ⟨hmax, hvalue⟩ := (Lexer.literalValue_eq_some_iff (run.part (Nat.le_of_lt hk))).mp hv
    refine ⟨hvalue, ?_⟩
    rw [Lexer.toNat_appendDigit hmax (run.mem hi hk hc), hvalue]
    simp only [value, slice_succ hi hc, Nat.ofDigitChars_append, Nat.ofDigitChars_cons,
      Nat.ofDigitChars_nil]
    rfl
  · intro b hb hblank hij
    have hi : i < cs.length := Nat.lt_of_lt_of_le hij run.bound
    have hc : cs[i]? = some cs[i] := List.getElem?_eq_getElem hi
    exact Lexer.next_of_digit hb hblank hc (run.mem (Nat.le_refl i) hij hc)

-- The limit behind leading zeros, and a number that 64 bits would wrap to one.
def longLiterals : List Char := "x\n0000000002147483648 18446744073709551617".toList

theorem literals_read_exactly_longLiterals :
    Run Text.isDigit longLiterals 2 21 ∧ Run Text.isDigit longLiterals 22 42 ∧
    (Lexer.upTo longLiterals 2).number =
      (.ok ⟨.number, "0000000002147483648", 2147483648, ⟨1, 0⟩, ⟨1, 19⟩⟩, Lexer.upTo longLiterals 21) ∧
    (Lexer.upTo longLiterals 21).next =
      (.error ⟨⟨1, 20⟩, .integerOverflow⟩, Lexer.upTo longLiterals 42) := by
  have hlimit : Run Text.isDigit longLiterals 2 21 :=
    ⟨by decide, by decide, List.all_eq_true.mp (by decide), by rintro c ⟨⟩; decide⟩
  have hbeyond : Run Text.isDigit longLiterals 22 42 :=
    ⟨by decide, by decide, List.all_eq_true.mp (by decide), by rintro c ⟨⟩⟩
  refine ⟨hlimit, hbeyond, ?_, ?_⟩
  · obtain ⟨v, hv, hnumber⟩ := (literals_read_exactly hlimit).1 (by decide)
    obtain rfl : v = 2147483648 := UInt64.toNat_inj.mp hv
    rw [hnumber]
    decide
  · obtain ⟨_, herror, _, hnext⟩ := literals_read_exactly hbeyond
    rw [hnext 21 (by decide) (List.all_eq_true.mp (by decide)) (by decide), herror (by decide)]
    decide

end PlZero
