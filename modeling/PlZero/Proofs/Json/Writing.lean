import PlZero.Json.Token
import PlZero.Proofs.Text.Numerals

namespace PlZero.Json

-- The text has these tokens, however many more steps than characters are allowed.
def Yields (cs : List Char) (ts : List Token) : Prop :=
  ∀ n, cs.length ≤ n → tokensUpTo n cs = some ts

theorem Yields.tokens? {cs : List Char} {ts : List Token} (h : Yields cs ts) : tokens? cs = some ts :=
  h cs.length (Nat.le_refl _)

theorem yields_nil : Yields [] [] := by
  intro n _
  cases n <;> rfl

theorem Yields.space {c : Char} {cs : List Char} {ts : List Token} (hc : isSpace c = true)
    (h : Yields cs ts) : Yields (c :: cs) ts := by
  intro n hn
  obtain ⟨n, rfl⟩ := Nat.exists_eq_succ_of_ne_zero (Nat.ne_zero_of_lt hn)
  rw [tokensUpTo, if_pos hc]
  exact h n (Nat.le_of_succ_le_succ hn)

theorem Yields.token {c : Char} {cs rest : List Char} {t : Token} {ts : List Token}
    (hc : isSpace c = false) (ht : token? c cs = some (t, rest)) (hrest : rest.length ≤ cs.length)
    (h : Yields rest ts) : Yields (c :: cs) (t :: ts) := by
  intro n hn
  obtain ⟨n, rfl⟩ := Nat.exists_eq_succ_of_ne_zero (Nat.ne_zero_of_lt hn)
  have hmore := h n (Nat.le_trans hrest (Nat.le_of_succ_le_succ hn))
  simp [tokensUpTo, hc, ht, hmore]

-- A number ends where the text after it begins with no character of a number.
def Separated : List Char → Prop
  | [] => True
  | c :: _ => (Text.isDigit c || c == '.' || c == 'e' || c == 'E') = false

theorem Separated.append {cs rest : List Char} (hcs : Separated cs) (hrest : Separated rest) :
    Separated (cs ++ rest) := by
  cases cs with
  | nil => exact hrest
  | cons c cs => exact hcs

def Writes (cs : List Char) (ts : List Token) : Prop :=
  ∀ rest us, Separated rest → Yields rest us → Yields (cs ++ rest) (ts ++ us)

namespace Writes

variable {cs ds : List Char} {ts us : List Token}

theorem nil : Writes [] [] := fun _ _ _ h => h

theorem yields (h : Writes cs ts) : Yields cs ts := by
  have hyields := h [] [] trivial yields_nil
  rwa [List.append_nil, List.append_nil] at hyields

theorem append (hcs : Writes cs ts) (hds : Writes ds us) (hseparated : Separated ds) :
    Writes (cs ++ ds) (ts ++ us) := by
  intro rest vs hrest h
  rw [List.append_assoc, List.append_assoc]
  exact hcs _ _ (hseparated.append hrest) (hds rest vs hrest h)

theorem blank {bs : List Char} (hbs : bs.all isSpace = true) (h : Writes cs ts) :
    Writes (bs ++ cs) ts := by
  intro rest us hrest hyields
  induction bs with
  | nil => exact h rest us hrest hyields
  | cons b bs ih =>
      rw [List.all_cons, Bool.and_eq_true] at hbs
      exact (ih hbs.2).space hbs.1

theorem sign {c : Char} {t : Token} (hc : isSpace c = false)
    (ht : ∀ rest, token? c rest = some (t, rest)) (h : Writes cs ts) : Writes (c :: cs) (t :: ts) := by
  intro rest us hrest hyields
  exact (h rest us hrest hyields).token hc (ht _) (Nat.le_refl _)

end Writes

-- A character that stands for itself in a string.
def isPlain (c : Char) : Bool := c != '"' && c != '\\' && decide (0x20 ≤ c.toNat)

theorem readPieces_plain {s : List Char} (hs : s.all isPlain = true) (rest : List Char) :
    readPieces (s ++ '"' :: rest) = some (s.map .char, rest) := by
  induction s with
  | nil => simp [readPieces]
  | cons c s ih =>
      rw [List.all_cons, Bool.and_eq_true] at hs
      have htail := ih hs.2
      have hc := hs.1
      simp only [isPlain, Bool.and_eq_true, bne_iff_ne, ne_eq, decide_eq_true_eq] at hc
      rw [List.cons_append, readPieces]
      · simp [htail, hc.1.2, Nat.not_lt.mpr hc.2]
      all_goals simp_all

theorem joinPieces_map (s : List Char) : joinPieces (s.map .char) = s := by
  induction s with
  | nil => rfl
  | cons c s ih => simp [joinPieces, ih]

theorem Writes.string {s cs : List Char} {ts : List Token} (hs : s.all isPlain = true)
    (h : Writes cs ts) : Writes ('"' :: (s ++ '"' :: cs)) (.string s :: ts) := by
  intro rest us hrest hyields
  have ht : token? '"' (s ++ '"' :: (cs ++ rest)) = some (.string s, cs ++ rest) := by
    simp [token?, readPieces_plain hs, joinPieces_map]
  have hyields := (h rest us hrest hyields).token (c := '"') (by decide) ht (by simp; omega)
  simpa using hyields

theorem Writes.bool (b : Bool) : Writes (toString b).toList [.bool b] := by
  intro rest us _ hyields
  cases b with
  | false =>
      have ht : token? 'f' ("alse".toList ++ rest) = some (.bool false, rest) := rfl
      exact hyields.token (by decide) ht (List.length_append ▸ Nat.le_add_left _ _)
  | true =>
      have ht : token? 't' ("rue".toList ++ rest) = some (.bool true, rest) := rfl
      exact hyields.token (by decide) ht (List.length_append ▸ Nat.le_add_left _ _)

theorem digits?_append {ds rest : List Char} (hds : ∀ c ∈ ds, Text.isDigit c = true) (hne : ds ≠ [])
    (hrest : Separated rest) : digits? (ds ++ rest) = some (ds, rest) := by
  have hdrop : rest.takeWhile Text.isDigit = [] ∧ rest.dropWhile Text.isDigit = rest := by
    cases rest with
    | nil => exact ⟨rfl, rfl⟩
    | cons c rest =>
        have hc : Text.isDigit c = false := by
          simp only [Separated, Bool.or_eq_false_iff] at hrest
          exact hrest.1.1.1
        simp [hc]
  rw [digits?, List.takeWhile_append_of_pos hds, List.dropWhile_append_of_pos hds, hdrop.1, hdrop.2]
  simp [hne]

theorem digitChar_ne_zero {n : Nat} (hn : n < 10) (h : n ≠ 0) : n.digitChar ≠ '0' := by
  decide +revert

theorem toDigits_cons {n : Nat} (h : n ≠ 0) : ∃ c cs, Nat.toDigits 10 n = c :: cs ∧ c ≠ '0' := by
  induction n using Nat.strongRecOn with
  | _ n ih =>
      by_cases hn : n < 10
      · exact ⟨_, [], Nat.toDigits_of_lt_base hn, digitChar_ne_zero hn h⟩
      · obtain ⟨c, cs, hcs, hc⟩ := ih (n / 10) (by omega) (by omega)
        refine ⟨c, cs ++ [(n % 10).digitChar], ?_, hc⟩
        rw [Nat.toDigits_of_base_le (by decide) (by omega), hcs, List.cons_append]

theorem whole?_toDigits (n : Nat) {rest : List Char} (hrest : Separated rest) :
    whole? (Nat.toDigits 10 n ++ rest) = some (Nat.toDigits 10 n, rest) := by
  by_cases hn : n = 0
  · subst hn
    rfl
  · obtain ⟨c, cs, hcs, hc⟩ := toDigits_cons hn
    have hdigits : digits? (Nat.toDigits 10 n ++ rest) = some (Nat.toDigits 10 n, rest) :=
      digits?_append (fun _ => Text.isDigit_of_mem_toDigits) Nat.toDigits_ne_nil hrest
    rw [hcs] at hdigits ⊢
    rw [List.cons_append, whole?, ← List.cons_append, hdigits]
    intro more heq
    exact hc (List.cons.inj heq).1

theorem fraction?_separated {rest : List Char} (h : Separated rest) :
    fraction? rest = some ([], rest) := by
  unfold fraction?
  split
  · cases h
  · rfl

theorem exponent?_separated {rest : List Char} (h : Separated rest) :
    exponent? rest = some ([], rest) := by
  cases rest with
  | nil => rfl
  | cons c rest =>
      simp only [Separated, Bool.or_eq_false_iff, beq_eq_false_iff_ne] at h
      simp [exponent?, h.1.2, h.2]

theorem toDigits_append_ne {n : Nat} {c : Char} (hc : Text.isDigit c = false) (rest more : List Char) :
    Nat.toDigits 10 n ++ rest ≠ c :: more := by
  intro h
  obtain ⟨d, ds, hds⟩ := List.exists_cons_of_ne_nil (Nat.toDigits_ne_nil (n := n) (b := 10))
  have hd : Text.isDigit d = true := Text.isDigit_of_mem_toDigits (hds ▸ List.mem_cons_self)
  rw [hds, List.cons_append, List.cons.injEq] at h
  exact Text.ne_of_isDigit hd hc h.1

theorem number?_toString (v : Int) {rest : List Char} (hrest : Separated rest) :
    number? ((toString v).toList ++ rest) = some ((toString v).toList, rest) := by
  cases v with
  | ofNat n =>
      rw [Int.ofNat_eq_natCast, Text.toList_toString_ofNat]
      unfold number?
      split
      next sign digits hsign =>
        split at hsign
        · exact absurd ‹_› (toDigits_append_ne (by decide) rest _)
        · obtain ⟨rfl, rfl⟩ := hsign
          simp [whole?_toDigits n hrest, fraction?_separated hrest, exponent?_separated hrest]
  | negSucc n =>
      rw [Text.toList_toString_negSucc]
      simp [number?, whole?_toDigits (n + 1) hrest, fraction?_separated hrest, exponent?_separated hrest]

-- What begins a number begins nothing else.
theorem token?_number {c : Char} (hc : c = '-' ∨ Text.isDigit c = true) (rest : List Char) :
    token? c rest = (number? (c :: rest)).map fun (literal, rest) => (.number literal, rest) := by
  unfold token?
  split
  all_goals first | rfl | exact absurd hc (by decide)

theorem Writes.number (v : Int) : Writes (toString v).toList [.number (toString v).toList] := by
  intro rest us hrest hyields
  have hnumber := number?_toString v hrest
  obtain ⟨c, cs, hcs⟩ := List.exists_cons_of_ne_nil (Text.toString_ne_nil (v := v))
  have hc : c = '-' ∨ Text.isDigit c = true := Text.mem_toString (hcs ▸ List.mem_cons_self)
  have hspace : isSpace c = false := by
    rw [← Bool.not_eq_true]
    intro h
    simp only [isSpace, Bool.or_eq_true, beq_iff_eq] at h
    rcases h with ((rfl | rfl) | rfl) | rfl <;> exact absurd hc (by decide)
  rw [hcs] at hnumber ⊢
  have ht : token? c (cs ++ rest) = some (.number (c :: cs), rest) := by
    rw [token?_number hc, ← List.cons_append, hnumber]
    rfl
  exact hyields.token hspace ht (List.length_append ▸ Nat.le_add_left _ _)

end PlZero.Json
