import PlZero.Proofs.Text.Encoding
import PlZero.Text.Lines

namespace PlZero.Text

section Split

variable {α : Type} [DecidableEq α] {a : α} {bs : List α}

theorem splitOn_cons (a b : α) (bs : List α) :
    (b :: bs).splitOn a =
      if b = a then [] :: bs.splitOn a else (bs.splitOn a).modifyHead (List.cons b) := by
  simp [List.splitOn, List.splitOnP_cons_eq_if_modifyHead]

theorem head?_splitOn (a : α) (bs : List α) : (bs.splitOn a).head? = some (bs.takeWhile (· != a)) := by
  induction bs with
  | nil => rfl
  | cons b bs ih =>
      rw [splitOn_cons]
      by_cases hb : b = a
      · simp [hb]
      · simp [hb, ih]

theorem splitOn_append (h : a ∉ bs) (cs : List α) :
    (bs ++ cs).splitOn a = (cs.splitOn a).modifyHead (bs ++ ·) := by
  induction bs with
  | nil =>
      change _ = (cs.splitOn a).modifyHead id
      rw [List.modifyHead_id]
      rfl
  | cons b bs ih =>
      obtain ⟨hne, hbs⟩ := List.ne_and_not_mem_of_not_mem_cons h
      rw [List.cons_append, splitOn_cons, if_neg hne.symm, ih hbs, List.modifyHead_modifyHead]
      rfl

theorem length_splitOn (a : α) (bs : List α) : (bs.splitOn a).length = bs.count a + 1 := by
  induction bs with
  | nil => rfl
  | cons b bs ih =>
      rw [splitOn_cons]
      by_cases hb : b = a
      · simp [hb, ih]
      · simp [hb, ih]

theorem split_cons (a b : α) (bs : List α) :
    split a (b :: bs) = if b = a then [] :: split a bs else (split a bs).modifyHead (List.cons b) := by
  simp only [split, breakAt]
  split <;> rfl

theorem split_eq_splitOn (a : α) (bs : List α) : split a bs = bs.splitOn a := by
  induction bs with
  | nil => rfl
  | cons b bs ih => rw [split_cons, ih, splitOn_cons]

end Split

theorem lines_cons (c : Char) (cs : List Char) :
    lines (c :: cs) = if c = '\n' then [] :: lines cs else (lines cs).modifyHead (List.cons c) :=
  split_cons '\n' c cs

theorem lines_eq_splitOn (cs : List Char) : lines cs = cs.splitOn '\n' :=
  split_eq_splitOn '\n' cs

theorem lines_append {line : List Char} (h : '\n' ∉ line) (rest : List Char) :
    lines (line ++ '\n' :: rest) = line :: lines rest := by
  induction line with
  | nil => rw [List.nil_append, lines_cons, if_pos rfl]
  | cons c line ih =>
      obtain ⟨hc, hline⟩ := List.ne_and_not_mem_of_not_mem_cons h
      rw [List.cons_append, lines_cons, if_neg hc.symm, ih hline]
      rfl

theorem lines_append_break (cs ds : List Char) : lines (cs ++ '\n' :: ds) = lines cs ++ lines ds := by
  simp only [lines_eq_splitOn, List.splitOn_append_cons_self]

def lineEnd (cs : List Char) : List Char := cs.takeWhile (· != '\n')

theorem lineEnd_append {cs : List Char} (h : '\n' ∉ cs) (ds : List Char) :
    lineEnd (cs ++ ds) = cs ++ lineEnd ds := by
  apply List.takeWhile_append_of_pos
  intro c hc
  simp only [bne_iff_ne, ne_eq]
  rintro rfl
  exact h hc

theorem head?_lines (cs : List Char) : (lines cs).head? = some (lineEnd cs) := by
  rw [lines_eq_splitOn, head?_splitOn, lineEnd]

-- A text up to a place in it ends within a line, of which it holds the beginning.
theorem line_at (before after : List Char) :
    (lines (before ++ after))[before.count '\n']? =
      some ((lineEnd before.reverse).reverse ++ lineEnd after) := by
  by_cases h : '\n' ∈ before
  · obtain ⟨bs, as, hrev, hbs⟩ := List.eq_append_cons_of_mem (List.mem_reverse.mpr h)
    have hbefore : before = as.reverse ++ '\n' :: bs.reverse := by
      rw [← before.reverse_reverse, hrev]
      simp
    have hbegin : (lineEnd before.reverse).reverse = bs.reverse := by
      rw [hrev, lineEnd_append hbs]
      simp [lineEnd]
    have hcount : (as.reverse ++ '\n' :: bs.reverse).count '\n' = (lines as.reverse).length := by
      rw [lines_eq_splitOn, length_splitOn]
      simp [List.count_eq_zero.mpr hbs]
    rw [hbegin, hbefore, List.append_assoc, List.cons_append, lines_append_break, hcount,
      List.getElem?_append_right (Nat.le_refl _), Nat.sub_self, ← List.head?_eq_getElem?, head?_lines,
      lineEnd_append (by simpa using hbs)]
  · have hbegin : (lineEnd before.reverse).reverse = before := by
      have hreverse : '\n' ∉ before.reverse := by simpa using h
      have hall := lineEnd_append hreverse []
      rw [List.append_nil] at hall
      rw [hall]
      simp [lineEnd]
    rw [hbegin, List.count_eq_zero.mpr h, ← List.head?_eq_getElem?, head?_lines, lineEnd_append h]

namespace Utf8

theorem break_not_mem_encodeChar {c : Char} (h : c ≠ '\n') : 0x0A ∉ String.utf8EncodeChar c := by
  have byte {n : Nat} (hn : n < 0x100) (hne : n ≠ 0x0A) : 0x0A ≠ UInt8.ofNat n := fun heq =>
    hne ((UInt8.toNat_ofNat_of_lt hn).symm.trans (congrArg UInt8.toNat heq.symm))
  have hcode : c.toNat ≠ 0x0A := fun hcode => h (Char.toNat_inj.mp hcode)
  have hlt := toNat_lt c
  rw [encodeChar_eq]
  split
  · simp only [List.mem_cons, List.not_mem_nil, or_false]
    exact byte (by omega) hcode
  split
  · simp only [List.mem_cons, List.not_mem_nil, or_false, not_or]
    exact ⟨byte (by omega) (by omega), byte (by omega) (by omega)⟩
  split <;> simp only [List.mem_cons, List.not_mem_nil, or_false, not_or]
  · exact ⟨byte (by omega) (by omega), byte (by omega) (by omega), byte (by omega) (by omega)⟩
  · exact ⟨byte (by omega) (by omega), byte (by omega) (by omega), byte (by omega) (by omega),
      byte (by omega) (by omega)⟩

theorem decode_invalid {b : UInt8} {rest : List UInt8}
    (alone : ∀ c, ¬ String.utf8EncodeChar c <+: b :: rest) :
    decode (b :: rest) = replacement :: decode rest := by
  rcases hl : leading? (b :: rest) with _ | ⟨c, k⟩
  · exact decode_of_leading?_none hl
  · obtain ⟨more, hmore, _⟩ := encodeChar_of_leading? hl
    exact absurd ⟨more, hmore.symm⟩ (alone c)

-- A line break is a byte of its own, and a byte that begins no character in the text begins none in its
-- line, so it makes no difference whether the bytes are split before they are read or after.
theorem lines_of_decodes {bytes : List UInt8} {cs : List Char} (h : Decodes bytes cs) :
    lines cs = (bytes.splitOn 0x0A).map decode := by
  induction h with
  | nil => rfl
  | @char c rest cs more ih =>
      rw [lines_cons]
      by_cases hc : c = '\n'
      · subst hc
        have hbytes : String.utf8EncodeChar '\n' ++ rest = 0x0A :: rest := rfl
        rw [if_pos rfl, hbytes, splitOn_cons, if_pos rfl, ih]
        rfl
      · rw [if_neg hc, splitOn_append (break_not_mem_encodeChar hc), ih]
        cases rest.splitOn 0x0A with
        | nil => rfl
        | cons first lines => simp [decode_encodeChar]
  | @invalid b rest cs alone more ih =>
      have hb : b ≠ 0x0A := by
        rintro rfl
        exact alone '\n' ⟨rest, rfl⟩
      have hreplacement : replacement ≠ '\n' := by decide
      have hhead := head?_splitOn 0x0A rest
      rw [lines_cons, if_neg hreplacement, splitOn_cons, if_neg hb, ih]
      cases hlines : rest.splitOn 0x0A with
      | nil => rfl
      | cons first lines =>
          rw [hlines] at hhead
          have hprefix : first <+: rest := by
            cases hhead
            exact List.takeWhile_prefix _
          have hfirst : decode (b :: first) = replacement :: decode first := by
            refine decode_invalid fun c hc => alone c (hc.trans ?_)
            exact List.cons_prefix_cons.mpr ⟨rfl, hprefix⟩
          simp [hfirst]

theorem lines_decode (bytes : List UInt8) : lines (decode bytes) = (bytes.splitOn 0x0A).map decode :=
  lines_of_decodes (decodes_decode bytes)

end Utf8

end PlZero.Text
