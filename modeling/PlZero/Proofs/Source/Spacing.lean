import Mathlib.Data.List.Forall2
import PlZero.Proofs.Source.Ranges
import PlZero.Proofs.Text.Numerals

namespace PlZero

namespace Text

theorem blank_code {c : Char} (h : isBlank c = true) :
    ∃ r ∈ blankRanges, c.toNat ∈ List.range' r.1 (r.2 + 1 - r.1) := by
  have hincreasing : Increasing blankRanges := by
    unfold Increasing
    decide
  obtain ⟨r, hr, hlow, hhigh⟩ := (inRanges_iff hincreasing c.toNat).mp h
  exact ⟨r, hr, List.mem_range'_1.mpr (by omega)⟩

-- No token holds a blank, and no token begins with one.
theorem not_in_token_of_blank {c : Char} (h : isBlank c = true) :
    isDigit c = false ∧ isWordChar c = false ∧ TokenKind.sign? c = none := by
  have hcodes : ∀ r ∈ blankRanges, ∀ n ∈ List.range' r.1 (r.2 + 1 - r.1),
      ¬ (48 ≤ n ∧ n ≤ 57) ∧ inRanges letterRanges n = false ∧ inRanges digitRanges n = false := by
    decide +kernel
  obtain ⟨r, hr, hn⟩ := blank_code h
  obtain ⟨hdigit, hletter, hdecimal⟩ := hcodes r hr _ hn
  refine ⟨?_, ?_, ?_⟩
  · rw [← Bool.not_eq_true]
    exact fun hc => hdigit (code_of_isDigit hc)
  · rw [isWordChar, isLetter, isDecimal, hletter, hdecimal]
    rfl
  · have hsigns : ∀ entry ∈ operators, isBlank entry.1 = false := by decide
    cases hsign : TokenKind.sign? c with
    | none => rfl
    | some kind =>
        have hblank := hsigns _ (sign?_eq_some hsign)
        rw [h] at hblank
        cases hblank

theorem not_blank_of_in_token {c : Char}
    (h : isDigit c = true ∨ isWordChar c = true ∨ ∃ kind, TokenKind.sign? c = some kind) :
    isBlank c = false := by
  rw [← Bool.not_eq_true]
  intro hblank
  obtain ⟨hdigit, hword, hsign⟩ := not_in_token_of_blank hblank
  simp [hdigit, hword, hsign] at h

end Text

-- A token whose lexeme a lexer reads as this token.
inductive Token.Spelt (t : Token) : Prop where
  | number (kind : t.kind = .number) (nonempty : t.lexeme.toList ≠ [])
      (digits : ∀ c ∈ t.lexeme.toList, Text.isDigit c = true)
      (value : Lexer.literalValue t.lexeme.toList = some t.value)
  | word (c : Char) (cs : List Char) (lexeme : t.lexeme.toList = c :: cs)
      (digit : Text.isDigit c = false) (letter : Text.isLetter c = true)
      (word : ∀ d ∈ t.lexeme.toList, isWordChar d = true)
      (kind : t.kind = Lexer.wordKind t.lexeme) (value : t.value = 0)
  | sign (c : Char) (lexeme : t.lexeme.toList = [c]) (digit : Text.isDigit c = false)
      (letter : Text.isLetter c = false) (kind : TokenKind.sign? c = some t.kind) (value : t.value = 0)

-- Tokens that differ in their places only.
structure Token.Alike (t u : Token) : Prop where
  kind : u.kind = t.kind
  lexeme : u.lexeme = t.lexeme
  value : u.value = t.value

-- A text from its first token on: lexemes with blanks behind them, and at least one between two of them.
inductive Spread : List Token → List Char → Prop where
  | nil {trail : List Char} (blank : ∀ c ∈ trail, Text.isBlank c = true) : Spread [] trail
  | cons (t : Token) {ts : List Token} {gap rest : List Char}
      (blank : ∀ c ∈ gap, Text.isBlank c = true) (apart : ts ≠ [] → gap ≠ []) (more : Spread ts rest) :
      Spread (t :: ts) (t.lexeme.toList ++ (gap ++ rest))

namespace Lexer

theorem takeRun_append {class? : Char → Bool} {run rest : List Char}
    (hrun : ∀ c ∈ run, class? c = true) (hrest : ∀ c ∈ rest.head?, class? c = false) (p : Position) :
    (Lexer.mk (run ++ rest) p).takeRun class? = (run, ⟨rest, p.after run⟩) := by
  have htake : rest.takeWhile class? = [] ∧ rest.dropWhile class? = rest := by
    cases rest with
    | nil => exact ⟨rfl, rfl⟩
    | cons c rest => simp [hrest c (by simp)]
  simp [takeRun, List.takeWhile_append_of_pos hrun, List.dropWhile_append_of_pos hrun, htake]

theorem skipBlanks_append {lead rest : List Char} (hlead : ∀ c ∈ lead, Text.isBlank c = true)
    (hrest : ∀ c ∈ rest.head?, Text.isBlank c = false) (p : Position) :
    (Lexer.mk (lead ++ rest) p).skipBlanks = ⟨rest, p.after lead⟩ := by
  rw [skipBlanks, takeRun_append hlead hrest]

theorem answers_of_end {l : Lexer} (h : l.skipBlanks.rest = []) : l.answers.1 = [] := by
  rw [answers]
  split
  · rfl
  · next hc => cases h.symm.trans hc

theorem answers_of_cons {l : Lexer} {c : Char} {cs : List Char} (h : l.skipBlanks.rest = c :: cs) :
    l.answers.1 = (l.skipBlanks.token c).1 :: (l.skipBlanks.token c).2.answers.1 := by
  rw [answers]
  split
  · next hnil => cases hnil.symm.trans h
  · next hc =>
      cases hc.symm.trans h
      rfl

theorem token_spelt {l : Lexer} {c : Char} {cs : List Char} (hrest : l.rest = c :: cs) {t : Token}
    (h : (l.token c).1 = .ok t) : t.Spelt := by
  unfold token at h
  split at h
  · next hdigit =>
      simp only [number, takeRun] at h
      split at h
      · next value hvalue =>
          cases h
          refine .number rfl ?_ ?_ ?_
          · simp [hrest, hdigit]
          · simpa using List.all_eq_true.mp List.all_takeWhile
          · simpa using hvalue
      · cases h
  · next hdigit =>
      have hdigit : Text.isDigit c = false := by simpa using hdigit
      split at h
      · next hletter =>
          cases h
          refine .word c (cs.takeWhile isWordChar) ?_ hdigit hletter ?_ rfl rfl
          · simp [takeRun, hrest, hletter]
            rfl
          · intro d hd
            rw [String.toList_ofList] at hd
            exact List.all_eq_true.mp (List.all_takeWhile (p := isWordChar)) d hd
      · next hletter =>
          simp only [sign] at h
          split at h
          · next kind hkind =>
              cases h
              exact .sign c (by simp) hdigit (by simpa using hletter) hkind rfl
          · cases h

theorem answers_spelt (l : Lexer) : ∀ t, .ok t ∈ l.answers.1 → t.Spelt := by
  fun_induction answers l with
  | case1 => simp
  | case2 l c _ hrest step _ more ih =>
      intro t ht
      rcases List.mem_cons.mp ht with ht | ht
      · exact token_spelt hrest ht.symm
      · exact ih t ht

end Lexer

namespace Token.Spelt

variable {t : Token}

theorem exists_first (h : t.Spelt) :
    ∃ c cs, t.lexeme.toList = c :: cs ∧ Text.isBlank c = false := by
  cases h with
  | number kind nonempty digits =>
      obtain ⟨c, cs, hlexeme⟩ := List.exists_cons_of_ne_nil nonempty
      exact ⟨c, cs, hlexeme, Text.not_blank_of_in_token (.inl (digits c (by simp [hlexeme])))⟩
  | word c cs lexeme digit letter word =>
      exact ⟨c, cs, lexeme, Text.not_blank_of_in_token (.inr (.inl (word c (by simp [lexeme]))))⟩
  | sign c lexeme digit letter kind =>
      exact ⟨c, [], lexeme, Text.not_blank_of_in_token (.inr (.inr ⟨t.kind, kind⟩))⟩

-- The lexeme is read again as far as a blank or the end of the text.
theorem token (h : t.Spelt) {c : Char} {cs rest : List Char} (hlexeme : t.lexeme.toList = c :: cs)
    (hrest : ∀ d ∈ rest.head?, Text.isBlank d = true) (p : Position) :
    ∃ u q, (Lexer.mk (t.lexeme.toList ++ rest) p).token c = (.ok u, ⟨rest, q⟩) ∧ t.Alike u := by
  cases h with
  | number kind nonempty digits value =>
      have hrun := Lexer.takeRun_append digits
        (fun d hd => (Text.not_in_token_of_blank (hrest d hd)).1) p
      have hdigit := digits c (by simp [hlexeme])
      refine ⟨⟨.number, t.lexeme, t.value, p, p.after t.lexeme.toList⟩, p.after t.lexeme.toList, ?_,
        kind.symm, rfl, rfl⟩
      simp [Lexer.token, hdigit, Lexer.number, hrun, value]
  | word d ds lexeme digit letter word kind value =>
      cases hlexeme.symm.trans lexeme
      have hrun := Lexer.takeRun_append word
        (fun d hd => (Text.not_in_token_of_blank (hrest d hd)).2.1) p
      refine ⟨⟨Lexer.wordKind t.lexeme, t.lexeme, 0, p, p.after t.lexeme.toList⟩,
        p.after t.lexeme.toList, ?_, kind.symm, rfl, value.symm⟩
      unfold isWordChar at hrun
      simp [Lexer.token, digit, letter, Lexer.word, hrun]
  | sign d lexeme digit letter kind value =>
      cases hlexeme.symm.trans lexeme
      refine ⟨⟨t.kind, t.lexeme, 0, p, p.advance c⟩, p.advance c, ?_, rfl, rfl, value.symm⟩
      have hsingle : String.singleton c = t.lexeme := by
        rw [← String.toList_inj, lexeme]
        simp
      simp [Lexer.token, digit, letter, Lexer.sign, kind, lexeme, hsingle]

end Token.Spelt

theorem Spread.apart {ts : List Token} {gap rest : List Char} (h : Spread ts rest)
    (blank : ∀ c ∈ gap, Text.isBlank c = true) (apart : ts ≠ [] → gap ≠ []) :
    ∀ c ∈ (gap ++ rest).head?, Text.isBlank c = true := by
  intro c hc
  cases gap with
  | cons d gap =>
      cases hc
      exact blank _ (by simp)
  | nil =>
      cases h with
      | nil trail => exact trail c (List.mem_of_mem_head? hc)
      | cons => exact absurd rfl (apart (by simp))

theorem answers_spread {ts : List Token} {cs : List Char} (h : Spread ts cs)
    (hts : ∀ t ∈ ts, t.Spelt) {lead : List Char} (hlead : ∀ c ∈ lead, Text.isBlank c = true)
    (p : Position) :
    ∃ us : List Token, (Lexer.mk (lead ++ cs) p).answers.1 = us.map .ok ∧
      List.Forall₂ Token.Alike ts us := by
  induction h generalizing lead p with
  | @nil trail blank =>
      have hskip : (Lexer.mk (lead ++ trail) p).skipBlanks.rest = [] := by
        have hall : ∀ c ∈ lead ++ trail, Text.isBlank c = true := by
          simpa [or_imp, forall_and] using ⟨hlead, blank⟩
        have hskip : (Lexer.mk (lead ++ trail ++ []) p).skipBlanks = ⟨[], p.after (lead ++ trail)⟩ :=
          Lexer.skipBlanks_append hall (by simp) p
        rw [List.append_nil] at hskip
        rw [hskip]
      exact ⟨[], Lexer.answers_of_end hskip, .nil⟩
  | @cons t ts gap rest blank apart more ih =>
      have ht := hts t (by simp)
      obtain ⟨c, cs, hlexeme, hc⟩ := ht.exists_first
      have hskip : (Lexer.mk (lead ++ (t.lexeme.toList ++ (gap ++ rest))) p).skipBlanks =
          ⟨t.lexeme.toList ++ (gap ++ rest), p.after lead⟩ :=
        Lexer.skipBlanks_append hlead (by simpa [hlexeme] using hc) p
      obtain ⟨u, q, htoken, halike⟩ := ht.token hlexeme (more.apart blank apart) (p.after lead)
      obtain ⟨us, hus, hall⟩ := ih (fun t ht => hts t (by simp [ht])) blank q
      refine ⟨u :: us, ?_, .cons halike hall⟩
      rw [Lexer.answers_of_cons (by rw [hskip, hlexeme]; rfl), hskip, htoken, hus]
      rfl

end PlZero
