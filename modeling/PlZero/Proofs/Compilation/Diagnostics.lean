import PlZero.Failure
import PlZero.Proofs.Compilation.Replay
import PlZero.Proofs.Text.Lines

namespace PlZero

theorem head?_slice (cs : List Char) {i j : Nat} (h : i < j) : (slice cs i j).head? = cs[i]? := by
  rw [slice, List.head?_drop, List.getElem?_take_of_lt h]

theorem slice_self (cs : List Char) (i : Nat) : slice cs i i = [] := by
  rw [slice, List.drop_eq_nil_iff]
  exact List.length_take_le i cs

namespace Reads

variable {cs : List Char} {i j : Nat} {a : Answer}

theorem position (h : Reads cs i a j) : Answer.position a = place cs i := by
  cases h <;> rfl

theorem lexeme {t : Token} (h : Reads cs i (.ok t) j) : t.lexeme.toList = slice cs i j := by
  cases h with
  | eof => rw [slice_self]; rfl
  | number | keyword | identifier | operator => exact String.toList_ofList

theorem head? (h : Reads cs i a j) : (slice cs i j).head? = cs[i]? := by
  cases h with
  | number _ _ nonempty | overflow _ nonempty | keyword _ _ _ _ _ nonempty
  | identifier _ _ _ _ nonempty => exact head?_slice cs nonempty
  | operator | invalid => exact head?_slice cs (Nat.lt_succ_self i)
  | eof past =>
      rw [slice_self, past, List.getElem?_length]
      rfl

theorem eq_endOfText (h : Reads cs i a j) (hnone : cs[i]? = none) :
    a = .ok (Token.endOfText (place cs i)) := by
  cases h with
  | eof => rfl
  | number _ _ nonempty run | overflow _ nonempty run =>
      have hlen := List.getElem?_eq_none_iff.mp hnone
      have hbound := run.bound
      omega
  | keyword _ _ _ first | identifier _ _ first | operator _ _ first | invalid _ first =>
      rw [first] at hnone
      cases hnone

end Reads

namespace Text

theorem head?_lineEnd {cs : List Char} (h : ∀ c, cs.head? = some c → c ≠ '\n') :
    (lineEnd cs).head? = cs.head? := by
  cases cs with
  | nil => rfl
  | cons c cs => simp [lineEnd, h c rfl]

end Text

-- The line of a place, in which the column counts what stands before the place.
theorem line_of_place (cs : List Char) {i : Nat} (h : ∀ c, cs[i]? = some c → c ≠ '\n') :
    ∃ (line column : Nat) (text : List Char), place cs i = ⟨line, column⟩ ∧
      (Text.lines cs)[line]? = some text ∧ column ≤ text.length ∧ text[column]? = cs[i]? := by
  have hline := Text.line_at (cs.take i) (cs.drop i)
  rw [List.take_append_drop] at hline
  refine ⟨_, _, _, rfl, hline, ?_, ?_⟩
  · simp [Text.lineEnd]
  · have hcolumn : ((cs.take i).reverse.takeWhile (· != '\n')).length =
        (Text.lineEnd (cs.take i).reverse).reverse.length := by
      rw [List.length_reverse, Text.lineEnd]
    rw [hcolumn, List.getElem?_append_right (Nat.le_refl _), Nat.sub_self, ← List.head?_eq_getElem?,
      Text.head?_lineEnd (by simpa using h), List.head?_drop]

theorem sourceLine_of_getElem? {source shown : List UInt8} {line : Nat}
    (h : (source.splitOn 0x0A)[line]? = some shown) : sourceLine source line = shown := by
  rw [← Text.split_eq_splitOn] at h
  simp [sourceLine, h]

theorem length_margin {text : List Char} {column : Nat} (h : column ≤ text.length) :
    (margin text column).length = column := by
  simp [margin, h]

theorem margin_getElem? {text : List Char} {column k : Nat} (h : column ≤ text.length) (hk : k < column) :
    (margin text column)[k]? = some (if text[k]? = some '\t' then '\t' else ' ') := by
  have hlt : k < text.length := Nat.lt_of_lt_of_le hk h
  simp only [margin, Int.toNat_natCast, List.getElem?_map, List.getElem?_take_of_lt hk,
    List.getElem?_eq_getElem hlt, Option.map_some, Option.some.injEq]
  split
  · assumption
  · rfl

-- What an error is about: it is itself what the lexer answers, or it blames a token.
def CompileError.Reports (e : CompileError) : Answer → Prop
  | .ok t => e.Blames t
  | .error f => f = e

theorem CompileError.Reports.position {e : CompileError} {a : Answer} (h : e.Reports a) :
    e.position = Answer.position a := by
  cases a with
  | ok t => exact h.1
  | error f => rw [← h]; rfl

namespace Lexer

theorem exists_call_of_mem {l : Lexer} {a : Answer} (h : a ∈ l.answers.1) :
    ∃ n, (l.calls n).next.1 = a := by
  obtain ⟨n, hn⟩ := List.mem_iff_getElem?.mp h
  exact ⟨n, by rw [← answers_getD, hn]; rfl⟩

theorem exists_call_endOfText (l : Lexer) :
    ∃ n, (l.calls n).next.1 = .ok (Token.endOfText l.answers.2) :=
  ⟨l.answers.1.length, by rw [← answers_getD, List.getElem?_length]; rfl⟩

end Lexer

theorem Analyser.of_stream_error {ε : Type} {ending : StreamEnd ε} {n : Nat} {d : Draft}
    {tasks : List Task} {pending : List (Except ε Token)} {e : ε}
    (h : (pursue ending n d tasks pending).1 = .error (.stream e)) :
    .error e ∈ pending ∨ ending = .failure e := by
  induction pending generalizing n d tasks with
  | nil =>
      cases ending with
      | failure f =>
          cases h
          exact .inr rfl
      | eof p =>
          exact absurd h (conclude_ne_stream _ _ _ _ e)
  | cons a pending ih =>
      cases a with
      | error f =>
          cases h
          exact .inl (by simp)
      | ok t =>
          simp only [pursue] at h
          split at h
          · exact (ih h).imp_left (List.mem_cons_of_mem _)
          · exact absurd h (conclude_ne_stream _ _ _ _ e)

theorem reports_of_compile {cs : List Char} {e : CompileError} (h : (compile cs).1 = .error e) :
    ∃ n, e.Reports ((Lexer.ofText cs).calls n).next.1 := by
  let seen (t : Token) : Prop := ∃ n, ((Lexer.ofText cs).calls n).next.1 = .ok t
  have hsound : Analyser.Verdict.Sound seen
      (Analyser.pursue (.eof (Lexer.ofText cs).answers.2) 0 {} Task.program (Lexer.ofText cs).answers.1) := by
    refine Analyser.pursue_sound (fun t ht => Lexer.exists_call_of_mem ht) (fun p hp => ?_)
      Draft.canonical_empty Task.sound_program
    cases hp
    exact Lexer.exists_call_endOfText _
  rw [compile_eq_outcome] at h
  change (Analyser.pursue (.eof (Lexer.ofText cs).answers.2) 0 {} Task.program
    (Lexer.ofText cs).answers.1).outcome.1 = _ at h
  simp only [Analyser.Verdict.outcome] at h
  split at h
  · cases h
  · next f hf =>
      cases h
      obtain ⟨t, ⟨n, hn⟩, hblames⟩ := hsound.error _ hf
      exact ⟨n, by rw [hn]; exact hblames⟩
  · next f hf =>
      cases h
      rcases Analyser.of_stream_error hf with hmem | hend
      · obtain ⟨n, hn⟩ := Lexer.exists_call_of_mem hmem
        exact ⟨n, by rw [hn]; rfl⟩
      · cases hend

theorem reports_of_lex {cs : List Char} {e : CompileError} (h : (lex cs).2 = some e) :
    ∃ n, e.Reports ((Lexer.ofText cs).calls n).next.1 := by
  obtain ⟨more, hmore⟩ := answers_of_lex_error (Prod.ext rfl h)
  obtain ⟨n, hn⟩ := Lexer.exists_call_of_mem (a := .error e) (by rw [hmore]; simp)
  exact ⟨n, by rw [hn]; rfl⟩

theorem diagnostic_points_at_offence {bytes : List UInt8} {e : CompileError}
    (h : (compile (Text.Utf8.decode bytes)).1 = .error e ∨ (lex (Text.Utf8.decode bytes)).2 = some e) :
    let cs := Text.Utf8.decode bytes
    ∃ (line column : Nat) (shown : List UInt8) (indent : List Char),
      e.position = ⟨line, column⟩ ∧ (bytes.splitOn 0x0A)[line]? = some shown ∧
      let text := Text.Utf8.decode shown
      Text.Utf8.Decodes shown text ∧ column ≤ text.length ∧
      (Failure.compile e).diagnose bytes =
        (Text.Utf8.encode (e.render ++ "\n  |> ")).toList ++ shown ++
          (Text.Utf8.encode ("\n  |> " ++ String.ofList indent ++ "^")).toList ∧
      indent.length = column ∧
      (∀ k < column, indent[k]? = some (if text[k]? = some '\t' then '\t' else ' ')) ∧
      ∃ n i j, let answer := ((Lexer.ofText cs).calls n).next.1
        e.Reports answer ∧ e.position = place cs i ∧ Reads cs i answer j ∧
        (∀ t, answer = .ok t → t.lexeme.toList = slice cs i j) ∧
        text[column]? = (slice cs i j).head? ∧
        (text[column]? = none → answer = .ok (Token.endOfText e.position)) := by
  intro cs
  obtain ⟨n, hreports⟩ := h.elim reports_of_compile reports_of_lex
  obtain ⟨_, i, j, _, _, _, _, hrun, _, hreads⟩ := Lexer.call_reads cs n
  have hposition : e.position = place cs i := hreports.position.trans hreads.position
  have hbreak : ∀ c, cs[i]? = some c → c ≠ '\n' := by
    rintro _ hc rfl
    exact absurd (hrun.longest _ hc) (by decide)
  obtain ⟨line, column, text, hplace, hline, hcolumn, hhere⟩ := line_of_place cs hbreak
  rw [Text.Utf8.lines_decode, List.getElem?_map, Option.map_eq_some_iff] at hline
  obtain ⟨shown, hshown, rfl⟩ := hline
  refine ⟨line, column, shown, margin (Text.Utf8.decode shown) column, hposition.trans hplace, hshown,
    Text.Utf8.decodes_decode shown, hcolumn, ?_, length_margin hcolumn, fun k => margin_getElem? hcolumn,
    n, i, j, hreports, hposition, hreads, fun t ht => (ht ▸ hreads).lexeme, ?_, ?_⟩
  · simp only [Failure.diagnose, Failure.compileError?, CompileError.diagnose, hposition, hplace,
      sourceLine_of_getElem? hshown]
  · rw [hhere, hreads.head?]
  · intro hnone
    rw [hposition]
    exact hreads.eq_endOfText (hhere.symm.trans hnone)

-- On the second line stand a tab, the word `print`, a name and a byte that is no character.
def unbracketed : List UInt8 :=
  [0x62, 0x65, 0x67, 0x69, 0x6E, 0x0A, 0x09, 0x70, 0x72, 0x69, 0x6E, 0x74, 0x20, 0xC3, 0xA9, 0xFF]

theorem diagnostic_points_at_offence_unbracketed :
    let e := unexpected ⟨.identifier, "é", 0, ⟨1, 7⟩, ⟨1, 8⟩⟩ [.leftParen]
    (compile (Text.Utf8.decode unbracketed)).1 = .error e ∧
    ∃ indent : List Char,
      (Failure.compile e).diagnose unbracketed =
        (Text.Utf8.encode (e.render ++ "\n  |> ")).toList ++
          [0x09, 0x70, 0x72, 0x69, 0x6E, 0x74, 0x20, 0xC3, 0xA9, 0xFF] ++
          (Text.Utf8.encode ("\n  |> " ++ String.ofList indent ++ "^")).toList ∧
      indent.length = 7 ∧ indent[0]? = some '\t' ∧ indent[6]? = some ' ' := by
  intro e
  have hfails : (compile (Text.Utf8.decode unbracketed)).1 = .error e := by decide +kernel
  obtain ⟨line, column, shown, indent, hposition, hshown, -, -, hdiagnose, hlength, hindent, -⟩ :=
    diagnostic_points_at_offence (.inl hfails)
  obtain ⟨rfl, rfl⟩ : line = 1 ∧ column = 7 := by
    simp only [e, unexpected, Position.mk.injEq] at hposition
    omega
  have hsecond : (unbracketed.splitOn 0x0A)[1]? = some (unbracketed.drop 6) := by decide +kernel
  obtain rfl : unbracketed.drop 6 = shown := Option.some.inj (hsecond.symm.trans hshown)
  refine ⟨hfails, indent, hdiagnose, hlength, ?_, ?_⟩
  · rw [hindent 0 (by decide)]
    decide +kernel
  · rw [hindent 6 (by decide)]
    decide +kernel

end PlZero
