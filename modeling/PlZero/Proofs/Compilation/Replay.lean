import PlZero.Proofs.Analysis.Tasks
import PlZero.Proofs.Compilation.Sources
import PlZero.Proofs.Source.Order

namespace PlZero

-- The tokens that were read from a text, and then for ever the error that ended the reading. If there
-- was none, the last token is the end token, and nothing is asked after it.
def TokenStream.replay (lexed : List Token × Option CompileError) (ending : StreamEnd CompileError) :
    TokenStream CompileError :=
  match lexed with
  | (tokens, some e) => failingAfter tokens e
  | (tokens, none) => ⟨tokens.map .ok, ending, 0⟩

namespace Analyser

def Verdict.outcome (v : Verdict CompileError) : Except CompileError (Array Instruction) × SymbolTable :=
  (match v.1 with
    | .ok code => .ok code
    | .error (.program e) => .error e
    | .error (.stream e) => .error e,
    v.2.draft.symbols)

variable {ε : Type}

structure Verdict.Agrees (v w : Verdict ε) : Prop where
  answer : v.1 = w.1
  draft : v.2.draft = w.2.draft

theorem Verdict.Agrees.outcome {v w : Verdict CompileError} (h : v.Agrees w) : v.outcome = w.outcome := by
  rw [Verdict.outcome, h.answer, h.draft, Verdict.outcome]

theorem conclude_agrees (s s' : TokenStream ε) (t : Token) (d : Draft) (ending : Ending) :
    (conclude s t d ending).Agrees (conclude s' t d ending) := by
  cases ending <;> exact ⟨rfl, rfl⟩

-- Up to the first error that the stream answers, it makes no difference what the stream would answer
-- after it.
theorem pursue_error_agrees (tokens : List Token) (e : ε) (more : List (Except ε Token))
    (ending : StreamEnd ε) (n : Nat) (d : Draft) (tasks : List Task) :
    (pursue ending n d tasks (tokens.map .ok ++ .error e :: more)).Agrees
      (pursue (.failure e) n d tasks (tokens.map .ok)) := by
  induction tokens generalizing n d tasks with
  | nil => exact ⟨rfl, rfl⟩
  | cons t tokens ih =>
      simp only [List.map_cons, List.cons_append, pursue]
      split
      · exact ih _ _ _
      · exact conclude_agrees _ _ _ _ _

-- The end token is answered as a token of the list or as the stream's end.
theorem pursue_end_agrees (tokens : List Token) (p : Position) (ending : StreamEnd ε) (n : Nat)
    (d : Draft) (tasks : List Task) :
    (pursue (.eof p) n d tasks (tokens.map .ok)).Agrees
      (pursue ending n d tasks ((tokens ++ [Token.endOfText p]).map .ok)) := by
  induction tokens generalizing n d tasks with
  | nil =>
      have hend := accept_eof (rfl : (Token.endOfText p).kind = .eof) d tasks
      simp only [List.map_nil, List.nil_append, List.map_cons, pursue]
      split
      · next more hmore => exact absurd hmore (hend more)
      · next last hlast =>
          simp only [hlast]
          exact conclude_agrees _ _ _ _ _
  | cons t tokens ih =>
      simp only [List.cons_append, List.map_cons, pursue]
      split
      · exact ih _ _ _
      · exact conclude_agrees _ _ _ _ _

theorem pursue_failure {tokens : List Token} (hkind : ∀ t ∈ tokens, t.kind ≠ .eof) (e : ε) (n : Nat)
    (d : Draft) (tasks : List Task) :
    (pursue (.failure e) n d tasks (tokens.map .ok)).1 = .error (.stream e) ∨
      ∃ f, (pursue (.failure e) n d tasks (tokens.map .ok)).1 = .error (.program f) := by
  induction tokens generalizing n d tasks with
  | nil => exact .inl rfl
  | cons t tokens ih =>
      simp only [List.map_cons, pursue]
      rcases hshown : (accept t d tasks).2 with more | (_ | ⟨f, taken⟩)
      · exact ih (fun t ht => hkind t (List.mem_cons_of_mem _ ht)) _ _ _
      · exact absurd (kind_of_accept_complete hshown) (hkind t (by simp))
      · exact .inr ⟨f, rfl⟩

end Analyser

theorem Draft.canonical_empty : Draft.Canonical {} := by
  simp [Draft.Canonical]

theorem compile_eq_outcome (source : List Char) :
    compile source = (Analyser.mk (TokenStream.ofText source) none {}).analyse.outcome := rfl

theorem tokens_of_lex_none {source : List Char} {tokens : List Token} (h : lex source = (tokens, none)) :
    ∃ body : List Token, (Lexer.ofText source).answers.1 = body.map .ok ∧
      tokens = body ++ [Token.endOfText (Lexer.ofText source).answers.2] := by
  simp only [lex] at h
  split at h
  · cases h
  · next body hf =>
      cases h
      exact ⟨body, of_firstError hf, rfl⟩

theorem compile_replay (source : List Char) (ending : StreamEnd CompileError) :
    compile source = (Analyser.mk (.replay (lex source) ending) none {}).analyse.outcome := by
  rw [compile_eq_outcome]
  apply Analyser.Verdict.Agrees.outcome
  rcases hlex : lex source with ⟨tokens, _ | e⟩
  · obtain ⟨body, hbody, rfl⟩ := tokens_of_lex_none hlex
    have hagrees := Analyser.pursue_end_agrees body (Lexer.ofText source).answers.2 ending 0 {}
      Task.program
    rwa [← hbody] at hagrees
  · obtain ⟨more, hmore⟩ := answers_of_lex_error hlex
    have hagrees := Analyser.pursue_error_agrees tokens e more
      (.eof (Lexer.ofText source).answers.2) 0 {} Task.program
    rwa [← hmore] at hagrees

theorem compile_of_lex_error {source : List Char} {tokens : List Token} {e : CompileError}
    (h : lex source = (tokens, some e)) :
    ∃ f, (compile source).1 = .error f ∧ (f = e ∨ ∃ t ∈ tokens, f.Blames t) := by
  obtain ⟨more, hmore⟩ := answers_of_lex_error h
  have hkind : ∀ t ∈ tokens, t.kind ≠ .eof := fun t ht =>
    (Lexer.ofText source).kind_of_answers t (by simp [hmore, ht])
  have hcompile := compile_replay source (.failure e)
  rw [h] at hcompile
  change compile source =
    (Analyser.pursue (.failure e) 0 {} Task.program (tokens.map .ok)).outcome at hcompile
  rw [hcompile, Analyser.Verdict.outcome]
  rcases Analyser.pursue_failure hkind e 0 {} Task.program with hstream | ⟨f, hprogram⟩
  · rw [hstream]
    exact ⟨e, rfl, .inl rfl⟩
  · have hsound : Analyser.Verdict.Sound (· ∈ tokens)
        (Analyser.pursue (.failure e) 0 {} Task.program (tokens.map .ok)) :=
      Analyser.pursue_sound (by simp) (by simp) Draft.canonical_empty Task.sound_program
    obtain ⟨t, ht, hblames⟩ := hsound.error f hprogram
    rw [hprogram]
    exact ⟨f, rfl, .inr ⟨t, ht, hblames⟩⟩

theorem structural_of_lex_none {source : List Char} {tokens : List Token} {e : CompileError}
    (h : lex source = (tokens, none)) (he : (compile source).1 = .error e) :
    e.cause.isStructural = true := by
  obtain ⟨body, hbody, _⟩ := tokens_of_lex_none h
  have hanswer := (pursue_eq_reading CompileError (Lexer.ofText source).answers.2 0 {} Task.program
    body).1
  have hsound : Analyser.Verdict.Sound (fun _ => True)
      (Analyser.pursue (ε := CompileError) (.eof (Lexer.ofText source).answers.2) 0 {} Task.program
        (body.map .ok)) :=
    Analyser.pursue_sound (by simp) (by simp) Draft.canonical_empty Task.sound_program
  rw [compile_eq_outcome] at he
  change (Analyser.pursue (.eof (Lexer.ofText source).answers.2) 0 {} Task.program
    (Lexer.ofText source).answers.1).outcome.1 = _ at he
  rw [hbody, Analyser.Verdict.outcome] at he
  unfold answer at hanswer
  split at hanswer
  · rw [hanswer] at he
    cases he
  · next f _ =>
      obtain ⟨t, _, hblames⟩ := hsound.error f hanswer
      rw [hanswer] at he
      cases he
      exact hblames.2

theorem compile_replays_lex (source : List Char) (ending : StreamEnd CompileError) :
    (∀ n, (TokenStream.ofText source).answer n = ((Lexer.ofText source).calls n).next.1) ∧
    compile source = (Analyser.mk (.replay (lex source) ending) none {}).analyse.outcome ∧
    (∀ code, (compile source).1 = .ok code → (lex source).2 = none) ∧
    (∀ e, (compile source).1 = .error e → e.cause.isLexical = true → (lex source).2 = some e) ∧
    ∀ e, (lex source).2 = some e → ∃ f, (compile source).1 = .error f ∧
      (f = e ∨ f.cause.isStructural = true ∧ f.position.Before e.position) := by
  refine ⟨TokenStream.answer_ofText source, compile_replay source ending, ?_⟩
  rcases hlex : lex source with ⟨tokens, _ | e⟩
  · refine ⟨fun _ _ => rfl, fun e he hlexical => ?_, fun e he => (by cases he)⟩
    have hstructural := structural_of_lex_none hlex he
    rw [CompileCause.not_isLexical hstructural] at hlexical
    cases hlexical
  · obtain ⟨f, hf, hcase⟩ := compile_of_lex_error hlex
    refine ⟨fun code hcode => ?_, fun g hg hlexical => ?_, fun g hg => ⟨f, hf, ?_⟩⟩
    · rw [hf] at hcode
      cases hcode
    · rw [hf] at hg
      cases hg
      rcases hcase with rfl | ⟨t, _, hblames⟩
      · rfl
      · rw [CompileCause.not_isLexical hblames.2] at hlexical
        cases hlexical
    · cases hg
      rcases hcase with rfl | ⟨t, ht, hblames⟩
      · exact .inl rfl
      · refine .inr ⟨hblames.2, ?_⟩
        rw [hblames.1]
        exact start_before_error hlex ht

end PlZero
