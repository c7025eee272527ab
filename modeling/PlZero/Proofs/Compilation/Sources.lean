import PlZero.Proofs.Analysis.Language

namespace PlZero

theorem settle_ne_complete (d : Draft) (tasks : List Task) : (settle d tasks).2 ≠ .ended .complete := by
  fun_induction settle d tasks with
  | case1 => assumption
  | case2 => simp
  | case3 => simp

theorem kind_of_accept_complete {t : Token} {d : Draft} {tasks : List Task}
    (h : (accept t d tasks).2 = .ended .complete) : t.kind = .eof := by
  fun_induction accept t d tasks with
  | case1 => assumption
  | case2 => cases h
  | case3 _ _ _ _ _ ih => exact ih h
  | case4 => cases h
  | case5 => exact absurd h (settle_ne_complete _ _)
  | case6 _ _ _ _ ih => exact ih h
  | case7 => cases h

theorem pending_of_pursue {ε : Type} {ending : StreamEnd ε} {n : Nat} {d : Draft}
    {tasks : List Task} {pending : List (Except ε Token)} {code : Array Instruction}
    (hkind : ∀ t, .ok t ∈ pending → t.kind ≠ .eof)
    (h : (Analyser.pursue ending n d tasks pending).1 = .ok code) :
    ∃ tokens : List Token, pending = tokens.map .ok := by
  induction pending generalizing n d tasks with
  | nil => exact ⟨[], rfl⟩
  | cons a pending ih =>
      cases a with
      | error e => cases h
      | ok t =>
          simp only [Analyser.pursue] at h
          rcases hshown : (accept t d tasks).2 with more | (_ | ⟨e, taken⟩)
          · rw [hshown] at h
            obtain ⟨tokens, rfl⟩ := ih (fun t ht => hkind t (by simp [ht])) h
            exact ⟨t :: tokens, rfl⟩
          · exact absurd (kind_of_accept_complete hshown) (hkind t (by simp))
          · rw [hshown] at h
            cases h

namespace Lexer

theorem kind_of_wordKind (word : String) : wordKind word ≠ .eof := by
  unfold wordKind TokenKind.keyword?
  split <;> simp

theorem kind_of_sign {c : Char} {kind : TokenKind} (h : TokenKind.sign? c = some kind) :
    kind ≠ .eof := by
  unfold TokenKind.sign? at h
  split at h <;> cases h <;> simp

theorem kind_of_token {l : Lexer} {c : Char} {t : Token} (h : (l.token c).1 = .ok t) :
    t.kind ≠ .eof := by
  unfold token at h
  split at h
  · simp only [number] at h
    split at h <;> cases h
    simp
  · split at h
    · cases h
      exact kind_of_wordKind _
    · simp only [sign] at h
      split at h <;> cases h
      next hs => exact kind_of_sign hs

theorem kind_of_answers (l : Lexer) : ∀ t, .ok t ∈ l.answers.1 → t.kind ≠ .eof := by
  fun_induction answers l with
  | case1 => simp
  | case2 l c _ _ step _ more ih =>
      intro t ht
      rcases List.mem_cons.mp ht with ht | ht
      · exact kind_of_token ht.symm
      · exact ih t ht

end Lexer

theorem firstError_map_ok (tokens : List Token) : firstError (tokens.map .ok) = (tokens, none) := by
  induction tokens with
  | nil => rfl
  | cons t tokens ih => simp [firstError, ih]

theorem of_firstError {answers : List Answer} {tokens : List Token}
    (h : firstError answers = (tokens, none)) : answers = tokens.map .ok := by
  induction answers generalizing tokens with
  | nil =>
      cases h
      rfl
  | cons a answers ih =>
      cases a with
      | error e => cases h
      | ok t =>
          rcases hf : firstError answers with ⟨ts, e⟩
          simp only [firstError, hf] at h
          cases h
          rw [ih hf]
          rfl

theorem untilEnd_of_ne_eof {p : Position} {tokens : List Token} (h : ∀ t ∈ tokens, t.kind ≠ .eof) :
    untilEnd p tokens = tokens ++ [Token.endOfText p] := by
  have happend := untilEnd_append (p := p) h []
  rwa [List.append_nil] at happend

theorem lex_eq_iff {source : List Char} {tokens : List Token} :
    lex source = (tokens, none) ↔ ∃ body : List Token,
      (Lexer.ofText source).answers.1 = body.map .ok ∧
        tokens = untilEnd (Lexer.ofText source).answers.2 body := by
  have hkind := (Lexer.ofText source).kind_of_answers
  have hend {body : List Token} (hbody : (Lexer.ofText source).answers.1 = body.map .ok) :
      untilEnd (Lexer.ofText source).answers.2 body =
        body ++ [Token.endOfText (Lexer.ofText source).answers.2] := by
    apply untilEnd_of_ne_eof
    intro t ht
    exact hkind t (by simp [hbody, ht])
  unfold lex
  constructor
  · intro h
    rcases hf : firstError (Lexer.ofText source).answers.1 with ⟨body, _ | e⟩
    · simp only [hf] at h
      cases h
      exact ⟨body, of_firstError hf, (hend (of_firstError hf)).symm⟩
    · simp only [hf] at h
      cases h
  · rintro ⟨body, hbody, rfl⟩
    simp only [hend hbody, hbody, firstError_map_ok]

theorem compile_eq (source : List Char) {code : Array Instruction} :
    (compile source).1 = .ok code ↔
      (Analyser.mk (TokenStream.ofText source) none {}).analyse.1 = .ok code := by
  simp only [compile]
  split <;> simp_all

theorem program_of_compile {source : List Char} {code : Array Instruction}
    (h : (compile source).1 = .ok code) :
    ∃ P : Program, lex source = (P.tokens, none) ∧ P.Lawful ∧ code.toList = P.code ∧
      (compile source).2.symbols.toList = P.symbols := by
  rw [compile_eq] at h
  obtain ⟨body, hbody⟩ := pending_of_pursue (Lexer.ofText source).kind_of_answers h
  have hstream : TokenStream.ofText source =
      ⟨body.map .ok, .eof (Lexer.ofText source).answers.2, 0⟩ := by
    rw [← hbody]
    rfl
  rw [hstream] at h
  obtain ⟨P, hP, hlawful, hcode, hsymbols⟩ := program_of_analyse h
  refine ⟨P, lex_eq_iff.mpr ⟨body, hbody, hP⟩, hlawful, hcode, ?_⟩
  rw [← hsymbols, ← hstream]
  rfl

theorem compile_of_program {source : List Char} {P : Program} (hlex : lex source = (P.tokens, none))
    (h : P.Lawful) : (compile source).1 = .ok P.code.toArray := by
  obtain ⟨body, hbody, hP⟩ := lex_eq_iff.mp hlex
  have hanalyse := analyse_of_program CompileError 0 hP h
  rw [← hbody] at hanalyse
  exact (compile_eq source).mpr hanalyse

end PlZero
