import PlZero.Proofs.Analysis.Declarations
import PlZero.Proofs.Analysis.Programs

namespace PlZero

theorem reading_program_iff (p : Position) (tokens : List Token) (r : Draft) :
    reading p {} Task.program tokens = (none, r) ↔
      ∃ P : Program, P.tokens = untilEnd p tokens ∧ P.Lawful ∧ r = P.items.foldl Draft.record {} := by
  constructor
  · intro h
    obtain ⟨P, hP, ha, hr⟩ := of_reading_program h
    exact ⟨P, hP, P.admits_items.1.mp ha, hr⟩
  · rintro ⟨P, hP, hl, rfl⟩
    exact reading_program hP (P.admits_items.1.mpr hl)

namespace Program

theorem draft_code {P : Program} (h : P.Lawful) :
    (P.items.foldl Draft.record {}).code.toList = P.code := by
  have ha := P.admits_items.1.mpr h
  have hf := P.admits_items.2 ha
  rw [Draft.code_of_admits SymbolTable.valid_empty ha, hf.names]
  rfl

theorem draft_symbols {P : Program} (h : P.Lawful) :
    (P.items.foldl Draft.record {}).symbols.symbols.toList = P.symbols :=
  (P.admits_items.2 (P.admits_items.1.mpr h)).symbols

end Program

theorem answer_eq_ok_iff {ε : Type} (r : Option CompileError × Draft) (code : Array Instruction) :
    (answer r : Except (AnalysisError ε) (Array Instruction)) = .ok code ↔
      r.1 = none ∧ r.2.code = code := by
  obtain ⟨_ | e, d⟩ := r
  · simp [answer]
  · simp [answer]

theorem analyse_eq_reading (ε : Type) (p : Position) (n : Nat) (tokens : List Token) :
    (Analyser.mk (TokenStream.mk (tokens.map .ok) (.eof p : StreamEnd ε) n) none {}).analyse.1 =
      answer (reading p {} Task.program tokens) ∧
    (Analyser.mk (TokenStream.mk (tokens.map .ok) (.eof p : StreamEnd ε) n) none {}).analyse.2.draft =
      (reading p {} Task.program tokens).2 :=
  pursue_eq_reading ε p n {} Task.program tokens

theorem program_of_analyse {ε : Type} {p : Position} {n : Nat} {tokens : List Token}
    {code : Array Instruction} (h : (Analyser.mk (TokenStream.mk (tokens.map .ok)
      (.eof p : StreamEnd ε) n) none {}).analyse.1 = .ok code) :
    ∃ P : Program, P.tokens = untilEnd p tokens ∧ P.Lawful ∧ code.toList = P.code ∧
      (Analyser.mk (TokenStream.mk (tokens.map .ok) (.eof p : StreamEnd ε) n)
        none {}).analyse.2.draft.symbols.symbols.toList = P.symbols := by
  obtain ⟨ha, hd⟩ := analyse_eq_reading ε p n tokens
  rcases hr : reading p {} Task.program tokens with ⟨e, r⟩
  rw [hr] at ha hd
  rw [ha, answer_eq_ok_iff] at h
  obtain ⟨rfl, rfl⟩ := h
  obtain ⟨P, hP, hl, rfl⟩ := (reading_program_iff p tokens r).mp hr
  refine ⟨P, hP, hl, Program.draft_code hl, ?_⟩
  rw [hd]
  exact Program.draft_symbols hl

theorem analyse_of_program (ε : Type) {p : Position} (n : Nat) {tokens : List Token} {P : Program}
    (hP : P.tokens = untilEnd p tokens) (hl : P.Lawful) :
    (Analyser.mk (TokenStream.mk (tokens.map .ok) (.eof p : StreamEnd ε) n) none {}).analyse.1 =
      .ok P.code.toArray := by
  obtain ⟨ha, _⟩ := analyse_eq_reading ε p n tokens
  rw [ha, answer_eq_ok_iff, (reading_program_iff p tokens _).mpr ⟨P, hP, hl, rfl⟩]
  refine ⟨rfl, ?_⟩
  rw [← Program.draft_code hl]

theorem size_analyse (ε : Type) {p : Position} (n : Nat) {tokens : List Token} {P : Program}
    (hP : P.tokens = untilEnd p tokens) (hl : P.Lawful) :
    (Analyser.mk (TokenStream.mk (tokens.map .ok) (.eof p : StreamEnd ε) n)
      none {}).analyse.2.draft.symbols.size = P.names.length := by
  obtain ⟨Q, hQ, _, _, hsymbols⟩ := program_of_analyse (analyse_of_program ε n hP hl)
  obtain rfl := Program.tokens_injective (hQ.trans hP.symm)
  rw [← Q.length_symbols, ← hsymbols]
  rfl

theorem analyse_accepts_language (ε : Type) (p : Position) (n : Nat) (tokens : List Token) :
    let verdict := (Analyser.mk (TokenStream.mk (tokens.map .ok) (.eof p : StreamEnd ε) n)
      none {}).analyse
    ((∃ code, verdict.1 = .ok code) ↔
      ∃ P : Program, P.tokens = untilEnd p tokens ∧ P.Lawful) ∧
    ∀ code, verdict.1 = .ok code →
      ∃ P : Program, P.tokens = untilEnd p tokens ∧
        (∀ Q : Program, Q.tokens = untilEnd p tokens → Q = P) ∧
        code.toList = P.code ∧ verdict.2.draft.symbols.symbols.toList = P.symbols := by
  intro verdict
  refine ⟨⟨?_, ?_⟩, ?_⟩
  · rintro ⟨code, h⟩
    obtain ⟨P, hP, hl, _⟩ := program_of_analyse h
    exact ⟨P, hP, hl⟩
  · rintro ⟨P, hP, hl⟩
    exact ⟨P.code.toArray, analyse_of_program ε n hP hl⟩
  · intro code h
    obtain ⟨P, hP, _, hcode, hsymbols⟩ := program_of_analyse h
    exact ⟨P, hP, fun Q hQ => Program.tokens_injective (hQ.trans hP.symm), hcode, hsymbols⟩

end PlZero
