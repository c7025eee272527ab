import PlZero.Proofs.Analysis.Renaming
import PlZero.Proofs.Compilation.Replay
import PlZero.Proofs.Source.Spacing

namespace PlZero

theorem Token.Alike.renamed {t u : Token} (h : t.Alike u) : t.Renamed id u :=
  ⟨h.kind, fun _ => h.lexeme, fun _ => by rw [h.value]⟩

theorem lex_of_answers {source : List Char} {ts : List Token}
    (h : (Lexer.ofText source).answers.1 = ts.map .ok) :
    lex source = (ts ++ [Token.endOfText (Lexer.ofText source).answers.2], none) := by
  simp only [lex, h, firstError_map_ok]

theorem compile_of_answers {source : List Char} {ts : List Token}
    (h : (Lexer.ofText source).answers.1 = ts.map .ok) :
    compile source =
      (Analyser.pursue (.eof (Lexer.ofText source).answers.2) 0 {} Task.program (ts.map .ok)).outcome := by
  rw [← h]
  rfl

-- An analysis is about the tokens and not about their places.
theorem Analyser.pursue_alike {ts us : List Token} (h : List.Forall₂ Token.Alike ts us) (p q : Position) :
    (pursue (ε := CompileError) (.eof p) 0 {} Task.program (ts.map .ok)).Twin id
      (Abreast (ts ++ [Token.endOfText p]) (us ++ [Token.endOfText q]))
      (pursue (.eof q) 0 {} Task.program (us.map .ok)) := by
  have hpairing := pairing_abreast (h.imp fun _ _ => Token.Alike.renamed) (Set.injOn_id _) p q
  have hend : Abreast (ts ++ [Token.endOfText p]) (us ++ [Token.endOfText q]) (Token.endOfText p)
      (Token.endOfText q) :=
    ⟨ts.length, by simp, by simp [h.length_eq]⟩
  exact pursue_twin hpairing hend (forall₂_abreast h.length_eq _ _) 0
    ⟨SymbolTable.renamed_empty, rfl⟩ (Task.twins_same rfl)

theorem compile_alike {source text : List Char} {ts us : List Token}
    (hts : (Lexer.ofText source).answers.1 = ts.map .ok)
    (hus : (Lexer.ofText text).answers.1 = us.map .ok) (h : List.Forall₂ Token.Alike ts us) :
    ((∃ code, (compile source).1 = .ok code ∧ (compile text).1 = .ok code) ∨
      ∃ (c : Complaint) (t u : Token), Abreast (lex source).1 (lex text).1 t u ∧
        (compile source).1 = .error (c.about t) ∧ (compile text).1 = .error (c.about u)) ∧
    (compile text).2.symbols = (compile source).2.symbols := by
  rw [compile_of_answers hts, compile_of_answers hus, lex_of_answers hts, lex_of_answers hus]
  obtain ⟨hanswer, hdraft⟩ := Analyser.pursue_alike h (Lexer.ofText source).answers.2
    (Lexer.ofText text).answers.2
  refine ⟨?_, ?_⟩
  · rcases hanswer with ⟨code, hv, hw⟩ | ⟨c, t, u, hpair, hv, hw⟩
    · exact .inl ⟨code, by rw [Analyser.Verdict.outcome, hv], by rw [Analyser.Verdict.outcome, hw]⟩
    · exact .inr ⟨c, t, u, hpair, by rw [Analyser.Verdict.outcome, hv],
        by rw [Analyser.Verdict.outcome, hw]⟩
  · have hsymbols := hdraft.symbols.symbols
    rw [show Symbol.rename id = id from rfl, List.map_id] at hsymbols
    exact Array.toList_inj.mp hsymbols

-- The lexemes of the tokens with blanks around them.
def Typeset (tokens : List Token) (text : List Char) : Prop :=
  ∃ lead body, text = lead ++ body ∧ (∀ c ∈ lead, Text.isBlank c = true) ∧ Spread tokens body

theorem reformatting_keeps_meaning {source text : List Char} {tokens : List Token}
    (hlex : lex source = (tokens, none)) (htext : Typeset tokens.dropLast text) :
    ∃ tokens', lex text = (tokens', none) ∧ List.Forall₂ Token.Alike tokens tokens' ∧
      ((∃ code, (compile source).1 = .ok code ∧ (compile text).1 = .ok code) ∨
        ∃ (c : Complaint) (i : Nat) (t u : Token), tokens[i]? = some t ∧ tokens'[i]? = some u ∧
          (compile source).1 = .error (c.about t) ∧ (compile text).1 = .error (c.about u)) ∧
      (compile text).2.symbols = (compile source).2.symbols := by
  obtain ⟨ts, hts, rfl⟩ := tokens_of_lex_none hlex
  obtain ⟨lead, body, rfl, hlead, hspread⟩ := htext
  rw [List.dropLast_concat] at hspread
  have hspelt : ∀ t ∈ ts, t.Spelt := fun t ht =>
    (Lexer.ofText source).answers_spelt t (by simp [hts, ht])
  obtain ⟨us, hus, halike⟩ := answers_spread hspread hspelt hlead .start
  obtain ⟨hcode, hsymbols⟩ := compile_alike hts hus halike
  have hlex' := lex_of_answers hus
  refine ⟨_, hlex', List.rel_append halike (.cons ⟨rfl, rfl, rfl⟩ .nil), ?_, hsymbols⟩
  rcases hcode with hok | ⟨c, t, u, ⟨i, ht, hu⟩, herror, herror'⟩
  · exact .inl hok
  · rw [hlex] at ht
    rw [hlex'] at hu
    exact .inr ⟨c, i, t, u, ht, hu, herror, herror'⟩

-- Tokens that touch: a sign and a number, and a number and a name.
def touching : List Char := "begin var é=-12ab".toList

def touchingTokens : List Token :=
  [(Leaf.sample .beginWord "begin" 0 0).1, (Leaf.sample .varWord "var" 6 0).1,
    (Leaf.sample .identifier "é" 10 0).1, (Leaf.sample .equals "=" 11 0).1,
    (Leaf.sample .minus "-" 12 0).1, (Leaf.sample .number "12" 13 12).1,
    (Leaf.sample .identifier "ab" 15 0).1]

def respaced : List Char := "\nbegin\tvar\u00a0é \u3000= -\n\n12 ab".toList

theorem typeset_respaced : Typeset touchingTokens respaced := by
  have hblank (gap : List Char) (h : gap.all Text.isBlank = true) : ∀ c ∈ gap, Text.isBlank c = true :=
    List.all_eq_true.mp h
  have hbody : Spread touchingTokens ("begin".toList ++ ("\t".toList ++ ("var".toList ++
      ("\u00a0".toList ++ ("é".toList ++ (" \u3000".toList ++ ("=".toList ++ (" ".toList ++
      ("-".toList ++ ("\n\n".toList ++ ("12".toList ++ (" ".toList ++
      ("ab".toList ++ ([] ++ [])))))))))))))) :=
    .cons _ (hblank _ (by decide)) (by simp) <| .cons _ (hblank _ (by decide)) (by simp) <|
      .cons _ (hblank _ (by decide)) (by simp) <| .cons _ (hblank _ (by decide)) (by simp) <|
      .cons _ (hblank _ (by decide)) (by simp) <| .cons _ (hblank _ (by decide)) (by simp) <|
      .cons _ (hblank _ rfl) (by simp) (.nil (hblank _ rfl))
  exact ⟨"\n".toList, _, by decide, hblank _ (by decide), hbody⟩

theorem reformatting_keeps_meaning_touching :
    lex touching = (touchingTokens ++ [(Leaf.sample .eof "" 17 0).1], none) ∧
    Typeset touchingTokens respaced ∧
    ∃ (c : Complaint) (i : Nat) (t u : Token),
      (touchingTokens ++ [(Leaf.sample .eof "" 17 0).1])[i]? = some t ∧
      (lex respaced).1[i]? = some u ∧ (compile touching).1 = .error (c.about t) ∧
      (compile respaced).1 = .error (c.about u) := by
  have hlex : lex touching = (touchingTokens ++ [(Leaf.sample .eof "" 17 0).1], none) := by
    decide +kernel
  have hrefused : (compile touching).1.toOption = none := by decide +kernel
  refine ⟨hlex, typeset_respaced, ?_⟩
  obtain ⟨tokens', hlex', _, ⟨code, hcode, _⟩ | hcase, _⟩ :=
    reformatting_keeps_meaning hlex typeset_respaced
  · rw [hcode] at hrefused
    cases hrefused
  · rwa [hlex']

end PlZero
