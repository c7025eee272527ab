import PlZero.Proofs.Source.Ranges
import PlZero.Source.TokenStream

namespace PlZero

namespace Position

def Before (p q : Position) : Prop :=
  p.line < q.line ∨ p.line = q.line ∧ p.column < q.column

instance (p q : Position) : Decidable (p.Before q) :=
  inferInstanceAs (Decidable (_ ∨ _))

theorem Before.trans {p q r : Position} (hpq : p.Before q) (hqr : q.Before r) : p.Before r := by
  unfold Before at *
  omega

theorem before_advance (p : Position) (c : Char) : p.Before (p.advance c) := by
  unfold advance Before
  split
  · exact .inl (Int.lt_succ _)
  · exact .inr ⟨rfl, Int.lt_succ _⟩

theorem Before.after {p q : Position} (h : p.Before q) (cs : List Char) : p.Before (q.after cs) := by
  induction cs generalizing q with
  | nil => exact h
  | cons c cs ih => exact ih (h.trans (q.before_advance c))

end Position

def Answer.position : Answer → Position
  | .ok t => t.start
  | .error e => e.position

namespace Lexer

theorem takeRun_before {class? : Char → Bool} {l : Lexer} {c : Char} {cs : List Char}
    (h : l.rest = c :: cs) (hc : class? c = true) :
    l.position.Before (l.takeRun class?).2.position := by
  simp only [takeRun, h, List.takeWhile_cons, hc, if_true, Position.after_cons]
  exact (l.position.before_advance c).after _

theorem token_position {l : Lexer} {c : Char} {cs : List Char} (h : l.rest = c :: cs) :
    Answer.position (l.token c).1 = l.position ∧ l.position.Before (l.token c).2.position := by
  unfold token
  split
  · next hc =>
      have hbefore := takeRun_before h hc
      simp only [number]
      split <;> exact ⟨rfl, hbefore⟩
  · split
    · next hc => exact ⟨rfl, takeRun_before h (by simp [hc])⟩
    · unfold sign
      split <;> exact ⟨rfl, l.position.before_advance c⟩

theorem before_answers {l : Lexer} {p : Position} (h : p.Before l.position) :
    ∀ a ∈ l.answers.1, p.Before (Answer.position a) := by
  fun_induction answers l with
  | case1 => simp
  | case2 l c _ hrest step _ more ih =>
      have hskip : p.Before l.skipBlanks.position := h.after _
      obtain ⟨hplace, hnext⟩ := token_position hrest
      intro a ha
      rcases List.mem_cons.mp ha with rfl | ha
      · rwa [hplace]
      · exact ih (hskip.trans hnext) a ha

theorem answers_pairwise (l : Lexer) :
    l.answers.1.Pairwise fun a b => (Answer.position a).Before (Answer.position b) := by
  fun_induction answers l with
  | case1 => exact .nil
  | case2 l c _ hrest step _ more ih =>
      obtain ⟨hplace, hnext⟩ := token_position hrest
      refine .cons (fun a ha => ?_) ih
      rw [hplace]
      exact before_answers hnext a ha

theorem calls_succ (l : Lexer) (n : Nat) : l.calls (n + 1) = l.next.2.calls n := by
  induction n with
  | zero => rfl
  | succ n ih =>
      rw [calls, ih]
      rfl

theorem next_of_end {l : Lexer} (h : l.skipBlanks.rest = []) :
    l.next = (.ok (Token.endOfText l.skipBlanks.position), l.skipBlanks) := by
  simp [next, h]

theorem calls_of_end {l : Lexer} (h : l.skipBlanks.rest = []) (n : Nat) :
    (l.calls n).next.1 = .ok (Token.endOfText l.skipBlanks.position) := by
  induction n generalizing l with
  | zero => rw [calls, next_of_end h]
  | succ n ih =>
      have hagain : l.skipBlanks.skipBlanks = l.skipBlanks := by
        rw [skipBlanks, takeRun, h, List.dropWhile_nil, List.takeWhile_nil, Position.after_nil, ← h]
      rw [calls_succ, next_of_end h, ih (by rw [hagain, h]), hagain]

theorem next_of_cons {l : Lexer} {c : Char} {cs : List Char} (h : l.skipBlanks.rest = c :: cs) :
    l.next = l.skipBlanks.token c := by
  simp [next, h]

theorem answers_getD (l : Lexer) (n : Nat) :
    l.answers.1[n]?.getD (.ok (Token.endOfText l.answers.2)) = (l.calls n).next.1 := by
  fun_induction answers l generalizing n with
  | case1 l h => rw [calls_of_end h]; rfl
  | case2 l c _ hrest step _ more ih =>
      cases n with
      | zero => rw [calls, next_of_cons hrest]; rfl
      | succ n =>
          rw [calls_succ, next_of_cons hrest, ← ih n]
          rfl

end Lexer

namespace TokenStream

def answer {ε : Type} (s : TokenStream ε) (n : Nat) : Except ε Token :=
  s.pending[n]?.getD <|
    match s.ending with
    | .eof p => .ok (Token.endOfText p)
    | .failure e => .error e

theorem answer_ofText (cs : List Char) (n : Nat) :
    (ofText cs).answer n = ((Lexer.ofText cs).calls n).next.1 :=
  Lexer.answers_getD (Lexer.ofText cs) n

end TokenStream

theorem of_firstError_some {answers : List Answer} {tokens : List Token} {e : CompileError}
    (h : firstError answers = (tokens, some e)) :
    ∃ more, answers = tokens.map .ok ++ .error e :: more := by
  induction answers generalizing tokens with
  | nil => cases h
  | cons a answers ih =>
      cases a with
      | error f =>
          cases h
          exact ⟨answers, rfl⟩
      | ok t =>
          rcases hf : firstError answers with ⟨ts, f⟩
          simp only [firstError, hf] at h
          cases h
          obtain ⟨more, rfl⟩ := ih hf
          exact ⟨more, rfl⟩

theorem answers_of_lex_error {source : List Char} {tokens : List Token} {e : CompileError}
    (h : lex source = (tokens, some e)) :
    ∃ more, (Lexer.ofText source).answers.1 = tokens.map .ok ++ .error e :: more := by
  apply of_firstError_some
  simp only [lex] at h
  split at h
  · next hf => rw [hf, h]
  · cases h

theorem start_before_error {source : List Char} {tokens : List Token} {e : CompileError}
    (h : lex source = (tokens, some e)) {t : Token} (ht : t ∈ tokens) : t.start.Before e.position := by
  obtain ⟨more, hmore⟩ := answers_of_lex_error h
  have hpairwise := (Lexer.ofText source).answers_pairwise
  rw [hmore, List.pairwise_append] at hpairwise
  exact hpairwise.2.2 (.ok t) (List.mem_map_of_mem ht) (.error e) (by simp)

end PlZero
