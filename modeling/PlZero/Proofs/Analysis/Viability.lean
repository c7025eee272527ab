import PlZero.Proofs.Analysis.Language
import PlZero.Proofs.Analysis.Lookahead

namespace PlZero

-- After `i` tokens no sentence goes on with `found`, while some go on with each of the kinds `expected`.
structure Stuck (p : Position) (tasks : List Task) (ts : List Token) (i : Nat)
    (expected : List TokenKind) (found : Token) : Prop where
  reached : (ts ++ [Token.endOfText p])[i]? = some found
  nonempty : expected ≠ []
  impossible : ∀ w, ¬ Completes tasks (kinds (ts.take i) ++ found.kind :: w)
  possible : ∀ x ∈ expected, ∃ w, Completes tasks (kinds (ts.take i) ++ x :: w)

namespace Stuck

variable {p : Position} {d : Draft} {g : Goal} {k new : List Task} {t : Token} {ts : List Token} {i : Nat}
  {expected : List TokenKind} {found : Token}

theorem getElem?_zero (p : Position) (ts : List Token) :
    (ts ++ [Token.endOfText p])[0]? = some (look p ts) := by
  cases ts <;> rfl

-- Wherever the analysis is stuck, the word begins with the kind of the next token.
theorem exists_cons (h : Stuck p k ts i expected found) (w : List TokenKind) :
    ∃ v, kinds (ts.take i) ++ found.kind :: w = (look p ts).kind :: v := by
  have hreached := h.reached
  cases i with
  | zero =>
      rw [getElem?_zero, Option.some.injEq] at hreached
      exact ⟨w, by rw [← hreached]; rfl⟩
  | succ i =>
      cases ts with
      | nil => simp at hreached
      | cons t ts => exact ⟨_, rfl⟩

theorem done (h : (look p ts).kind ≠ .eof) : Stuck p [] ts 0 [.eof] (look p ts) where
  reached := getElem?_zero p ts
  nonempty := by simp
  impossible w hw := h (completes_nil_cons.mp hw).1
  possible := by
    intro x hx
    exact ⟨[], completes_nil_cons.mpr ⟨List.mem_singleton.mp hx, rfl⟩⟩

theorem act (a : Action) (hstuck : Stuck p k ts i expected found) :
    Stuck p (.act a :: k) ts i expected found where
  reached := hstuck.reached
  nonempty := hstuck.nonempty
  impossible := hstuck.impossible
  possible := hstuck.possible

theorem take (h : g.react d.symbols t = .take new) (hk : Orderly (.see g :: k))
    (hstuck : Stuck p (new ++ k) ts i expected found) :
    Stuck p (.see g :: k) (t :: ts) (i + 1) expected found where
  reached := hstuck.reached
  nonempty := hstuck.nonempty
  impossible w hw := hstuck.impossible w ((completes_take h hk _).mp hw)
  possible := by
    intro x hx
    obtain ⟨w, hw⟩ := hstuck.possible x hx
    exact ⟨w, (completes_take h hk _).mpr hw⟩

theorem pass (h : g.react d.symbols (look p ts) = .pass) (hstuck : Stuck p k ts i expected found) :
    Stuck p (.see g :: k) ts i expected found where
  reached := hstuck.reached
  nonempty := hstuck.nonempty
  impossible w hw := by
    have hfits := g.react_fits d.symbols (look p ts)
    rw [h] at hfits
    obtain ⟨v, hv⟩ := hstuck.exists_cons w
    rw [hv] at hw
    rcases completes_see_cons.mp hw with ⟨-, hk⟩ | ⟨u, v, -, hg, -⟩
    · exact hstuck.impossible w (hv ▸ hk)
    · exact hfits.2 u hg
  possible := by
    have hfits := g.react_fits d.symbols (look p ts)
    rw [h] at hfits
    intro x hx
    obtain ⟨w, hw⟩ := hstuck.possible x hx
    exact ⟨w, completes_see.mpr ⟨[], _, rfl, hfits.1, hw⟩⟩

theorem refuse {e : CompileError} {taken : Bool}
    (h : g.react d.symbols (look p ts) = .refuse e taken) (he : e.cause = .expectedToken expected found) :
    e = unexpected found expected ∧ Stuck p (.see g :: k) ts 0 expected found := by
  have hfits := g.react_fits d.symbols (look p ts)
  rw [h] at hfits
  obtain ⟨rfl, hne, hnil, hno, hyes⟩ := hfits expected found he
  cases he
  refine ⟨rfl, getElem?_zero p ts, hne, fun w hw => ?_, fun x hx => ?_⟩
  · rcases completes_see_cons.mp hw with ⟨hg, -⟩ | ⟨u, v, -, hg, -⟩
    · exact hnil hg
    · exact hno u hg
  · obtain ⟨u, hu⟩ := hyes x hx
    obtain ⟨v, hv⟩ := exists_spells k
    exact ⟨u ++ (v ++ [.eof]), completes_see.mpr ⟨x :: u, v ++ [.eof], rfl, hu, v, rfl, hv⟩⟩

end Stuck

theorem perform_error_ne {a : Action} {d d' : Draft} {e : CompileError} (h : a.perform d = (some e, d'))
    (expected : List TokenKind) (found : Token) : e.cause ≠ .expectedToken expected found := by
  cases a with
  | emit i => cases h
  | mark name => cases h
  | declare name constant initialized =>
      simp only [Action.perform, Draft.declare] at h
      split at h <;> cases h
      simp

theorem reading_stuck {p : Position} {e : CompileError} {expected : List TokenKind} {found : Token}
    (he : e.cause = .expectedToken expected found) (ts : List Token) {d r : Draft} {tasks : List Task}
    (h : reading p d tasks ts = (some e, r)) (ho : Orderly tasks) :
    e = unexpected found expected ∧ ∃ i, Stuck p tasks ts i expected found := by
  -- A token that is taken shortens the text, and one that is passed on shortens the tasks.
  induction hn : ts.length using Nat.strongRecOn generalizing ts d tasks with
  | _ n ih =>
      induction tasks generalizing d with
      | nil =>
          rw [reading_done] at h
          split at h
          · cases h
          · next heof =>
              cases h
              cases he
              exact ⟨rfl, 0, .done heof⟩
      | cons task k ihk =>
          cases task with
          | act a =>
              rw [reading_act] at h
              split at h
              · obtain ⟨herror, i, hstuck⟩ := ihk h ho
                exact ⟨herror, i, hstuck.act a⟩
              · next e' d' hperform =>
                  cases h
                  exact absurd he (perform_error_ne hperform expected found)
          | see g =>
              rw [reading_see p d] at h
              cases hreact : g.react d.symbols (look p ts) with
              | take new =>
                  rw [hreact] at h
                  cases ts with
                  | nil => exact absurd hreact (g.react_eof rfl d.symbols new)
                  | cons t ts =>
                      obtain ⟨herror, i, hstuck⟩ :=
                        ih ts.length (by simp [← hn]) ts h (Goal.react_orderly hreact ho) rfl
                      exact ⟨herror, i + 1, hstuck.take hreact ho⟩
              | pass =>
                  rw [hreact] at h
                  obtain ⟨herror, i, hstuck⟩ := ihk h ho.2
                  exact ⟨herror, i, hstuck.pass hreact⟩
              | refuse e' taken =>
                  rw [hreact] at h
                  cases h
                  obtain ⟨herror, hstuck⟩ := Stuck.refuse hreact he
                  exact ⟨herror, 0, hstuck⟩

theorem completes_program {w : List TokenKind} :
    Completes Task.program w ↔ ∃ P : Program, kinds P.tokens = w := by
  have hend {v : List TokenKind} : Spells [.token .endWord] v ↔ v = [.endWord] := by simp
  constructor
  · rintro ⟨_, rfl, hw⟩
    obtain ⟨_, rfl, _, _, rfl, ⟨cs, rfl⟩, _, _, rfl, ⟨vs, rfl⟩, _, _, rfl, ⟨ss, rfl⟩, hclose⟩ :=
      spells_token.mp hw
    obtain rfl := hend.mp hclose
    exact ⟨⟨.any _, cs, vs, ss, .any _, .any _⟩,
      by simp [Program.tokens, Program.body, Leaf.any, Leaf.sample]⟩
  · rintro ⟨P, rfl⟩
    refine ⟨_, ?_, spells_token.mpr ⟨_, rfl, _, _, rfl, ⟨P.constants, rfl⟩, _, _, rfl, ⟨P.vars, rfl⟩,
      _, _, rfl, ⟨P.statements, rfl⟩, hend.mpr rfl⟩⟩
    simp [Program.tokens, Program.body, P.opening.2, P.closing.2, P.final.2]

-- A beginning of a sentence, whatever its names mean.
def Viable (w : List TokenKind) : Prop := ∃ P : Program, w <+: kinds P.tokens

theorem viable_iff {w : List TokenKind} : Viable w ↔ ∃ v, Completes Task.program (w ++ v) := by
  constructor
  · rintro ⟨P, v, hv⟩
    exact ⟨v, completes_program.mpr ⟨P, hv.symm⟩⟩
  · rintro ⟨v, hv⟩
    obtain ⟨P, hP⟩ := completes_program.mp hv
    exact ⟨P, v, hP.symm⟩

theorem error_at_first_impossible_token {ε : Type} {p : Position} {n : Nat} {tokens : List Token}
    {e : CompileError} {expected : List TokenKind} {found : Token}
    (h : (Analyser.mk (TokenStream.mk (tokens.map .ok) (.eof p : StreamEnd ε) n) none {}).analyse.1 =
      .error (.program e))
    (he : e.cause = .expectedToken expected found) :
    ∃ i, (tokens ++ [Token.endOfText p])[i]? = some found ∧ e.position = found.start ∧ expected ≠ [] ∧
      Viable (kinds (tokens.take i)) ∧ ¬ Viable (kinds (tokens.take i) ++ [found.kind]) ∧
      ∀ x ∈ expected, Viable (kinds (tokens.take i) ++ [x]) := by
  rw [(analyse_eq_reading ε p n tokens).1] at h
  rcases hr : reading p {} Task.program tokens with ⟨_ | e', r⟩
  · rw [hr] at h
    cases h
  · rw [hr] at h
    cases h
    obtain ⟨rfl, i, hstuck⟩ := reading_stuck he tokens hr Orderly.program
    have hpossible : ∀ x ∈ expected, Viable (kinds (tokens.take i) ++ [x]) := by
      intro x hx
      obtain ⟨w, hw⟩ := hstuck.possible x hx
      exact viable_iff.mpr ⟨w, by simpa using hw⟩
    refine ⟨i, hstuck.reached, rfl, hstuck.nonempty, ?_, ?_, hpossible⟩
    · obtain ⟨x, hx⟩ := List.exists_mem_of_ne_nil expected hstuck.nonempty
      obtain ⟨P, hP⟩ := hpossible x hx
      exact ⟨P, (List.prefix_append _ _).trans hP⟩
    · intro hviable
      obtain ⟨w, hw⟩ := viable_iff.mp hviable
      exact hstuck.impossible w (by simpa using hw)

-- A sum in brackets that the end of a statement cuts off.
def cutOff : List Token :=
  let token (kind : TokenKind) (lexeme : String) (column : Int) : Token :=
    ⟨kind, lexeme, 0, ⟨0, column⟩, ⟨0, column + lexeme.length⟩⟩
  [token .beginWord "begin" 0, token .printWord "print" 6, token .leftParen "(" 11,
    token .leftParen "(" 12, token .number "0" 13, token .plus "+" 14, token .number "0" 15,
    token .semicolon ";" 16, token .endWord "end" 17]

theorem error_at_first_impossible_token_cutOff :
    ∃ found, cutOff[7]? = some found ∧
      analyse (ε := Empty) (.ofTokens cutOff) = .error (.program (unexpected found [.rightParen])) ∧
      ∃ i, (cutOff ++ [Token.endOfText .start])[i]? = some found ∧
        Viable (kinds (cutOff.take i)) ∧ ¬ Viable (kinds (cutOff.take i) ++ [found.kind]) ∧
        Viable (kinds (cutOff.take i) ++ [.rightParen]) := by
  refine ⟨_, rfl, rfl, ?_⟩
  have hstopped : analyse (ε := Empty) (.ofTokens cutOff) =
      .error (.program (unexpected _ [.rightParen])) := rfl
  obtain ⟨i, hfound, -, -, hbefore, hafter, hexpected⟩ := error_at_first_impossible_token hstopped rfl
  exact ⟨i, hfound, hbefore, hafter, hexpected _ (by simp)⟩

end PlZero
