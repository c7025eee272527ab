import PlZero.Analysis.Goal
import PlZero.Source.TokenStream

namespace PlZero

inductive Ending where
  | complete
  | failed (error : CompileError) (taken : Bool)

inductive Progress where
  | ongoing (tasks : List Task)
  | ended (ending : Ending)

def settle (d : Draft) : List Task → Draft × Progress
  | .act action :: tasks =>
      match action.perform d with
      | (none, d) => settle d tasks
      | (some e, d) => (d, .ended (.failed e true))
  | tasks => (d, .ongoing tasks)

def accept (t : Token) (d : Draft) : List Task → Draft × Progress
  | [] =>
      match t.kind with
      | .eof => (d, .ended .complete)
      | _ => (d, .ended (.failed (unexpected t [.eof]) false))
  | .act action :: tasks =>
      match action.perform d with
      | (none, d) => accept t d tasks
      | (some e, d) => (d, .ended (.failed e false))
  | .see goal :: tasks =>
      match goal.react d.symbols t with
      | .take new => settle d (new ++ tasks)
      | .pass => accept t d tasks
      | .refuse e taken => (d, .ended (.failed e taken))

theorem accept_eof {t : Token} (h : t.kind = .eof) (d : Draft) (tasks more : List Task) :
    (accept t d tasks).2 ≠ .ongoing more := by
  induction tasks generalizing d with
  | nil => simp [accept, h]
  | cons task tasks ih =>
      cases task with
      | act action =>
          simp only [accept]
          split
          · exact ih _
          · simp
      | see goal =>
          simp only [accept]
          split
          · next new hreact => exact absurd hreact (goal.react_eof h d.symbols new)
          · exact ih _
          · simp

def Progress.ending : (progress : Progress) → (∀ more, progress ≠ .ongoing more) → Ending
  | .ongoing more, h => absurd rfl (h more)
  | .ended ending, _ => ending

theorem Progress.eq_ended (progress : Progress) (h : ∀ more, progress ≠ .ongoing more) :
    progress = .ended (progress.ending h) := by
  cases progress with
  | ongoing more => exact absurd rfl (h more)
  | ended ending => rfl

inductive AnalysisError (ε : Type) where
  | program (error : CompileError)
  | stream (error : ε)
deriving DecidableEq, Repr

structure Analyser (ε : Type) where
  stream : TokenStream ε
  lookahead : Option Token := none
  draft : Draft := {}

namespace Analyser

variable {ε : Type}

abbrev Verdict (ε : Type) := Except (AnalysisError ε) (Array Instruction) × Analyser ε

def conclude (stream : TokenStream ε) (t : Token) (d : Draft) : Ending → Verdict ε
  | .complete => (.ok d.code, ⟨stream, none, d⟩)
  | .failed e taken => (.error (.program e), ⟨stream, if taken then none else some t, d⟩)

def pursue (ending : StreamEnd ε) (served : Nat) (d : Draft) (tasks : List Task) :
    List (Except ε Token) → Verdict ε
  | [] =>
      let stream : TokenStream ε := ⟨[], ending, served + 1⟩
      match ending with
      | .failure e => (.error (.stream e), ⟨stream, none, d⟩)
      | .eof p =>
          -- Nothing takes the end, so that it is shown once.
          let shown := accept (Token.endOfText p) d tasks
          conclude stream (Token.endOfText p) shown.1 (shown.2.ending (accept_eof rfl d tasks))
  | .error e :: pending => (.error (.stream e), ⟨⟨pending, ending, served + 1⟩, none, d⟩)
  | .ok t :: pending =>
      let shown := accept t d tasks
      match shown.2 with
      | .ongoing tasks => pursue ending (served + 1) shown.1 tasks pending
      | .ended last => conclude ⟨pending, ending, served + 1⟩ t shown.1 last

def analyse (a : Analyser ε) : Verdict ε :=
  match a.lookahead with
  | none => pursue a.stream.ending a.stream.served a.draft Task.program a.stream.pending
  | some t =>
      let shown := accept t a.draft Task.program
      match shown.2 with
      | .ongoing tasks => pursue a.stream.ending a.stream.served shown.1 tasks a.stream.pending
      | .ended last => conclude a.stream t shown.1 last

end Analyser

def analyse {ε : Type} (stream : TokenStream ε) : Except (AnalysisError ε) (Array Instruction) :=
  (Analyser.mk stream none {}).analyse.1

def compile (source : List Char) : Except CompileError (Array Instruction) × SymbolTable :=
  let verdict := (Analyser.mk (TokenStream.ofText source) none {}).analyse
  let code :=
    match verdict.1 with
    | .ok code => .ok code
    | .error (.program e) => .error e
    | .error (.stream e) => .error e
  (code, verdict.2.draft.symbols)

end PlZero
