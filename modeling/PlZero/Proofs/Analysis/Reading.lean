import PlZero.Analysis.Analyser
import PlZero.Proofs.Syntax.Tree

namespace PlZero

def look (p : Position) (ts : List Token) : Token := ts.headD (Token.endOfText p)

@[simp] theorem look_nil (p : Position) : look p [] = Token.endOfText p := rfl

@[simp] theorem look_cons (p : Position) (t : Token) (ts : List Token) : look p (t :: ts) = t := rfl

theorem leaf_of_look {p : Position} {ts : List Token} {kind : TokenKind}
    (h : (look p ts).kind = kind) (hk : kind ≠ .eof) :
    ∃ (t : Leaf kind) (us : List Token), ts = t.1 :: us := by
  cases ts with
  | nil => exact absurd h.symm hk
  | cons t ts => exact ⟨⟨t, h⟩, ts, rfl⟩

def Ending.error? : Ending → Option CompileError
  | .complete => none
  | .failed e _ => some e

-- What an analysis answers about a list of tokens with the end of the text behind it, and the draft
-- that it leaves: `Analyser.pursue` without the bookkeeping about the stream.
def reading (p : Position) (d : Draft) (tasks : List Task) : List Token → Option CompileError × Draft
  | [] =>
      let shown := accept (Token.endOfText p) d tasks
      ((shown.2.ending (accept_eof rfl d tasks)).error?, shown.1)
  | t :: ts =>
      match accept t d tasks with
      | (d, .ongoing tasks) => reading p d tasks ts
      | (d, .ended ending) => (ending.error?, d)

def answer {ε : Type} (r : Option CompileError × Draft) : Except (AnalysisError ε) (Array Instruction) :=
  match r.1 with
  | none => .ok r.2.code
  | some e => .error (.program e)

theorem pursue_eq_reading (ε : Type) (p : Position) (n : Nat) (d : Draft) (tasks : List Task)
    (ts : List Token) :
    (Analyser.pursue (.eof p : StreamEnd ε) n d tasks (ts.map .ok)).1 = answer (reading p d tasks ts) ∧
    (Analyser.pursue (.eof p : StreamEnd ε) n d tasks (ts.map .ok)).2.draft =
      (reading p d tasks ts).2 := by
  induction ts generalizing n d tasks with
  | nil =>
      simp only [List.map_nil, Analyser.pursue, reading]
      cases (accept (Token.endOfText p) d tasks).2.ending _ <;> exact ⟨rfl, rfl⟩
  | cons t ts ih =>
      simp only [List.map_cons, Analyser.pursue, reading]
      rcases accept t d tasks with ⟨d', more | ending⟩
      · exact ih (n + 1) d' more
      · cases ending <;> exact ⟨rfl, rfl⟩

theorem reading_nil {p : Position} {d d' : Draft} {tasks : List Task} {ending : Ending}
    (h : accept (Token.endOfText p) d tasks = (d', .ended ending)) :
    reading p d tasks [] = (ending.error?, d') := by
  simp only [reading, h]
  rfl

theorem reading_nil_congr {p : Position} {d d' : Draft} {tasks tasks' : List Task}
    (h : accept (Token.endOfText p) d tasks = accept (Token.endOfText p) d' tasks') :
    reading p d tasks [] = reading p d' tasks' [] := by
  simp only [reading, h]

theorem reading_done (p : Position) (d : Draft) (ts : List Token) :
    reading p d [] ts =
      if (look p ts).kind = .eof then (none, d) else (some (unexpected (look p ts) [.eof]), d) := by
  cases ts with
  | nil =>
      have hend : accept (Token.endOfText p) d [] = (d, .ended .complete) := rfl
      rw [reading_nil hend]
      rfl
  | cons t ts =>
      obtain ⟨kind, lexeme, value, start, stop⟩ := t
      cases kind <;> simp [reading, accept, Ending.error?]

theorem reading_act (p : Position) (d : Draft) (a : Action) (k : List Task) (ts : List Token) :
    reading p d (.act a :: k) ts =
      match a.perform d with
      | (none, d) => reading p d k ts
      | (some e, d) => (some e, d) := by
  rcases hperform : a.perform d with ⟨_ | e, d'⟩
  · cases ts with
    | nil => exact reading_nil_congr (by simp only [accept, hperform])
    | cons t ts => simp only [reading, accept, hperform]
  · cases ts with
    | nil =>
        have hend : accept (Token.endOfText p) d (.act a :: k) = (d', .ended (.failed e false)) := by
          simp only [accept, hperform]
        exact reading_nil hend
    | cons t ts =>
        simp only [reading, accept, hperform]
        rfl

theorem reading_settle (p : Position) (d : Draft) (tasks : List Task) (ts : List Token) :
    (match settle d tasks with
      | (d, .ongoing k) => reading p d k ts
      | (d, .ended ending) => (ending.error?, d)) = reading p d tasks ts := by
  induction tasks generalizing d with
  | nil => rfl
  | cons task tasks ih =>
      cases task with
      | see g => rfl
      | act a =>
          rw [reading_act]
          simp only [settle]
          rcases a.perform d with ⟨_ | e, d'⟩
          · exact ih d'
          · rfl

theorem reading_see (p : Position) (d : Draft) (g : Goal) (k : List Task) (ts : List Token) :
    reading p d (.see g :: k) ts =
      match g.react d.symbols (look p ts) with
      | .take new => reading p d (new ++ k) ts.tail
      | .pass => reading p d k ts
      | .refuse e _ => (some e, d) := by
  cases ts with
  | nil =>
      rw [look_nil]
      cases hr : g.react d.symbols (Token.endOfText p) with
      | take new => exact absurd hr (g.react_eof rfl d.symbols new)
      | pass => exact reading_nil_congr (by simp only [accept, hr])
      | refuse e taken =>
          have hend : accept (Token.endOfText p) d (.see g :: k) = (d, .ended (.failed e taken)) := by
            simp only [accept, hr]
          exact reading_nil hend
  | cons t ts =>
      simp only [reading, accept, look_cons, List.tail_cons]
      cases g.react d.symbols t with
      | take new => exact reading_settle p d (new ++ k) ts
      | pass => rfl
      | refuse e taken => rfl

theorem reading_take {p : Position} {d : Draft} {g : Goal} {t : Token} {new : List Task}
    (h : g.react d.symbols t = .take new) (k : List Task) (ts : List Token) :
    reading p d (.see g :: k) (t :: ts) = reading p d (new ++ k) ts := by
  simp [reading_see, h]

theorem reading_pass {p : Position} {d : Draft} {g : Goal} {ts : List Token}
    (h : g.react d.symbols (look p ts) = .pass) (k : List Task) :
    reading p d (.see g :: k) ts = reading p d k ts := by
  simp [reading_see, h]

theorem reading_token (p : Position) (d : Draft) {kind : TokenKind} (hk : kind ≠ .eof)
    (t : Leaf kind) (k : List Task) (ts : List Token) :
    reading p d (.token kind hk :: k) (t.1 :: ts) = reading p d k ts := by
  have hr : (Goal.token kind hk).react d.symbols t.1 = .take [] := by simp [Goal.react, t.2]
  exact reading_take hr k ts

theorem of_reading_token {p : Position} {d r : Draft} {kind : TokenKind} {hk : kind ≠ .eof}
    {k : List Task} {ts : List Token} (h : reading p d (.token kind hk :: k) ts = (none, r)) :
    ∃ (t : Leaf kind) (us : List Token), ts = t.1 :: us ∧ reading p d k us = (none, r) := by
  by_cases ht : (look p ts).kind = kind
  · obtain ⟨t, us, rfl⟩ := leaf_of_look ht hk
    rw [reading_token p d hk] at h
    exact ⟨t, us, rfl, h⟩
  · rw [Task.token, reading_see] at h
    simp [Goal.react, ht] at h

namespace Draft

def append (d : Draft) (code : List Instruction) : Draft :=
  { d with code := d.code ++ code.toArray }

@[simp] theorem symbols_append (d : Draft) (code : List Instruction) :
    (d.append code).symbols = d.symbols := rfl

@[simp] theorem append_append (d : Draft) (code more : List Instruction) :
    (d.append code).append more = d.append (code ++ more) := by
  simp [append]

theorem emit_eq_append (d : Draft) (i : Instruction) : d.emit i = d.append [i] := by
  simp [emit, append]

end Draft

theorem reading_emit (p : Position) (d : Draft) (op : Opcode) (x : Int32) (k : List Task)
    (ts : List Token) :
    reading p d (.emit op x :: k) ts = reading p (d.append [⟨op, x⟩]) k ts := by
  rw [Task.emit, reading_act]
  simp [Action.perform, Draft.emit_eq_append]

end PlZero
