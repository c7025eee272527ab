import PlZero.Proofs.Analysis.Reading
import PlZero.Proofs.Analysis.Tasks
import PlZero.Proofs.Source.Order

namespace PlZero

variable {ε : Type}

-- Is an answer of a stream a token of the program, not its end and not an error?
def isInside : Except ε Token → Bool
  | .ok t => t.kind != .eof
  | .error _ => false

namespace TokenStream

-- The stream after so many calls.
def after (s : TokenStream ε) (k : Nat) : TokenStream ε :=
  ⟨s.pending.drop k, s.ending, s.served + k⟩

def first (s : TokenStream ε) (k : Nat) : List (Except ε Token) :=
  (List.range k).map s.answer

theorem answer_after (s : TokenStream ε) (k i : Nat) : (s.after k).answer i = s.answer (k + i) := by
  simp [answer, after]

theorem after_after (s : TokenStream ε) (k l : Nat) : (s.after k).after l = s.after (k + l) := by
  simp [after, Nat.add_assoc]

theorem first_succ (s : TokenStream ε) (k : Nat) :
    s.first (k + 1) = s.answer 0 :: (s.after 1).first k := by
  rw [first, List.range_succ_eq_map, List.map_cons, List.map_map]
  congr 1
  apply List.map_congr_left
  intro i _
  rw [answer_after, Nat.add_comm]
  rfl

theorem length_first (s : TokenStream ε) (k : Nat) : (s.first k).length = k := by
  simp [first]

theorem getElem?_first (s : TokenStream ε) {k i : Nat} (h : i < k) :
    (s.first k)[i]? = some (s.answer i) := by
  simp [first, h]

theorem countP_first_le {s : TokenStream ε} {n k : Nat} (hk : k ≤ n + 1)
    (hend : isInside (s.answer n) = false) : (s.first k).countP isInside ≤ n := by
  rcases Nat.le_or_eq_of_le_succ hk with hk | rfl
  · calc (s.first k).countP isInside ≤ (s.first k).length := List.countP_le_length
      _ = k := s.length_first k
      _ ≤ n := hk
  · have hfirst : s.first (n + 1) = s.first n ++ [s.answer n] := by
      simp [first, List.range_succ]
    have hcount := List.countP_le_length (p := isInside) (l := s.first n)
    rw [s.length_first] at hcount
    simpa [hfirst, hend] using hcount

end TokenStream

-- How many instructions a list of tasks will emit.
def due (tasks : List Task) : Nat :=
  tasks.countP fun
    | .act (.emit _) => true
    | _ => false

@[simp] theorem due_nil : due [] = 0 := rfl

@[simp] theorem due_see (g : Goal) (tasks : List Task) : due (.see g :: tasks) = due tasks := rfl

@[simp] theorem due_token (kind : TokenKind) (inside : kind ≠ .eof) (tasks : List Task) :
    due (.token kind inside :: tasks) = due tasks := rfl

@[simp] theorem due_emit (i : Instruction) (tasks : List Task) :
    due (.act (.emit i) :: tasks) = due tasks + 1 := by
  simp [due]

@[simp] theorem due_emit_operand (op : Opcode) (x : Int32) (tasks : List Task) :
    due (.emit op x :: tasks) = due tasks + 1 :=
  due_emit ⟨op, x⟩ tasks

@[simp] theorem due_declare (name : Token) (constant initialized : Bool) (tasks : List Task) :
    due (.act (.declare name constant initialized) :: tasks) = due tasks := rfl

@[simp] theorem due_mark (name : Token) (tasks : List Task) : due (.act (.mark name) :: tasks) = due tasks := rfl

@[simp] theorem due_append (tasks more : List Task) : due (tasks ++ more) = due tasks + due more :=
  List.countP_append

namespace Goal

variable {s : SymbolTable} {t : Token} {new : List Task}

theorem reactOperand_due (h : reactOperand s t = .take new) : due new ≤ 2 := by
  unfold reactOperand at h
  split at h
  · split at h <;> cases h
    simp
  · cases h
    simp
  · cases h
    simp [Task.expression]
  · cases h

theorem reactStatement_due (h : reactStatement s t = .take new) : due new ≤ 2 := by
  unfold reactStatement at h
  split at h
  · split at h <;> cases h
    simp [Task.expression]
  · cases h
    simp [Task.expression]
  · cases h
    simp
  · cases h

-- A token is worth two instructions at most: a minus in front of an operand stands for both.
theorem react_due {g : Goal} (h : g.react s t = .take new) : due new ≤ 2 := by
  cases g with
  | statements => exact reactStatement_due h
  | operand => exact reactOperand_due h
  | factor =>
      simp only [react] at h
      split at h
      · cases h
        simp
      · cases h
        simp
      · exact reactOperand_due h
  | _ =>
      simp only [react] at h
      split at h <;> cases h <;> simp [Task.constantEnd, Task.expression]

end Goal

def Progress.due : Progress → Nat
  | .ongoing tasks => PlZero.due tasks
  | _ => 0

theorem perform_size {a : Action} {d d' : Draft} {failure : Option CompileError}
    (h : a.perform d = (failure, d')) (tasks : List Task) :
    d'.code.size + due tasks = d.code.size + due (.act a :: tasks) := by
  cases a with
  | emit i =>
      cases h
      simp [Draft.emit]
      omega
  | declare name constant initialized =>
      simp only [Action.perform, Draft.declare] at h
      split at h <;> cases h <;> rfl
  | mark name =>
      cases h
      rfl

theorem settle_size (d : Draft) (tasks : List Task) :
    (settle d tasks).1.code.size + (settle d tasks).2.due ≤ d.code.size + due tasks := by
  induction tasks generalizing d with
  | nil => exact Nat.le_refl _
  | cons task tasks ih =>
      cases task with
      | see goal => exact Nat.le_refl _
      | act action =>
          simp only [settle]
          rcases hperform : action.perform d with ⟨_ | e, d'⟩
          · rw [← perform_size hperform]
            exact ih d'
          · have hsize := perform_size hperform tasks
            simp only [Progress.due]
            omega

theorem accept_size (t : Token) (d : Draft) (tasks : List Task) :
    (accept t d tasks).1.code.size + (accept t d tasks).2.due ≤
      d.code.size + due tasks + if t.kind = .eof then 0 else 2 := by
  induction tasks generalizing d with
  | nil =>
      simp only [accept]
      split <;> simp [Progress.due]
  | cons task tasks ih =>
      cases task with
      | act action =>
          simp only [accept]
          rcases hperform : action.perform d with ⟨_ | e, d'⟩
          · rw [← perform_size hperform]
            exact ih d'
          · have hsize := perform_size hperform tasks
            simp only [Progress.due]
            omega
      | see goal =>
          simp only [accept]
          cases hreact : goal.react d.symbols t with
          | take new =>
              have hkind : t.kind ≠ .eof := fun hkind => goal.react_eof hkind d.symbols new hreact
              have hsettle := settle_size d (new ++ tasks)
              have hnew := Goal.react_due hreact
              rw [due_append] at hsettle
              simp only [due_see, hkind, if_false]
              omega
          | pass => exact ih d
          | refuse e taken =>
              simp only [Progress.due]
              omega

namespace Analyser

-- What an analysis hears from its stream, answer by answer, and how it ends when a given stream is left.
inductive Pursuit : Draft → List Task → List (Except ε Token) → (TokenStream ε → Verdict ε) → Prop where
  | failed (d : Draft) (tasks : List Task) (e : ε) :
      Pursuit d tasks [.error e] fun s => (.error (.stream e), ⟨s, none, d⟩)
  | last {d : Draft} {tasks : List Task} {t : Token} {ending : Ending}
      (ended : (accept t d tasks).2 = .ended ending) :
      Pursuit d tasks [.ok t] fun s => conclude s t (accept t d tasks).1 ending
  | more {d : Draft} {tasks tasks' : List Task} {t : Token} {answers : List (Except ε Token)}
      {v : TokenStream ε → Verdict ε} (inside : t.kind ≠ .eof)
      (ongoing : (accept t d tasks).2 = .ongoing tasks')
      (rest : Pursuit (accept t d tasks).1 tasks' answers v) : Pursuit d tasks (.ok t :: answers) v

theorem conclude_stream (s s' : TokenStream ε) (t : Token) (d : Draft) (ending : Ending) :
    conclude s' t d ending =
      ((conclude s t d ending).1, { (conclude s t d ending).2 with stream := s' }) := by
  cases ending <;> rfl

theorem conclude_draft (s : TokenStream ε) (t : Token) (d : Draft) (ending : Ending) :
    (conclude s t d ending).2.draft = d := by
  cases ending <;> rfl

namespace Pursuit

variable {d : Draft} {tasks : List Task} {answers : List (Except ε Token)} {v : TokenStream ε → Verdict ε}

theorem stream (h : Pursuit d tasks answers v) (s s' : TokenStream ε) :
    v s' = ((v s).1, { (v s).2 with stream := s' }) := by
  induction h with
  | failed d tasks e => rfl
  | last ended => exact conclude_stream s s' _ _ _
  | more inside ongoing rest ih => exact ih

theorem inside (h : Pursuit d tasks answers v) {i : Nat} (hi : i + 1 < answers.length) :
    ∃ a, answers[i]? = some a ∧ isInside a = true := by
  induction h generalizing i with
  | failed d tasks e => simp at hi
  | last ended => simp at hi
  | @more _ _ _ t _ _ inside ongoing rest ih =>
      cases i with
      | zero => exact ⟨.ok t, rfl, by simpa [isInside] using inside⟩
      | succ i =>
          obtain ⟨a, ha, hinside⟩ := ih (by simpa using hi)
          exact ⟨a, by simpa using ha, hinside⟩

theorem error_iff (h : Pursuit d tasks answers v) (s : TokenStream ε) (e : ε) :
    (v s).1 = .error (.stream e) ↔ .error e ∈ answers := by
  induction h with
  | failed d tasks e' => simp [eq_comm]
  | last ended => simp [conclude_ne_stream]
  | more inside ongoing rest ih => simp [ih]

theorem size (h : Pursuit d tasks answers v) (s : TokenStream ε) :
    (v s).2.draft.code.size ≤ d.code.size + due tasks + 2 * answers.countP isInside := by
  induction h with
  | failed d tasks e => simp [isInside]
  | @last d tasks t _ ended =>
      have hsize := accept_size t d tasks
      rw [conclude_draft]
      by_cases hkind : t.kind = .eof
      · rw [if_pos hkind] at hsize
        omega
      · have hcount : [Except.ok t].countP (isInside (ε := ε)) = 1 := by simp [isInside, hkind]
        rw [if_neg hkind] at hsize
        omega
  | @more d tasks tasks' t answers v inside ongoing rest ih =>
      have hsize := accept_size t d tasks
      rw [ongoing, Progress.due, if_neg inside] at hsize
      have hcount : (Except.ok t :: answers).countP isInside = answers.countP isInside + 1 :=
        List.countP_cons_of_pos (by simpa [isInside] using inside)
      omega

-- An analysis is settled by what it hears, so every stream that answers the same ends it the same way.
theorem pursue_eq (h : Pursuit d tasks answers v) {s : TokenStream ε}
    (hs : s.first answers.length = answers) :
    pursue s.ending s.served d tasks s.pending = v (s.after answers.length) := by
  obtain ⟨pending, ending, served⟩ := s
  induction h generalizing pending served with
  | failed d tasks e =>
      cases pending with
      | nil =>
          cases ending with
          | eof p => cases hs
          | failure e' =>
              cases hs
              rfl
      | cons a pending =>
          cases hs
          rfl
  | @last d tasks t last ended =>
      cases pending with
      | nil =>
          cases ending with
          | failure e => cases hs
          | eof p =>
              cases hs
              simp only [pursue, ended]
              rfl
      | cons a pending =>
          cases hs
          simp only [pursue, ended]
          rfl
  | @more d tasks tasks' t answers v inside ongoing rest ih =>
      rw [List.length_cons, TokenStream.first_succ, List.cons.injEq] at hs
      obtain ⟨hanswer, hrest⟩ := hs
      cases pending with
      | nil =>
          cases ending with
          | failure e => cases hanswer
          | eof p =>
              cases hanswer
              exact absurd rfl inside
      | cons a pending =>
          cases hanswer
          simp only [pursue, ongoing]
          rw [List.length_cons, Nat.add_comm answers.length, ← TokenStream.after_after]
          exact ih pending (served + 1) hrest

end Pursuit

theorem exists_pursuit (s : TokenStream ε) (d : Draft) (tasks : List Task) :
    ∃ k v, Pursuit d tasks (s.first k) v := by
  obtain ⟨pending, ending, served⟩ := s
  induction pending generalizing d tasks served with
  | nil =>
      refine ⟨1, ?_⟩
      cases ending with
      | eof p =>
          have hend := accept_eof (rfl : (Token.endOfText p).kind = .eof) d tasks
          exact ⟨_, .last (Progress.eq_ended _ hend)⟩
      | failure e => exact ⟨_, .failed d tasks e⟩
  | cons a pending ih =>
      cases a with
      | error e => exact ⟨1, _, .failed d tasks e⟩
      | ok t =>
          cases hshown : (accept t d tasks).2 with
          | ongoing more =>
              obtain ⟨k, v, hrest⟩ := ih (accept t d tasks).1 more (served + 1)
              refine ⟨k + 1, v, ?_⟩
              rw [TokenStream.first_succ]
              exact .more (fun hkind => accept_eof hkind d tasks more hshown) hshown hrest
          | ended last => exact ⟨1, _, .last hshown⟩

end Analyser

theorem analysis_stops_at_end {stream : TokenStream ε} {n : Nat}
    (hend : isInside (stream.answer n) = false) :
    let v := (Analyser.mk stream none {}).analyse
    ∃ k ≤ n + 1,
      v.2.stream = stream.after k ∧
      (∀ i, i + 1 < k → isInside (stream.answer i) = true) ∧
      v.2.draft.code.size ≤ 2 * n ∧
      (∀ e, v.1 = .error (.stream e) ↔ ∃ i < k, stream.answer i = .error e) ∧
      ∀ other : TokenStream ε, (∀ i < k, other.answer i = stream.answer i) →
        (Analyser.mk other none {}).analyse = (v.1, { v.2 with stream := other.after k }) := by
  intro v
  obtain ⟨k, w, hpursuit⟩ := Analyser.exists_pursuit stream {} Task.program
  have hv : v = w (stream.after k) := by
    have hpursue := hpursuit.pursue_eq (s := stream) (by rw [stream.length_first])
    rwa [stream.length_first] at hpursue
  have hinside (i : Nat) (hi : i + 1 < k) : isInside (stream.answer i) = true := by
    obtain ⟨a, ha, hinside⟩ := hpursuit.inside (i := i) (by rwa [stream.length_first])
    rw [stream.getElem?_first (by omega)] at ha
    cases ha
    exact hinside
  have hk : k ≤ n + 1 := by
    by_contra hlate
    rw [hinside n (by omega)] at hend
    cases hend
  refine ⟨k, hk, ?_, hinside, ?_, fun e => ?_, fun other hother => ?_⟩
  · rw [hv, hpursuit.stream (stream.after k)]
  · have hsize := hpursuit.size (stream.after k)
    have hcount := TokenStream.countP_first_le hk hend
    have hprogram : due Task.program = 0 := rfl
    rw [hv]
    simp only [hprogram, List.size_toArray, List.length_nil] at hsize
    omega
  · rw [hv, hpursuit.error_iff]
    simp [TokenStream.first]
  · have hfirst : other.first (stream.first k).length = stream.first k := by
      rw [stream.length_first]
      exact List.map_congr_left fun i hi => hother i (List.mem_range.mp hi)
    have hpursue := hpursuit.pursue_eq hfirst
    rw [stream.length_first] at hpursue
    rw [hv, ← hpursuit.stream]
    exact hpursue

-- begin print(-1, and then an error of the stream
def snapped : TokenStream String :=
  .failingAfter
    [⟨.beginWord, "begin", 0, ⟨0, 0⟩, ⟨0, 5⟩⟩, ⟨.printWord, "print", 0, ⟨0, 6⟩, ⟨0, 11⟩⟩,
      ⟨.leftParen, "(", 0, ⟨0, 11⟩, ⟨0, 12⟩⟩, ⟨.minus, "-", 0, ⟨0, 12⟩, ⟨0, 13⟩⟩,
      ⟨.number, "1", 1, ⟨0, 13⟩, ⟨0, 14⟩⟩] "snapped"

theorem analysis_stops_at_end_snapped :
    let v := (Analyser.mk snapped none {}).analyse
    isInside (snapped.answer 5) = false ∧ v.1 = .error (.stream "snapped") ∧
    ∃ k ≤ 6, v.2.stream = snapped.after k ∧ (∀ i, i + 1 < k → isInside (snapped.answer i) = true) ∧
      v.2.draft.code.size ≤ 10 ∧ ∃ i < k, snapped.answer i = .error "snapped" := by
  intro v
  have hend : isInside (snapped.answer 5) = false := rfl
  have hanswer : v.1 = .error (.stream "snapped") := rfl
  obtain ⟨k, hk, hstream, hinside, hsize, herror, _⟩ := analysis_stops_at_end hend
  exact ⟨hend, hanswer, k, hk, hstream, hinside, hsize, (herror "snapped").mp hanswer⟩

end PlZero
