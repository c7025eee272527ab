import PlZero.Analysis.Analyser

namespace PlZero

-- The code of one draft begins with the code of another.
def Draft.Extends (d' d : Draft) : Prop := d.code.toList <+: d'.code.toList

theorem Draft.Extends.refl (d : Draft) : d.Extends d := List.prefix_rfl

theorem Draft.Extends.trans {d d' d'' : Draft} (h' : d''.Extends d') (h : d'.Extends d) :
    d''.Extends d :=
  List.IsPrefix.trans h h'

theorem perform_extends {a : Action} {d d' : Draft} {failure : Option CompileError}
    (h : a.perform d = (failure, d')) : d'.Extends d := by
  cases a with
  | emit i =>
      cases h
      exact ⟨[i], by simp [Draft.emit]⟩
  | declare name constant initialized =>
      simp only [Action.perform, Draft.declare] at h
      split at h <;> cases h
      · exact .refl d
      · exact .refl d
  | mark name =>
      cases h
      exact .refl d

theorem settle_extends (d : Draft) (tasks : List Task) : (settle d tasks).1.Extends d := by
  induction tasks generalizing d with
  | nil => exact .refl d
  | cons task tasks ih =>
      cases task with
      | see goal => exact .refl d
      | act action =>
          simp only [settle]
          rcases hperform : action.perform d with ⟨_ | e, d'⟩
          · exact (ih d').trans (perform_extends hperform)
          · exact perform_extends hperform

theorem accept_extends (t : Token) (d : Draft) (tasks : List Task) :
    (accept t d tasks).1.Extends d := by
  induction tasks generalizing d with
  | nil =>
      simp only [accept]
      split
      · exact .refl d
      · exact .refl d
  | cons task tasks ih =>
      cases task with
      | act action =>
          simp only [accept]
          rcases hperform : action.perform d with ⟨_ | e, d'⟩
          · exact (ih d').trans (perform_extends hperform)
          · exact perform_extends hperform
      | see goal =>
          simp only [accept]
          cases goal.react d.symbols t with
          | take new => exact settle_extends d (new ++ tasks)
          | pass => exact ih d
          | refuse e taken => exact .refl d

namespace Analyser

variable {ε : Type}

-- What a call answers is all the code of the draft, which has only grown.
structure Verdict.Grows (d : Draft) (v : Verdict ε) : Prop where
  code : v.2.draft.Extends d
  answer : ∀ code, v.1 = .ok code → code = v.2.draft.code

theorem conclude_grows {d d' : Draft} (h : d'.Extends d) (stream : TokenStream ε) (t : Token)
    (ending : Ending) : (conclude stream t d' ending).Grows d := by
  cases ending with
  | complete => exact ⟨h, fun code hcode => (Except.ok.inj hcode).symm⟩
  | failed e taken => exact ⟨h, fun code hcode => by cases hcode⟩

theorem pursue_grows (ending : StreamEnd ε) (n : Nat) (d : Draft) (tasks : List Task)
    (pending : List (Except ε Token)) : (pursue ending n d tasks pending).Grows d := by
  induction pending generalizing n d tasks with
  | nil =>
      cases ending with
      | failure e => exact ⟨.refl d, fun code hcode => by cases hcode⟩
      | eof p => exact conclude_grows (accept_extends _ d tasks) _ _ _
  | cons a pending ih =>
      cases a with
      | error e => exact ⟨.refl d, fun code hcode => by cases hcode⟩
      | ok t =>
          have hstep := accept_extends t d tasks
          simp only [pursue]
          split
          · next more _ =>
              obtain ⟨hcode, hanswer⟩ := ih (n + 1) (accept t d tasks).1 more
              exact ⟨hcode.trans hstep, hanswer⟩
          · exact conclude_grows hstep _ _ _

theorem analyse_grows (a : Analyser ε) : a.analyse.Grows a.draft := by
  unfold analyse
  split
  · exact pursue_grows _ _ _ _ _
  · next t _ =>
      have hstep := accept_extends t a.draft Task.program
      dsimp only
      split
      · next more _ =>
          obtain ⟨hcode, hanswer⟩ := pursue_grows a.stream.ending a.stream.served
            (accept t a.draft Task.program).1 more a.stream.pending
          exact ⟨hcode.trans hstep, hanswer⟩
      · exact conclude_grows hstep _ _ _

-- The analyser after so many calls.
def after (a : Analyser ε) : Nat → Analyser ε
  | 0 => a
  | n + 1 => (a.after n).analyse.2

def succeeds (a : Analyser ε) : Bool := a.analyse.1.isOk

-- The instructions that the next call emits.
def emitted (a : Analyser ε) : List Instruction :=
  a.analyse.2.draft.code.toList.drop a.draft.code.size

theorem code_analyse (a : Analyser ε) :
    a.analyse.2.draft.code.toList = a.draft.code.toList ++ a.emitted := by
  obtain ⟨more, hmore⟩ := a.analyse_grows.code
  rw [emitted, ← hmore, ← Array.length_toList, List.drop_left]

theorem code_after (a : Analyser ε) (n : Nat) :
    (a.after n).draft.code.toList =
      a.draft.code.toList ++ (List.range n).flatMap fun k => (a.after k).emitted := by
  induction n with
  | zero => simp [after]
  | succ n ih =>
      rw [after, code_analyse, ih, List.range_succ]
      simp

end Analyser

theorem flatMap_eq_flatMap_filter_iff {α β : Type} (f : α → List β) (p : α → Bool) (l : List α) :
    l.flatMap f = (l.filter p).flatMap f ↔ ∀ x ∈ l, p x = false → f x = [] := by
  have hlength (l : List α) : ((l.filter p).flatMap f).length ≤ (l.flatMap f).length := by
    induction l with
    | nil => exact Nat.le_refl _
    | cons x l ih =>
        rw [List.filter_cons]
        split
        · simp only [List.flatMap_cons, List.length_append]
          omega
        · simp only [List.flatMap_cons, List.length_append]
          omega
  induction l with
  | nil => simp
  | cons x l ih =>
      cases hx : p x with
      | true => simp [hx, ih]
      | false =>
          simp only [List.flatMap_cons, List.filter_cons_of_neg (by simp [hx] : ¬ p x = true),
            List.forall_mem_cons, hx, forall_const]
          constructor
          · intro heq
            have hfx : f x = [] := by
              have hcount := congrArg List.length heq
              have hle := hlength l
              rw [List.length_append] at hcount
              exact List.length_eq_zero_iff.mp (by omega)
            exact ⟨hfx, ih.mp (by simpa [hfx] using heq)⟩
          · rintro ⟨hfx, hrest⟩
            simpa [hfx] using ih.mpr hrest

theorem calls_accumulate_code {ε : Type} {stream : TokenStream ε} {n : Nat} {code : Array Instruction}
    (h : ((Analyser.mk stream none {}).after n).analyse.1 = .ok code) :
    let a := Analyser.mk stream none {}
    let calls := List.range (n + 1)
    code.toList = calls.flatMap (fun k => (a.after k).emitted) ∧
    (code.toList = (calls.filter fun k => (a.after k).succeeds).flatMap (fun k => (a.after k).emitted) ↔
      ∀ k ≤ n, (a.after k).succeeds = false → (a.after k).emitted = []) := by
  intro a calls
  have hcode : code.toList = calls.flatMap fun k => (a.after k).emitted := by
    rw [(a.after n).analyse_grows.answer code h]
    exact (a.code_after (n + 1)).trans (by simp [a, calls])
  refine ⟨hcode, ?_⟩
  rw [hcode, flatMap_eq_flatMap_filter_iff]
  simp only [calls, List.mem_range, Nat.lt_succ_iff]

-- begin print(1 begin end
def restarted : List Token :=
  let token (kind : TokenKind) (lexeme : String) (value : UInt64) (column : Int) : Token :=
    ⟨kind, lexeme, value, ⟨0, column⟩, ⟨0, column + lexeme.length⟩⟩
  [token .beginWord "begin" 0 0, token .printWord "print" 0 6, token .leftParen "(" 0 11,
    token .number "1" 1 12, token .beginWord "begin" 0 14, token .endWord "end" 0 20]

-- The second call is about an empty program and answers the code of the first, which failed.
theorem failed_code_returned :
    let a : Analyser Empty := ⟨.ofTokens restarted, none, {}⟩
    a.succeeds = false ∧ a.emitted = [⟨.lit, 1⟩] ∧ (a.after 1).emitted = [] ∧
      (a.after 1).analyse.1 = .ok #[⟨.lit, 1⟩] := by
  exact ⟨rfl, rfl, rfl, rfl⟩

theorem calls_accumulate_code_restarted :
    let a : Analyser Empty := ⟨.ofTokens restarted, none, {}⟩
    (a.after 1).analyse.1 = .ok #[⟨.lit, 1⟩] ∧
    [⟨.lit, 1⟩] = (List.range 2).flatMap (fun k => (a.after k).emitted) ∧
    [⟨.lit, 1⟩] ≠
      ((List.range 2).filter fun k => (a.after k).succeeds).flatMap (fun k => (a.after k).emitted) := by
  intro a
  have hcall : (a.after 1).analyse.1 = .ok #[⟨.lit, 1⟩] := rfl
  obtain ⟨hall, honly⟩ := calls_accumulate_code hcall
  refine ⟨hcall, hall, fun heq => ?_⟩
  have hnone : a.emitted = [] := honly.mp heq 0 (by decide) rfl
  cases hnone

end PlZero
