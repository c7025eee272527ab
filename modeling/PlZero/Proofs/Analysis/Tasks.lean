import PlZero.Analysis.Analyser
import PlZero.Proofs.Machine.Canonical

namespace PlZero

-- The causes that are found in the order and the names of tokens.
def CompileCause.isStructural : CompileCause → Bool
  | expectedToken _ _ => true
  | duplicateDeclaration _ => true
  | notDeclared _ => true
  | notInitialized _ => true
  | assignToConstant _ => true
  | _ => false

theorem CompileCause.not_isLexical {cause : CompileCause} (h : cause.isStructural = true) :
    cause.isLexical = false := by
  cases cause <;> first | rfl | cases h

-- The token was found in the place of others, or it spells the name that a cause is about.
def CompileCause.Concerns (t : Token) : CompileCause → Prop
  | expectedToken _ found => found = t
  | duplicateDeclaration name => name = t.lexeme
  | notDeclared name => name = t.lexeme
  | notInitialized name => name = t.lexeme
  | assignToConstant name => name = t.lexeme
  | _ => False

structure CompileError.Blames (e : CompileError) (t : Token) : Prop where
  position : e.position = t.start
  structural : e.cause.isStructural = true
  concerned : e.cause.Concerns t

theorem unexpected_blames (t : Token) (expected : List TokenKind) : (unexpected t expected).Blames t :=
  ⟨rfl, rfl, rfl⟩

namespace SymbolTable

theorem target_blames {s : SymbolTable} {t : Token} {e : CompileError} (h : s.target t = .error e) :
    e.Blames t := by
  unfold target at h
  split at h
  · cases h
    exact ⟨rfl, rfl, rfl⟩
  · split at h <;> cases h
    exact ⟨rfl, rfl, rfl⟩

theorem source_blames {s : SymbolTable} {t : Token} {e : CompileError} (h : s.source t = .error e) :
    e.Blames t := by
  unfold source at h
  split at h
  · cases h
    exact ⟨rfl, rfl, rfl⟩
  · split at h <;> cases h
    exact ⟨rfl, rfl, rfl⟩

end SymbolTable

-- What a task may hold when all tokens shown so far are `seen`.
def Task.Sound (seen : Token → Prop) : Task → Prop
  | .see (.initializer name) => seen name
  | .see _ => True
  | .act (.emit i) => i.canonical = i
  | .act (.declare name _ _) => seen name
  | .act (.mark _) => True

namespace Task

variable {seen : Token → Prop}

@[simp] theorem sound_emit (op : Opcode) (x : Int32) :
    (Task.emit op x).Sound seen ↔ (Instruction.mk op x).canonical = ⟨op, x⟩ := Iff.rfl

@[simp] theorem sound_token (kind : TokenKind) (inside : kind ≠ .eof) :
    (Task.token kind inside).Sound seen := trivial

@[simp] theorem sound_mark (name : Token) : (Task.act (.mark name)).Sound seen := trivial

theorem sound_see {g : Goal} (hname : ∀ name, g ≠ .initializer name) : (Task.see g).Sound seen := by
  cases g with
  | initializer name => exact absurd rfl (hname name)
  | _ => trivial

theorem sound_constantEnd (value : Int32) : ∀ task ∈ constantEnd value, task.Sound seen := by
  simp [constantEnd, Instruction.canonical, Opcode.hasOperand]

theorem sound_program : ∀ task ∈ program, task.Sound seen := by
  simp [program, sound_see]

end Task

def Reaction.Sound (seen : Token → Prop) (t : Token) : Reaction → Prop
  | .take new => ∀ task ∈ new, task.Sound seen
  | .pass => True
  | .refuse e _ => e.Blames t

namespace Goal

variable {seen : Token → Prop} {s : SymbolTable} {t : Token}

theorem reactOperand_sound : (reactOperand s t).Sound seen t := by
  unfold reactOperand
  split
  · split
    · simp [Reaction.Sound, Instruction.canonical, Opcode.hasOperand]
    · next h => exact SymbolTable.source_blames h
  · simp [Reaction.Sound, Instruction.canonical, Opcode.hasOperand]
  · simp [Reaction.Sound, Task.expression, Task.sound_see]
  · exact unexpected_blames _ _

theorem reactStatement_sound : (reactStatement s t).Sound seen t := by
  unfold reactStatement
  split
  · split
    · simp [Reaction.Sound, Task.expression, Task.sound_see, Instruction.canonical,
        Opcode.hasOperand]
    · next h => exact SymbolTable.target_blames h
  · simp [Reaction.Sound, Task.expression, Task.sound_see, Instruction.canonical, Opcode.hasOperand]
  · simp [Reaction.Sound, Task.sound_see]
  · trivial

theorem react_sound {g : Goal} (hg : (Task.see g).Sound seen) (ht : seen t) :
    (g.react s t).Sound seen t := by
  cases g with
  | token kind =>
      simp only [react]
      split
      · simp [Reaction.Sound]
      · exact unexpected_blames _ _
  | statements => exact reactStatement_sound
  | operand => exact reactOperand_sound
  | factor =>
      simp only [react]
      split
      · simp [Reaction.Sound, Task.sound_see, Instruction.canonical, Opcode.hasOperand]
      · simp [Reaction.Sound, Task.sound_see]
      · exact reactOperand_sound
  | initializer name =>
      have hname (initialized : Bool) : (Task.act (.declare name false initialized)).Sound seen := hg
      simp only [react]
      split
      · simp [Reaction.Sound, Task.expression, Task.sound_see, hname]
      · simp [Reaction.Sound, hname, Instruction.canonical, Opcode.hasOperand]
      · exact unexpected_blames _ _
  | constantName | variableName =>
      simp only [react]
      split
      · simp only [Reaction.Sound, List.mem_singleton, forall_eq]
        exact ht
      · exact unexpected_blames _ _
  | constantValue =>
      simp only [react]
      split
      · simp [Reaction.Sound, Task.sound_see]
      · simp [Reaction.Sound, Task.sound_see]
      · exact Task.sound_constantEnd _
      · exact unexpected_blames _ _
  | constantDigits negative =>
      simp only [react]
      split
      · exact Task.sound_constantEnd _
      · exact unexpected_blames _ _
  | moreFactors | moreTerms =>
      simp only [react]
      split <;>
        simp [Reaction.Sound, Task.sound_see, Instruction.canonical, Opcode.hasOperand]
  -- What is left is the two lists of declarations, which either go on or give way.
  | _ =>
      simp only [react]
      split <;> simp [Reaction.Sound, Task.sound_see]

end Goal

def Draft.Canonical (d : Draft) : Prop := ∀ i ∈ d.code, i.canonical = i

def Ending.Sound (seen : Token → Prop) : Ending → Prop
  | .complete => True
  | .failed e _ => ∃ t, seen t ∧ e.Blames t

def Progress.Sound (seen : Token → Prop) : Progress → Prop
  | .ongoing tasks => ∀ task ∈ tasks, task.Sound seen
  | .ended ending => ending.Sound seen

variable {seen : Token → Prop}

theorem Progress.Sound.ending {progress : Progress} (hsound : progress.Sound seen)
    (h : ∀ more, progress ≠ .ongoing more) : (progress.ending h).Sound seen := by
  cases progress with
  | ongoing more => exact absurd rfl (h more)
  | ended ending => exact hsound

theorem perform_sound {a : Action} (ha : (Task.act a).Sound seen) {d d' : Draft} (hd : d.Canonical)
    {failure : Option CompileError} (h : a.perform d = (failure, d')) :
    d'.Canonical ∧ ∀ e, failure = some e → ∃ t, seen t ∧ e.Blames t := by
  cases a with
  | emit i =>
      cases h
      refine ⟨fun j hj => ?_, by simp⟩
      rcases Array.mem_push.mp hj with hj | rfl
      · exact hd j hj
      · exact ha
  | declare name constant initialized =>
      simp only [Action.perform, Draft.declare] at h
      split at h <;> cases h
      · exact ⟨hd, by simp⟩
      · refine ⟨hd, fun e he => ⟨name, ha, ?_⟩⟩
        cases he
        exact ⟨rfl, rfl, rfl⟩
  | mark name =>
      cases h
      exact ⟨hd, by simp⟩

theorem settle_sound {d : Draft} {tasks : List Task} (hd : d.Canonical)
    (htasks : ∀ task ∈ tasks, task.Sound seen) :
    (settle d tasks).1.Canonical ∧ (settle d tasks).2.Sound seen := by
  induction tasks generalizing d with
  | nil => exact ⟨hd, htasks⟩
  | cons task tasks ih =>
      cases task with
      | see goal => exact ⟨hd, htasks⟩
      | act action =>
          have haction := htasks (.act action) (by simp)
          simp only [settle]
          rcases hperform : action.perform d with ⟨_ | e, d'⟩
          · exact ih (perform_sound haction hd hperform).1 fun task ht =>
              htasks task (List.mem_cons_of_mem _ ht)
          · exact (perform_sound haction hd hperform).imp_right fun herror => herror e rfl

theorem accept_sound {t : Token} (ht : seen t) {d : Draft} {tasks : List Task} (hd : d.Canonical)
    (htasks : ∀ task ∈ tasks, task.Sound seen) :
    (accept t d tasks).1.Canonical ∧ (accept t d tasks).2.Sound seen := by
  induction tasks generalizing d with
  | nil =>
      simp only [accept]
      split
      · exact ⟨hd, trivial⟩
      · exact ⟨hd, t, ht, unexpected_blames _ _⟩
  | cons task tasks ih =>
      have hrest : ∀ task ∈ tasks, task.Sound seen :=
        fun task ht => htasks task (List.mem_cons_of_mem _ ht)
      cases task with
      | act action =>
          have haction := htasks (.act action) (by simp)
          simp only [accept]
          rcases hperform : action.perform d with ⟨_ | e, d'⟩
          · exact ih (perform_sound haction hd hperform).1 hrest
          · exact (perform_sound haction hd hperform).imp_right fun herror => herror e rfl
      | see goal =>
          have hreact := Goal.react_sound (s := d.symbols) (htasks (.see goal) (by simp)) ht
          simp only [accept]
          cases hcase : goal.react d.symbols t with
          | take new =>
              rw [hcase] at hreact
              refine settle_sound hd fun task hmem => ?_
              rcases List.mem_append.mp hmem with hmem | hmem
              · exact hreact task hmem
              · exact hrest task hmem
          | pass => exact ih hd hrest
          | refuse e taken =>
              rw [hcase] at hreact
              exact ⟨hd, t, ht, hreact⟩

namespace Analyser

variable {ε : Type}

-- The code holds canonical instructions only, and an error of the program blames a token that is `seen`.
structure Verdict.Sound (seen : Token → Prop) (v : Verdict ε) : Prop where
  code : v.2.draft.Canonical
  answer : ∀ c, v.1 = .ok c → c = v.2.draft.code
  error : ∀ e, v.1 = .error (.program e) → ∃ t, seen t ∧ e.Blames t

theorem conclude_ne_stream (s : TokenStream ε) (t : Token) (d : Draft) (ending : Ending) (e : ε) :
    (conclude s t d ending).1 ≠ .error (.stream e) := by
  cases ending <;> simp [conclude]

theorem conclude_sound {stream : TokenStream ε} {t : Token} {d : Draft} (hd : d.Canonical)
    {ending : Ending} (h : ending.Sound seen) : (conclude stream t d ending).Sound seen := by
  cases ending with
  | complete =>
      refine ⟨hd, fun c hc => ?_, fun e he => (by cases he)⟩
      cases hc
      rfl
  | failed e taken =>
      refine ⟨hd, fun c hc => (by cases hc), fun e' he => ?_⟩
      cases he
      exact h

theorem pursue_sound {ending : StreamEnd ε} {pending : List (Except ε Token)} {n : Nat} {d : Draft}
    {tasks : List Task} (hpending : ∀ t, .ok t ∈ pending → seen t)
    (hending : ∀ p, ending = .eof p → seen (Token.endOfText p)) (hd : d.Canonical)
    (htasks : ∀ task ∈ tasks, task.Sound seen) :
    (pursue ending n d tasks pending).Sound seen := by
  have hstream (e : ε) (stream : TokenStream ε) {d : Draft} (hd : d.Canonical) :
      Verdict.Sound seen (.error (.stream e), ⟨stream, none, d⟩) :=
    ⟨hd, fun c hc => (by cases hc), fun e he => (by cases he)⟩
  induction pending generalizing n d tasks with
  | nil =>
      cases ending with
      | failure e => exact hstream e _ hd
      | eof p =>
          obtain ⟨hcode, hsound⟩ := accept_sound (hending p rfl) hd htasks
          exact conclude_sound hcode (hsound.ending _)
  | cons a pending ih =>
      cases a with
      | error e => exact hstream e _ hd
      | ok t =>
          obtain ⟨hcode, hsound⟩ := accept_sound (hpending t (by simp)) hd htasks
          simp only [pursue]
          split
          · next more hmore =>
              rw [hmore] at hsound
              exact ih (fun t h => hpending t (List.mem_cons_of_mem _ h)) hcode hsound
          · next last hlast =>
              rw [hlast] at hsound
              exact conclude_sound hcode hsound

end Analyser

end PlZero
