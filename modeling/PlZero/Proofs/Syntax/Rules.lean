import PlZero.Analysis.SymbolTable
import PlZero.Proofs.Syntax.Tree

namespace PlZero

def Readable (cs : List Constant) (vs : List Variable) (ss : List Statement) (x : String) : Prop :=
  (∃ c ∈ cs, c.name = x) ∨
    ∃ v ∈ vs, v.name = x ∧ (v.initial.isSome = true ∨ ∃ s ∈ ss, s.target? = some x)

structure Program.Lawful (p : Program) : Prop where
  distinct : p.names.Nodup
  initial : ∀ before v after, p.vars = before ++ v :: after →
    ∀ x ∈ v.used, Readable p.constants before [] x
  target : ∀ s ∈ p.statements, ∀ x ∈ s.target?, ∃ v ∈ p.vars, v.name = x
  used : ∀ before s after, p.statements = before ++ s :: after →
    ∀ x ∈ s.used, Readable p.constants p.vars (before ++ [s]) x

theorem forall_split_cons {α : Type} {Q : List α → α → Prop} (a : α) (l : List α) :
    (∀ before b after, a :: l = before ++ b :: after → Q before b) ↔
      Q [] a ∧ ∀ before b after, l = before ++ b :: after → Q (a :: before) b := by
  constructor
  · intro h
    exact ⟨h [] a l rfl, fun before b after hl => h (a :: before) b after (by rw [hl]; rfl)⟩
  · rintro ⟨ha, hl⟩ before b after he
    cases before with
    | nil =>
        cases he
        exact ha
    | cons a' before =>
        cases he
        exact hl before b after rfl

def Leaf.sample (kind : TokenKind) (lexeme : String) (column : Int) (value : UInt64) : Leaf kind :=
  ⟨⟨kind, lexeme, value, ⟨0, column⟩, ⟨0, column + lexeme.length⟩⟩, rfl⟩

-- begin const k=-3;var a=2;print(a*k);a=a/0;end
def Program.sample : Program :=
  ⟨.sample .beginWord "begin" 0 0,
    [⟨.sample .constWord "const" 6 0, .sample .identifier "k" 12 0, .sample .equals "=" 13 0,
      some (.minus (.sample .minus "-" 14 0)), .sample .number "3" 15 3, .sample .semicolon ";" 16 0⟩],
    [⟨.sample .varWord "var" 17 0, .sample .identifier "a" 21 0,
      some (.sample .equals "=" 22 0, .lone (.single (.plain (.number (.sample .number "2" 23 2))))),
      .sample .semicolon ";" 24 0⟩],
    [.print (.sample .printWord "print" 25 0) (.sample .leftParen "(" 30 0)
        (.lone (.product (.single (.plain (.name (.sample .identifier "a" 31 0))))
          (.sample .times "*" 32 0) (.plain (.name (.sample .identifier "k" 33 0)))))
        (.sample .rightParen ")" 34 0) (.sample .semicolon ";" 35 0),
      .assign (.sample .identifier "a" 36 0) (.sample .equals "=" 37 0)
        (.lone (.quotient (.single (.plain (.name (.sample .identifier "a" 38 0))))
          (.sample .divide "/" 39 0) (.plain (.number (.sample .number "0" 40 0)))))
        (.sample .semicolon ";" 41 0)],
    .sample .endWord "end" 42 0,
    .sample .eof "" 45 0⟩

theorem Program.lawful_sample : sample.Lawful := by
  refine ⟨by decide, ?_, ?_, ?_⟩
  · simp [sample, forall_split_cons, Variable.used, Tree.names]
  · simp [sample, Statement.target?, Leaf.sample, Variable.name]
  · simp [sample, forall_split_cons, Statement.used, Tree.names, Readable, Constant.name,
      Variable.name, Leaf.sample]

def Constant.flags (c : Constant) : String × Bool × Bool := (c.name, true, true)

def Variable.flags (ss : List Statement) (v : Variable) : String × Bool × Bool :=
  (v.name, false, v.initial.isSome || ss.any (·.target? == some v.name))

def symbolList (cs : List Constant) (vs : List Variable) (ss : List Statement) : List Symbol :=
  (cs.map Constant.flags ++ vs.map (Variable.flags ss)).mapIdx
    fun i s => ⟨s.1, s.2.1, s.2.2, i⟩

def Program.symbols (p : Program) : List Symbol :=
  symbolList p.constants p.vars p.statements

theorem Program.length_symbols (p : Program) : p.symbols.length = p.names.length := by
  simp [symbols, symbolList, names]

end PlZero
