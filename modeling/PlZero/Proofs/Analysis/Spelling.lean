import PlZero.Analysis.Goal
import PlZero.Proofs.Syntax.Rules
import PlZero.Proofs.Syntax.Unambiguity

namespace PlZero

abbrev kinds (ts : List Token) : List TokenKind := ts.map Token.kind

-- The kinds that any number of members spell one after the other.
def Repeats {α : Type} (spell : α → List Token) (w : List TokenKind) : Prop :=
  ∃ l : List α, kinds (l.flatMap spell) = w

theorem repeats_nil {α : Type} (spell : α → List Token) : Repeats spell [] := ⟨[], rfl⟩

theorem repeats_cons_iff {α : Type} {spell : α → List Token} (hne : ∀ a, spell a ≠ [])
    {x : TokenKind} {w : List TokenKind} :
    Repeats spell (x :: w) ↔
      ∃ u v, w = u ++ v ∧ (∃ a, kinds (spell a) = x :: u) ∧ Repeats spell v := by
  constructor
  · rintro ⟨_ | ⟨a, l⟩, hl⟩
    · cases hl
    · obtain ⟨t, ts, ha⟩ := List.exists_cons_of_ne_nil (hne a)
      simp only [List.flatMap_cons, ha, List.cons_append, List.map_cons, List.map_append,
        List.cons.injEq] at hl
      exact ⟨kinds ts, _, hl.2.symm, ⟨a, by simp [ha, hl.1]⟩, l, rfl⟩
  · rintro ⟨u, v, rfl, ⟨a, ha⟩, l, hl⟩
    exact ⟨a :: l, by simp [ha, hl]⟩

-- One of the kinds `opens`, and then what is left.
def Opens (opens : List TokenKind) (Rest : List TokenKind → Prop) (w : List TokenKind) : Prop :=
  ∃ x u, w = x :: u ∧ x ∈ opens ∧ Rest u

theorem opens_cons_iff {opens : List TokenKind} {Rest : List TokenKind → Prop} {x : TokenKind}
    {w : List TokenKind} : Opens opens Rest (x :: w) ↔ x ∈ opens ∧ Rest w := by
  constructor
  · rintro ⟨y, u, hw, hy, hu⟩
    obtain ⟨rfl, rfl⟩ := List.cons.inj hw
    exact ⟨hy, hu⟩
  · rintro ⟨hx, hw⟩
    exact ⟨x, w, rfl, hx, hw⟩

-- The kinds that the tokens of a goal can be of.
def Goal.Spells : Goal → List TokenKind → Prop
  | .token kind _, w => w = [kind]
  | .constants, w => Repeats Constant.tokens w
  | .constantName, w => w = [.identifier]
  | .constantValue, w =>
      ∃ sign : Option Sign, w = kinds (sign.map Sign.token).toList ++ [.number, .semicolon]
  | .constantDigits _, w => w = [.number, .semicolon]
  | .variables, w => Repeats Variable.tokens w
  | .variableName, w => ∃ v : Variable, kinds v.tokens = .varWord :: w
  | .initializer _, w => ∃ v : Variable, kinds v.tokens = .varWord :: .identifier :: w
  | .statements, w => Repeats Statement.tokens w
  | .factor, w => ∃ f : Tree .factor, kinds f.tokens = w
  | .operand, w => ∃ o : Tree .operand, kinds o.tokens = w
  | .moreFactors, w => Repeats (Tree.linked : Tree.TermLink × Tree .factor → List Token) w
  | .moreTerms, w => Repeats (Tree.linked : Tree.SumLink × Tree .term → List Token) w

def Spells : List Task → List TokenKind → Prop
  | [], w => w = []
  | .act _ :: k, w => Spells k w
  | .see g :: k, w => ∃ u v, w = u ++ v ∧ g.Spells u ∧ Spells k v

@[simp] theorem spells_nil {w : List TokenKind} : Spells [] w ↔ w = [] := Iff.rfl

@[simp] theorem spells_act {a : Action} {k : List Task} {w : List TokenKind} :
    Spells (.act a :: k) w ↔ Spells k w := Iff.rfl

@[simp] theorem spells_emit {op : Opcode} {x : Int32} {k : List Task} {w : List TokenKind} :
    Spells (.emit op x :: k) w ↔ Spells k w := Iff.rfl

theorem spells_see {g : Goal} {k : List Task} {w : List TokenKind} :
    Spells (.see g :: k) w ↔ ∃ u v, w = u ++ v ∧ g.Spells u ∧ Spells k v := Iff.rfl

@[simp] theorem spells_token {kind : TokenKind} {inside : kind ≠ .eof} {k : List Task}
    {w : List TokenKind} : Spells (.token kind inside :: k) w ↔ ∃ v, w = kind :: v ∧ Spells k v := by
  constructor
  · rintro ⟨_, v, rfl, rfl, hk⟩
    exact ⟨v, rfl, hk⟩
  · rintro ⟨v, rfl, hk⟩
    exact ⟨[kind], v, rfl, rfl, hk⟩

@[simp] theorem spells_single {g : Goal} {w : List TokenKind} : Spells [.see g] w ↔ g.Spells w := by
  constructor
  · rintro ⟨u, _, rfl, hg, rfl⟩
    simpa using hg
  · intro hg
    exact ⟨w, [], by simp, hg, rfl⟩

@[simp] theorem spells_see_emit {g : Goal} {op : Opcode} {x : Int32} {k : List Task}
    {w : List TokenKind} : Spells (.see g :: .emit op x :: k) w ↔ Spells (.see g :: k) w := Iff.rfl

theorem spells_append {k l : List Task} {w : List TokenKind} :
    Spells (k ++ l) w ↔ ∃ u v, w = u ++ v ∧ Spells k u ∧ Spells l v := by
  induction k generalizing w with
  | nil =>
      constructor
      · intro hl
        exact ⟨[], w, rfl, rfl, hl⟩
      · rintro ⟨_, v, rfl, rfl, hl⟩
        exact hl
  | cons task k ih =>
      cases task with
      | act a => exact ih
      | see g =>
          simp only [List.cons_append, spells_see, ih]
          constructor
          · rintro ⟨u, _, rfl, hg, v, v', rfl, hk, hl⟩
            exact ⟨u ++ v, v', by simp, ⟨u, v, rfl, hg, hk⟩, hl⟩
          · rintro ⟨_, v', rfl, ⟨u, v, rfl, hg, hk⟩, hl⟩
            exact ⟨u, v ++ v', by simp, hg, v, v', rfl, hk, hl⟩

namespace Tree

theorem tokens_foldl_growTerm (a : Tree .term) (l : List (TermLink × Tree .factor)) :
    (l.foldl growTerm a).tokens = a.tokens ++ l.flatMap linked := by
  induction l generalizing a with
  | nil => simp
  | cons x l ih =>
      have hx : (growTerm a x).tokens = a.tokens ++ linked x := by rcases x with ⟨s | s, b⟩ <;> rfl
      simp [ih, hx]

theorem tokens_foldl_growSum (a : Expression) (l : List (SumLink × Tree .term)) :
    (l.foldl growSum a).tokens = a.tokens ++ l.flatMap linked := by
  induction l generalizing a with
  | nil => simp
  | cons x l ih =>
      have hx : (growSum a x).tokens = a.tokens ++ linked x := by rcases x with ⟨s | s, b⟩ <;> rfl
      simp [ih, hx]

end Tree

theorem spells_term {w : List TokenKind} :
    Spells [.see .factor, .see .moreFactors] w ↔ ∃ t : Tree .term, kinds t.tokens = w := by
  simp only [spells_see, Goal.Spells, spells_nil]
  constructor
  · rintro ⟨_, _, rfl, ⟨f, rfl⟩, _, _, rfl, ⟨l, rfl⟩, rfl⟩
    exact ⟨l.foldl Tree.growTerm (.single f), by simp [Tree.tokens_foldl_growTerm, Tree.tokens]⟩
  · rintro ⟨t, rfl⟩
    obtain ⟨f, l, -, ht⟩ := Tree.exists_growTerm t
    exact ⟨_, _, by rw [ht, kinds, List.map_append], ⟨f, rfl⟩, _, [], by simp, ⟨l, rfl⟩, rfl⟩

theorem spells_expression {w : List TokenKind} :
    Spells Task.expression w ↔ ∃ e : Expression, kinds e.tokens = w := by
  have hsplit : Task.expression = [.see .factor, .see .moreFactors] ++ [.see .moreTerms] := rfl
  simp only [hsplit, spells_append, spells_term]
  simp only [spells_see, Goal.Spells, spells_nil]
  constructor
  · rintro ⟨_, _, rfl, ⟨t, rfl⟩, _, _, rfl, ⟨l, rfl⟩, rfl⟩
    exact ⟨l.foldl Tree.growSum (.lone t), by simp [Tree.tokens_foldl_growSum, Tree.tokens]⟩
  · rintro ⟨e, rfl⟩
    obtain ⟨t, l, -, he⟩ := Tree.exists_growSum e
    exact ⟨_, _, by rw [he, kinds, List.map_append], ⟨t, rfl⟩, _, [], by simp, ⟨l, rfl⟩, rfl⟩

theorem spells_expression_append {k : List Task} {w : List TokenKind} :
    Spells (Task.expression ++ k) w ↔ ∃ (e : Expression) (v : List TokenKind),
      w = kinds e.tokens ++ v ∧ Spells k v := by
  simp only [spells_append, spells_expression]
  constructor
  · rintro ⟨_, v, rfl, ⟨e, rfl⟩, hk⟩
    exact ⟨e, v, rfl, hk⟩
  · rintro ⟨e, v, rfl, hk⟩
    exact ⟨_, v, rfl, ⟨e, rfl⟩, hk⟩

theorem Statement.tokens_ne_nil (s : Statement) : s.tokens ≠ [] := by
  obtain ⟨t, ts, hs, -⟩ := s.head_tokens
  simp [hs]

-- Any leaf of a kind will do, since only kinds are spelled.
def Leaf.any (kind : TokenKind) : Leaf kind := .sample kind "" 0 0

namespace Goal

theorem spells_operand {w : List TokenKind} :
    operand.Spells w ↔ w = [.identifier] ∨ w = [.number] ∨
      ∃ e : Expression, w = .leftParen :: (kinds e.tokens ++ [.rightParen]) := by
  constructor
  · rintro ⟨o, rfl⟩
    cases o with
    | name t => exact .inl (by simp [Tree.tokens, t.2])
    | number t => exact .inr (.inl (by simp [Tree.tokens, t.2]))
    | group l e r => exact .inr (.inr ⟨e, by simp [Tree.tokens, l.2, r.2]⟩)
  · rintro (rfl | rfl | ⟨e, rfl⟩)
    · exact ⟨.name (.any _), rfl⟩
    · exact ⟨.number (.any _), rfl⟩
    · exact ⟨.group (.any _) e (.any _), by simp [Tree.tokens, Leaf.any, Leaf.sample]⟩

theorem spells_factor {w : List TokenKind} :
    factor.Spells w ↔ operand.Spells w ∨ (∃ u, w = .plus :: u ∧ operand.Spells u) ∨
      ∃ u, w = .minus :: u ∧ operand.Spells u := by
  constructor
  · rintro ⟨f, rfl⟩
    cases f with
    | plain o => exact .inl ⟨o, rfl⟩
    | positive s o => exact .inr (.inl ⟨_, by simp [Tree.tokens, s.2], o, rfl⟩)
    | negative s o => exact .inr (.inr ⟨_, by simp [Tree.tokens, s.2], o, rfl⟩)
  · rintro (⟨o, rfl⟩ | ⟨_, rfl, o, rfl⟩ | ⟨_, rfl, o, rfl⟩)
    · exact ⟨.plain o, rfl⟩
    · exact ⟨.positive (.any _) o, rfl⟩
    · exact ⟨.negative (.any _) o, rfl⟩

theorem spells_constantValue {w : List TokenKind} :
    constantValue.Spells w ↔ w = [.number, .semicolon] ∨ w = [.plus, .number, .semicolon] ∨
      w = [.minus, .number, .semicolon] := by
  constructor
  · rintro ⟨_ | s | s, rfl⟩
    · exact .inl rfl
    · exact .inr (.inl (by simp [Sign.token, s.2]))
    · exact .inr (.inr (by simp [Sign.token, s.2]))
  · rintro (rfl | rfl | rfl)
    · exact ⟨none, rfl⟩
    · exact ⟨some (.plus (.any _)), rfl⟩
    · exact ⟨some (.minus (.any _)), rfl⟩

theorem spells_constantDigits {negative : Bool} {w : List TokenKind} :
    (constantDigits negative).Spells w ↔ w = [.number, .semicolon] := Iff.rfl

theorem spells_initializer {name : Token} {w : List TokenKind} :
    (initializer name).Spells w ↔ w = [.semicolon] ∨
      ∃ e : Expression, w = .equals :: (kinds e.tokens ++ [.semicolon]) := by
  constructor
  · rintro ⟨⟨word, ident, _ | ⟨equals, e⟩, stop⟩, hv⟩
    · exact .inl (by simpa [Variable.tokens, word.2, ident.2, stop.2] using hv.symm)
    · exact .inr ⟨e, by simpa [Variable.tokens, word.2, ident.2, equals.2, stop.2] using hv.symm⟩
  · rintro (rfl | ⟨e, rfl⟩)
    · exact ⟨⟨.any _, .any _, none, .any _⟩, rfl⟩
    · exact ⟨⟨.any _, .any _, some (.any _, e), .any _⟩,
        by simp [Variable.tokens, Leaf.any, Leaf.sample]⟩

theorem spells_variableName (name : Token) {w : List TokenKind} :
    variableName.Spells w ↔ ∃ u, w = .identifier :: u ∧ (initializer name).Spells u := by
  constructor
  · rintro ⟨v, hv⟩
    have hw : w = .identifier :: w.tail := by
      simp only [Variable.tokens, List.cons_append, List.nil_append, List.map_cons,
        List.cons.injEq] at hv
      rw [← hv.2, v.ident.2]
      rfl
    exact ⟨w.tail, hw, v, by rw [hv, ← hw]⟩
  · rintro ⟨u, rfl, v, hv⟩
    exact ⟨v, hv⟩

theorem spells_constant {w : List TokenKind} :
    (∃ c : Constant, kinds c.tokens = w) ↔ Opens [.constWord]
      (PlZero.Spells [.see .constantName, .token .equals, .see .constantValue]) w := by
  constructor
  · rintro ⟨c, rfl⟩
    have hrest : PlZero.Spells [.token .equals, .see .constantValue]
        (.equals :: (kinds (c.sign.map Sign.token).toList ++ [.number, .semicolon])) :=
      spells_token.mpr ⟨_, rfl, spells_single.mpr ⟨c.sign, rfl⟩⟩
    refine ⟨.constWord, _, ?_, by simp, [.identifier], _, rfl, rfl, hrest⟩
    simp [Constant.tokens, c.word.2, c.ident.2, c.equals.2, c.number.2, c.stop.2]
  · rintro ⟨x, _, rfl, hx, _, _, rfl, rfl, hrest⟩
    obtain rfl := List.mem_singleton.mp hx
    obtain ⟨_, rfl, hvalue⟩ := spells_token.mp hrest
    obtain ⟨sign, rfl⟩ := spells_single.mp hvalue
    exact ⟨⟨.any _, .any _, .any _, sign, .any _, .any _⟩,
      by simp [Constant.tokens, Leaf.any, Leaf.sample]⟩

theorem spells_variable {w : List TokenKind} :
    (∃ v : Variable, kinds v.tokens = w) ↔
      Opens [.varWord] (PlZero.Spells [.see .variableName]) w := by
  constructor
  · rintro ⟨v, rfl⟩
    have hv : kinds v.tokens = .varWord :: (kinds v.tokens).tail := by simp [Variable.tokens, v.word.2]
    exact ⟨.varWord, _, hv, by simp, spells_single.mpr ⟨v, hv⟩⟩
  · rintro ⟨x, u, rfl, hx, hu⟩
    obtain rfl := List.mem_singleton.mp hx
    exact spells_single.mp hu

theorem spells_statement {w : List TokenKind} :
    (∃ s : Statement, kinds s.tokens = w) ↔
      (∃ e : Expression, w = .identifier :: .equals :: (kinds e.tokens ++ [.semicolon])) ∨
      (∃ e : Expression, w = .printWord :: .leftParen :: (kinds e.tokens ++ [.rightParen, .semicolon])) ∨
      w = [.semicolon] := by
  constructor
  · rintro ⟨s, rfl⟩
    cases s with
    | assign ident equals e stop =>
        exact .inl ⟨e, by simp [Statement.tokens, ident.2, equals.2, stop.2]⟩
    | print word l e r stop =>
        exact .inr (.inl ⟨e, by simp [Statement.tokens, word.2, l.2, r.2, stop.2]⟩)
    | empty stop => exact .inr (.inr (by simp [Statement.tokens, stop.2]))
  · rintro (⟨e, rfl⟩ | ⟨e, rfl⟩ | rfl)
    · exact ⟨.assign (.any _) (.any _) e (.any _), by simp [Statement.tokens, Leaf.any, Leaf.sample]⟩
    · exact ⟨.print (.any _) (.any _) e (.any _) (.any _),
        by simp [Statement.tokens, Leaf.any, Leaf.sample]⟩
    · exact ⟨.empty (.any _), rfl⟩

theorem spells_link {j l : TokenKind} {c : Category} {w : List TokenKind} :
    (∃ x : (Leaf j ⊕ Leaf l) × Tree c, kinds (Tree.linked x) = w) ↔
      Opens [j, l] (fun u => ∃ t : Tree c, kinds t.tokens = u) w := by
  constructor
  · rintro ⟨⟨s | s, t⟩, rfl⟩
    · exact ⟨j, _, by simp [Tree.linked, Tree.linkToken, s.2], by simp, t, rfl⟩
    · exact ⟨l, _, by simp [Tree.linked, Tree.linkToken, s.2], by simp, t, rfl⟩
  · rintro ⟨x, _, rfl, hx, t, rfl⟩
    simp only [List.mem_cons, List.not_mem_nil, or_false] at hx
    rcases hx with rfl | rfl
    · exact ⟨(.inl (.any _), t), rfl⟩
    · exact ⟨(.inr (.any _), t), rfl⟩

end Goal

end PlZero
