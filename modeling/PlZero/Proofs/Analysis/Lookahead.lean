import PlZero.Proofs.Analysis.Prediction

namespace PlZero

-- The kinds of what is still to come when the tasks are left, to the end of the text.
def Completes (tasks : List Task) (w : List TokenKind) : Prop := ∃ u, w = u ++ [.eof] ∧ Spells tasks u

def Begins (tasks : List Task) (x : TokenKind) : Prop := ∃ w, Completes tasks (x :: w)

theorem completes_nil_cons {x : TokenKind} {w : List TokenKind} :
    Completes [] (x :: w) ↔ x = .eof ∧ w = [] := by
  simp [Completes]

theorem completes_append {k l : List Task} {w : List TokenKind} :
    Completes (k ++ l) w ↔ ∃ u v, w = u ++ v ∧ Spells k u ∧ Completes l v := by
  constructor
  · rintro ⟨_, rfl, hw⟩
    obtain ⟨u, v, rfl, hk, hl⟩ := spells_append.mp hw
    exact ⟨u, v ++ [.eof], by simp, hk, v, rfl, hl⟩
  · rintro ⟨u, _, rfl, hk, v, rfl, hl⟩
    exact ⟨u ++ v, by simp, spells_append.mpr ⟨u, v, rfl, hk, hl⟩⟩

theorem completes_see {g : Goal} {k : List Task} {w : List TokenKind} :
    Completes (.see g :: k) w ↔ ∃ u v, w = u ++ v ∧ g.Spells u ∧ Completes k v := by
  rw [← List.singleton_append, completes_append]
  simp only [spells_single]

theorem completes_see_cons {g : Goal} {k : List Task} {x : TokenKind} {w : List TokenKind} :
    Completes (.see g :: k) (x :: w) ↔
      (g.Spells [] ∧ Completes k (x :: w)) ∨ ∃ u v, w = u ++ v ∧ g.Spells (x :: u) ∧ Completes k v := by
  rw [completes_see]
  constructor
  · rintro ⟨_ | ⟨y, u⟩, v, hw, hg, hk⟩
    · exact .inl ⟨hg, hw ▸ hk⟩
    · obtain ⟨rfl, rfl⟩ := List.cons.inj hw
      exact .inr ⟨u, v, rfl, hg, hk⟩
  · rintro (⟨hg, hk⟩ | ⟨u, v, rfl, hg, hk⟩)
    · exact ⟨[], x :: w, rfl, hg, hk⟩
    · exact ⟨x :: u, v, rfl, hg, hk⟩

theorem begins_see {g : Goal} {k : List Task} {x : TokenKind} (h : Begins (.see g :: k) x) :
    (∃ u, g.Spells (x :: u)) ∨ Begins k x := by
  obtain ⟨w, hw⟩ := h
  rcases completes_see_cons.mp hw with ⟨-, hk⟩ | ⟨u, v, -, hg, -⟩
  · exact .inr ⟨w, hk⟩
  · exact .inl ⟨u, hg⟩

theorem begins_token {kind x : TokenKind} {inside : kind ≠ .eof} {k : List Task}
    (h : Begins (.token kind inside :: k) x) : x = kind := by
  obtain ⟨w, u, hu, hspells⟩ := h
  obtain ⟨v, rfl, -⟩ := spells_token.mp hspells
  exact (List.cons.inj hu).1

theorem Goal.exists_spells (g : Goal) : ∃ w, g.Spells w := by
  obtain ⟨e⟩ := exists_expression
  cases g with
  | token kind => exact ⟨_, rfl⟩
  | constants | «variables» | statements | moreFactors | moreTerms => exact ⟨[], repeats_nil _⟩
  | constantName | constantDigits => exact ⟨_, rfl⟩
  | constantValue => exact ⟨_, none, rfl⟩
  | variableName => exact ⟨_, ⟨.any _, .any _, none, .any _⟩, rfl⟩
  | initializer name => exact ⟨_, ⟨.any _, .any _, none, .any _⟩, rfl⟩
  | factor => exact ⟨_, .plain (.number (.any _)), rfl⟩
  | operand => exact ⟨_, .number (.any _), rfl⟩

theorem exists_spells (tasks : List Task) : ∃ w, Spells tasks w := by
  induction tasks with
  | nil => exact ⟨[], rfl⟩
  | cons task tasks ih =>
      obtain ⟨w, hw⟩ := ih
      cases task with
      | act a => exact ⟨w, hw⟩
      | see g =>
          obtain ⟨u, hu⟩ := g.exists_spells
          exact ⟨u ++ w, u, w, rfl, hu, hw⟩

-- The kinds by which a goal that can be left out goes on, so that what follows it must not begin with
-- one. A sum goes on by the signs of its last term too.
def Goal.continues : Goal → TokenKind → Bool
  | .constants, x => x == .constWord
  | .variables, x => x == .varWord
  | .statements, x => Statement.starts x
  | .moreFactors, x => Category.term.continues x
  | .moreTerms, x => Category.expression.continues x
  | _, _ => false

theorem Statement.starts_of_spells {x : TokenKind} {u : List TokenKind}
    (h : Goal.statements.Spells (x :: u)) : starts x = true := by
  obtain ⟨v, w, -, ⟨s, hs⟩, -⟩ := (repeats_cons_iff tokens_ne_nil).mp h
  obtain ⟨t, ts, hts, ht⟩ := s.head_tokens
  rw [hts, kinds, List.map_cons] at hs
  exact (List.cons.inj hs).1 ▸ ht

theorem mem_of_opens {α : Type} {spell : α → List Token} {opens : List TokenKind}
    {Rest : List TokenKind → Prop} (hform : ∀ w, (∃ a, kinds (spell a) = w) ↔ Opens opens Rest w)
    {x : TokenKind} {u : List TokenKind} (h : Repeats spell (x :: u)) : x ∈ opens := by
  obtain ⟨v, w, -, hv, -⟩ := (repeats_cons_iff (ne_nil_of_opens hform)).mp h
  exact (opens_cons_iff.mp ((hform _).mp hv)).1

theorem Goal.continues_of_spells {g : Goal} {x : TokenKind} {u : List TokenKind} (hnil : g.Spells [])
    (hg : g.Spells (x :: u)) : g.continues x = true := by
  cases g with
  | constants =>
      have hx := mem_of_opens (fun _ => spells_constant) hg
      simpa [continues] using hx
  | «variables» =>
      have hx := mem_of_opens (fun _ => spells_variable) hg
      simpa [continues] using hx
  | statements => exact Statement.starts_of_spells hg
  | moreFactors =>
      have hx := mem_of_opens (fun _ => spells_link) hg
      simpa [continues, Category.continues] using hx
  | moreTerms =>
      have hx := mem_of_opens (fun _ => spells_link) hg
      simp only [List.mem_cons, List.not_mem_nil, or_false] at hx
      rcases hx with rfl | rfl <;> rfl
  | token kind | constantName | constantDigits => cases hnil
  | constantValue => simp [spells_constantValue] at hnil
  | variableName => simp [spells_variableName (Leaf.any .identifier).1] at hnil
  | initializer name => simp [spells_initializer] at hnil
  | factor => simp [spells_factor, spells_operand] at hnil
  | operand => simp [spells_operand] at hnil

-- No token can both go on with a goal and begin what comes after it.
def Orderly : List Task → Prop
  | [] => True
  | .act _ :: k => Orderly k
  | .see g :: k => (∀ x, Begins k x → g.continues x = false) ∧ Orderly k

namespace Orderly

variable {k : List Task}

@[simp] theorem act_cons {a : Action} : Orderly (.act a :: k) ↔ Orderly k := Iff.rfl

@[simp] theorem emit_cons {op : Opcode} {x : Int32} : Orderly (.emit op x :: k) ↔ Orderly k := Iff.rfl

theorem plain_cons {g : Goal} (h : ∀ x, g.continues x = false) : Orderly (.see g :: k) ↔ Orderly k := by
  simp [Orderly, h]

@[simp] theorem token_cons {kind : TokenKind} {inside : kind ≠ .eof} :
    Orderly (.token kind inside :: k) ↔ Orderly k := plain_cons fun _ => rfl

theorem factors_cons (h : Orderly (.see .moreTerms :: k)) :
    Orderly (.see .moreFactors :: .see .moreTerms :: k) := by
  refine ⟨fun x hx => ?_, h⟩
  rcases begins_see hx with ⟨u, hu⟩ | hx
  · have hlink := mem_of_opens (fun _ => Goal.spells_link) hu
    simp only [List.mem_cons, List.not_mem_nil, or_false] at hlink
    rcases hlink with rfl | rfl <;> rfl
  · have hsum := h.1 x hx
    simp_all [Goal.continues, Category.continues]

theorem expression_append {kind : TokenKind} {inside : kind ≠ .eof}
    (hsign : Category.expression.continues kind = false) (h : Orderly k) :
    Orderly (Task.expression ++ .token kind inside :: k) := by
  have hterms : Orderly (.see .moreTerms :: .token kind inside :: k) := by
    refine ⟨fun x hx => ?_, token_cons.mpr h⟩
    rw [begins_token hx]
    exact hsign
  exact (plain_cons fun _ => rfl).mpr hterms.factors_cons

theorem program : Orderly Task.program := by
  have hstatements {x : TokenKind} (hx : Begins [.see .statements, .token .endWord] x) :
      Statement.starts x = true ∨ x = .endWord := by
    rcases begins_see hx with ⟨u, hu⟩ | hx
    · exact .inl (Statement.starts_of_spells hu)
    · exact .inr (begins_token hx)
  have hvariables {x : TokenKind}
      (hx : Begins [.see .variables, .see .statements, .token .endWord] x) :
      x = .varWord ∨ Statement.starts x = true ∨ x = .endWord := by
    rcases begins_see hx with ⟨u, hu⟩ | hx
    · exact .inl (List.mem_singleton.mp (mem_of_opens (fun _ => Goal.spells_variable) hu))
    · exact .inr (hstatements hx)
  refine token_cons.mpr ⟨fun x hx => ?_, fun x hx => ?_, fun x hx => ?_, token_cons.mpr trivial⟩
  · simp only [Goal.continues, beq_eq_false_iff_ne]
    rintro rfl
    rcases hvariables hx with h | h | h <;> cases h
  · simp only [Goal.continues, beq_eq_false_iff_ne]
    rintro rfl
    rcases hstatements hx with h | h <;> cases h
  · rw [begins_token hx]
    rfl

end Orderly

namespace Goal

variable {s : SymbolTable} {t : Token} {k new : List Task}

theorem reactOperand_orderly (h : reactOperand s t = .take new) (hk : Orderly k) :
    Orderly (new ++ k) := by
  unfold reactOperand at h
  split at h
  · split at h <;> cases h
    exact hk
  · cases h
    exact hk
  · cases h
    exact Orderly.expression_append rfl hk
  · cases h

theorem reactStatement_orderly (h : reactStatement s t = .take new)
    (hk : Orderly (.see .statements :: k)) : Orderly (new ++ k) := by
  unfold reactStatement at h
  split at h
  · split at h <;> cases h
    next symbol _ =>
      have hvalue : Orderly (Task.expression ++ .token .semicolon :: .emit .sto (slot symbol) ::
          .see .statements :: k) := Orderly.expression_append rfl hk
      exact Orderly.token_cons.mpr hvalue
  · cases h
    have hvalue : Orderly (Task.expression ++ .token .rightParen :: .token .semicolon :: .emit .wrt ::
        .see .statements :: k) := Orderly.expression_append rfl (Orderly.token_cons.mpr hk)
    exact Orderly.token_cons.mpr hvalue
  · cases h
    exact hk
  · cases h

theorem react_orderly {g : Goal} (h : g.react s t = .take new) (hk : Orderly (.see g :: k)) :
    Orderly (new ++ k) := by
  have hrest : Orderly k := hk.2
  cases g with
  | statements => exact reactStatement_orderly h hk
  | operand => exact reactOperand_orderly h hrest
  | factor =>
      simp only [react] at h
      split at h
      · cases h
        simpa [Orderly, continues] using hrest
      · cases h
        simpa [Orderly, continues] using hrest
      · exact reactOperand_orderly h hrest
  | token kind =>
      simp only [react] at h
      split at h <;> cases h
      exact hrest
  | constants =>
      simp only [react] at h
      split at h <;> cases h
      exact ⟨by simp [continues], Orderly.token_cons.mpr ⟨by simp [continues], hk⟩⟩
  | «variables» =>
      simp only [react] at h
      split at h <;> cases h
      exact ⟨by simp [continues], hk⟩
  | constantName | constantDigits | constantValue | variableName =>
      simp only [react] at h
      split at h <;> cases h
      all_goals simpa [Orderly, continues, Task.constantEnd] using hrest
  | initializer name =>
      simp only [react] at h
      split at h <;> cases h
      · exact Orderly.expression_append rfl hrest
      · exact hrest
  | moreFactors =>
      simp only [react] at h
      split at h <;> cases h
      · exact ⟨by simp [continues], hk⟩
      · exact ⟨by simp [continues], hk⟩
  | moreTerms =>
      simp only [react] at h
      split at h <;> cases h
      · exact ⟨by simp [continues], hk.factors_cons⟩
      · exact ⟨by simp [continues], hk.factors_cons⟩

end Goal

theorem completes_take {s : SymbolTable} {t : Token} {g : Goal} {new k : List Task}
    (h : g.react s t = .take new) (hk : Orderly (.see g :: k)) (w : List TokenKind) :
    Completes (.see g :: k) (t.kind :: w) ↔ Completes (new ++ k) w := by
  have hfits := g.react_fits s t
  rw [h] at hfits
  simp only [completes_see_cons, hfits _, completes_append]
  refine or_iff_right ?_
  rintro ⟨hnil, hlater⟩
  obtain ⟨u, hu⟩ := exists_spells new
  have hcontinues : g.continues t.kind = true := Goal.continues_of_spells hnil ((hfits u).mpr hu)
  rw [hk.1 t.kind ⟨w, hlater⟩] at hcontinues
  cases hcontinues

end PlZero
