import PlZero.Proofs.Analysis.Spelling

namespace PlZero

-- What a reaction says about the kinds that the goal spells.
def Reaction.Fits (g : Goal) (t : Token) : Reaction → Prop
  | .take new => ∀ w, g.Spells (t.kind :: w) ↔ Spells new w
  | .pass => g.Spells [] ∧ ∀ w, ¬ g.Spells (t.kind :: w)
  | .refuse e _ => ∀ expected found, e.cause = .expectedToken expected found →
      e = unexpected t expected ∧ expected ≠ [] ∧ ¬ g.Spells [] ∧ (∀ w, ¬ g.Spells (t.kind :: w)) ∧
        ∀ x ∈ expected, ∃ w, g.Spells (x :: w)

theorem Reaction.fits_unexpected {g : Goal} {t : Token} {expected : List TokenKind} {taken : Bool}
    (hne : expected ≠ []) (hnil : ¬ g.Spells []) (hno : ∀ w, ¬ g.Spells (t.kind :: w))
    (hyes : ∀ x ∈ expected, ∃ w, g.Spells (x :: w)) :
    (Reaction.refuse (unexpected t expected) taken).Fits g t := by
  intro expected' found hcause
  cases hcause
  exact ⟨rfl, hne, hnil, hno, hyes⟩

theorem Reaction.fits_other {g : Goal} {t : Token} {kind : TokenKind} {rest : List TokenKind}
    {taken : Bool} (hg : ∀ w, g.Spells w ↔ w = kind :: rest) (hkind : t.kind ≠ kind) :
    (Reaction.refuse (unexpected t [kind]) taken).Fits g t := by
  refine fits_unexpected (by simp) (by simp [hg]) (fun w hw => ?_) (by simp [hg])
  exact hkind (List.cons.inj ((hg _).mp hw)).1

theorem Reaction.fits_repeat {α : Type} {spell : α → List Token} {g : Goal} {t : Token}
    (new : List Task) (hg : ∀ w, g.Spells w ↔ Repeats spell w) (hne : ∀ a, spell a ≠ [])
    (hnew : ∀ u, (∃ a, kinds (spell a) = t.kind :: u) ↔ Spells new u) :
    (Reaction.take (new ++ [.see g])).Fits g t := by
  intro w
  simp only [hg, repeats_cons_iff hne, hnew, spells_append, spells_single]

theorem Reaction.fits_end {α : Type} {spell : α → List Token} {g : Goal} {t : Token}
    (hg : ∀ w, g.Spells w ↔ Repeats spell w) (hne : ∀ a, spell a ≠ [])
    (hno : ∀ u, ¬ ∃ a, kinds (spell a) = t.kind :: u) : Reaction.pass.Fits g t := by
  refine ⟨(hg []).mpr (repeats_nil spell), fun w => ?_⟩
  rw [hg, repeats_cons_iff hne]
  rintro ⟨u, v, -, hu, -⟩
  exact hno u hu

section opening

variable {α : Type} {spell : α → List Token} {g : Goal} {t : Token} {opens : List TokenKind}
  {Rest : List TokenKind → Prop}

theorem ne_nil_of_opens (hform : ∀ w, (∃ a, kinds (spell a) = w) ↔ Opens opens Rest w) (a : α) :
    spell a ≠ [] := by
  intro ha
  obtain ⟨x, u, hu, -⟩ := (hform []).mp ⟨a, by simp [ha]⟩
  cases hu

theorem Reaction.fits_opening (new : List Task) (hg : ∀ w, g.Spells w ↔ Repeats spell w)
    (hform : ∀ w, (∃ a, kinds (spell a) = w) ↔ Opens opens Rest w)
    (hnew : ∀ u, Spells new u ↔ Rest u) (hkind : t.kind ∈ opens) :
    (Reaction.take (new ++ [.see g])).Fits g t := by
  refine fits_repeat new hg (ne_nil_of_opens hform) fun u => ?_
  rw [hform, hnew, opens_cons_iff, and_iff_right hkind]

theorem Reaction.fits_no_opening (hg : ∀ w, g.Spells w ↔ Repeats spell w)
    (hform : ∀ w, (∃ a, kinds (spell a) = w) ↔ Opens opens Rest w) (hkind : t.kind ∉ opens) :
    Reaction.pass.Fits g t := by
  refine fits_end hg (ne_nil_of_opens hform) fun u => ?_
  rw [hform, opens_cons_iff]
  exact fun h => hkind h.1

end opening

theorem SymbolTable.source_error_ne {s : SymbolTable} {t : Token} {e : CompileError}
    (h : s.source t = .error e) (expected : List TokenKind) (found : Token) :
    e.cause ≠ .expectedToken expected found := by
  unfold source at h
  split at h
  · cases h
    simp
  · split at h <;> cases h
    simp

theorem SymbolTable.target_error_ne {s : SymbolTable} {t : Token} {e : CompileError}
    (h : s.target t = .error e) (expected : List TokenKind) (found : Token) :
    e.cause ≠ .expectedToken expected found := by
  unfold target at h
  split at h
  · cases h
    simp
  · split at h <;> cases h
    simp

namespace Goal

variable {s : SymbolTable} {t : Token}

theorem exists_expression : Nonempty Expression := ⟨.lone (.single (.plain (.number (.any _))))⟩

theorem reactOperand_fits {g : Goal} (hg : ∀ w, g.Spells (t.kind :: w) ↔ operand.Spells (t.kind :: w))
    (hnil : ¬ g.Spells []) (hmore : ∀ w, operand.Spells w → g.Spells w) :
    (reactOperand s t).Fits g t := by
  unfold reactOperand
  split
  · next hkind =>
      split
      · intro w
        rw [hg, spells_operand]
        simp [hkind]
      · next e he =>
          intro expected found hcause
          exact absurd hcause (SymbolTable.source_error_ne he expected found)
  · next hkind =>
      intro w
      rw [hg, spells_operand]
      simp [hkind]
  · next hkind =>
      intro w
      rw [hg, spells_operand, spells_expression_append]
      simp [hkind]
  · next hname hnumber hparen =>
      refine Reaction.fits_unexpected (by simp) hnil (fun w => ?_) ?_
      · rw [hg, spells_operand]
        rintro (hw | hw | ⟨e, hw⟩)
        · exact hname (List.cons.inj hw).1
        · exact hnumber (List.cons.inj hw).1
        · exact hparen (List.cons.inj hw).1
      · obtain ⟨e⟩ := exists_expression
        simp only [List.mem_cons, List.not_mem_nil, or_false]
        rintro x (rfl | rfl | rfl)
        · exact ⟨[], hmore _ (spells_operand.mpr (by simp))⟩
        · exact ⟨[], hmore _ (spells_operand.mpr (by simp))⟩
        · exact ⟨_, hmore _ (spells_operand.mpr (.inr (.inr ⟨e, rfl⟩)))⟩

theorem reactStatement_fits : (reactStatement s t).Fits .statements t := by
  have hrepeats (w : List TokenKind) : statements.Spells w ↔ Repeats Statement.tokens w := Iff.rfl
  unfold reactStatement
  split
  · next hkind =>
      split
      · next symbol _ =>
          refine Reaction.fits_repeat ([.act (.mark t), .token .equals] ++ Task.expression ++
            [.token .semicolon, .emit .sto (slot symbol)]) hrepeats Statement.tokens_ne_nil fun u => ?_
          simp only [spells_statement, hkind, List.cons_append, List.nil_append,
            spells_act, spells_token, spells_expression_append, spells_emit, spells_nil]
          constructor
          · rintro (⟨e, hu⟩ | ⟨e, hu⟩ | hu)
            · exact ⟨_, (List.cons.inj hu).2, e, _, rfl, _, rfl, rfl⟩
            · cases hu
            · cases hu
          · rintro ⟨_, rfl, e, _, rfl, _, rfl, rfl⟩
            exact .inl ⟨e, rfl⟩
      · next e he =>
          intro expected found hcause
          exact absurd hcause (SymbolTable.target_error_ne he expected found)
  · next hkind =>
      refine Reaction.fits_repeat ([.token .leftParen] ++ Task.expression ++
        [.token .rightParen, .token .semicolon, .emit .wrt]) hrepeats Statement.tokens_ne_nil fun u => ?_
      simp only [spells_statement, hkind, List.cons_append, List.nil_append,
        spells_token, spells_expression_append, spells_emit, spells_nil]
      constructor
      · rintro (⟨e, hu⟩ | ⟨e, hu⟩ | hu)
        · cases hu
        · exact ⟨_, (List.cons.inj hu).2, e, _, rfl, _, rfl, _, rfl, rfl⟩
        · cases hu
      · rintro ⟨_, rfl, e, _, rfl, _, rfl, _, rfl, rfl⟩
        exact .inr (.inl ⟨e, rfl⟩)
  · next hkind =>
      refine Reaction.fits_repeat [] hrepeats Statement.tokens_ne_nil fun u => ?_
      simp [spells_statement, hkind]
  · next hname hprint hstop =>
      refine Reaction.fits_end hrepeats Statement.tokens_ne_nil fun u => ?_
      rw [spells_statement]
      rintro (⟨e, hu⟩ | ⟨e, hu⟩ | hu)
      · exact hname (List.cons.inj hu).1
      · exact hprint (List.cons.inj hu).1
      · exact hstop (List.cons.inj hu).1

theorem react_fits (s : SymbolTable) (t : Token) (g : Goal) : (g.react s t).Fits g t := by
  cases g with
  | statements => exact reactStatement_fits
  | operand =>
      refine reactOperand_fits (fun _ => Iff.rfl) ?_ fun _ hw => hw
      simp [spells_operand]
  | factor =>
      simp only [react]
      split
      · next hkind =>
          intro w
          simp [spells_factor, spells_operand, hkind]
      · next hkind =>
          intro w
          simp [spells_factor, spells_operand, hkind]
      · next hminus hplus =>
          refine reactOperand_fits (fun w => ?_) (by simp [spells_factor, spells_operand])
            fun w hw => spells_factor.mpr (.inl hw)
          rw [spells_factor, or_iff_left]
          rintro (⟨u, hu, -⟩ | ⟨u, hu, -⟩)
          · exact hplus (List.cons.inj hu).1
          · exact hminus (List.cons.inj hu).1
  | token kind =>
      simp only [react]
      split
      · next hkind =>
          intro w
          simp [Goal.Spells, hkind]
      · next hkind => exact Reaction.fits_other (fun _ => Iff.rfl) hkind
  | constantName =>
      simp only [react]
      split
      · next hkind =>
          intro w
          simp [Goal.Spells, hkind]
      · next hkind => exact Reaction.fits_other (fun _ => Iff.rfl) hkind
  | constantDigits negative =>
      simp only [react]
      split
      · next hkind =>
          intro w
          simp [Goal.Spells, hkind, Task.constantEnd]
      · next hkind => exact Reaction.fits_other (fun _ => Iff.rfl) hkind
  | constantValue =>
      simp only [react]
      split
      · next hkind =>
          intro w
          simp [spells_constantValue, spells_constantDigits, hkind]
      · next hkind =>
          intro w
          simp [spells_constantValue, spells_constantDigits, hkind]
      · next hkind =>
          intro w
          simp [spells_constantValue, hkind, Task.constantEnd]
      · next hplus hminus hnumber =>
          refine Reaction.fits_unexpected (by simp) (by simp [spells_constantValue]) (fun w => ?_)
            (by simp [spells_constantValue])
          rw [spells_constantValue]
          rintro (hw | hw | hw)
          · exact hnumber (List.cons.inj hw).1
          · exact hplus (List.cons.inj hw).1
          · exact hminus (List.cons.inj hw).1
  | constants =>
      simp only [react]
      split
      · next hkind =>
          exact Reaction.fits_opening [.see .constantName, .token .equals, .see .constantValue]
            (fun _ => Iff.rfl) (fun _ => spells_constant) (fun _ => Iff.rfl) (by simp [hkind])
      · next hkind =>
          exact Reaction.fits_no_opening (fun _ => Iff.rfl) (fun _ => spells_constant) (by simpa using hkind)
  | «variables» =>
      simp only [react]
      split
      · next hkind =>
          exact Reaction.fits_opening [.see .variableName] (fun _ => Iff.rfl) (fun _ => spells_variable)
            (fun _ => Iff.rfl) (by simp [hkind])
      · next hkind =>
          exact Reaction.fits_no_opening (fun _ => Iff.rfl) (fun _ => spells_variable) (by simpa using hkind)
  | variableName =>
      simp only [react]
      split
      · next hkind =>
          intro w
          simp [spells_variableName t, hkind]
      · next hkind =>
          refine Reaction.fits_unexpected (by simp) (by simp [spells_variableName t]) (fun w => ?_)
            (by simp [spells_variableName t, spells_initializer])
          rw [spells_variableName t]
          rintro ⟨u, hw, -⟩
          exact hkind (List.cons.inj hw).1
  | initializer name =>
      simp only [react]
      split
      · next hkind =>
          intro w
          simp [spells_initializer, hkind, spells_expression_append]
      · next hkind =>
          intro w
          simp [spells_initializer, hkind]
      · next hequals hstop =>
          refine Reaction.fits_unexpected (by simp) (by simp [spells_initializer]) (fun w => ?_)
            (by simp [spells_initializer])
          rw [spells_initializer]
          rintro (hw | ⟨e, hw⟩)
          · exact hstop (List.cons.inj hw).1
          · exact hequals (List.cons.inj hw).1
  | moreFactors =>
      have hfactor (op : Opcode) (u : List TokenKind) :
          PlZero.Spells [.see .factor, .emit op] u ↔ ∃ f : Tree .factor, kinds f.tokens = u :=
        spells_see_emit.trans spells_single
      simp only [react]
      split
      · next hkind =>
          exact Reaction.fits_opening [.see .factor, .emit .mul] (fun _ => Iff.rfl)
            (fun _ => spells_link) (hfactor _) (by simp [hkind])
      · next hkind =>
          exact Reaction.fits_opening [.see .factor, .emit .div] (fun _ => Iff.rfl)
            (fun _ => spells_link) (hfactor _) (by simp [hkind])
      · next htimes hdivide =>
          exact Reaction.fits_no_opening (fun _ => Iff.rfl) (fun _ => spells_link)
            (by simpa using ⟨htimes, hdivide⟩)
  | moreTerms =>
      have hterm (op : Opcode) (u : List TokenKind) :
          PlZero.Spells [.see .factor, .see .moreFactors, .emit op] u ↔
            ∃ b : Tree .term, kinds b.tokens = u :=
        spells_term
      simp only [react]
      split
      · next hkind =>
          exact Reaction.fits_opening [.see .factor, .see .moreFactors, .emit .add] (fun _ => Iff.rfl)
            (fun _ => spells_link) (hterm _) (by simp [hkind])
      · next hkind =>
          exact Reaction.fits_opening [.see .factor, .see .moreFactors, .emit .sub] (fun _ => Iff.rfl)
            (fun _ => spells_link) (hterm _) (by simp [hkind])
      · next hplus hminus =>
          exact Reaction.fits_no_opening (fun _ => Iff.rfl) (fun _ => spells_link)
            (by simpa using ⟨hplus, hminus⟩)

end Goal

end PlZero
