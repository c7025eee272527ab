import PlZero.Proofs.Analysis.Reading
import PlZero.Proofs.Syntax.Code
import PlZero.Proofs.Syntax.Unambiguity

namespace PlZero

theorem literal_eq_ofNat (t : Token) : literal t = Int32.ofNat t.value.toNat := rfl

namespace SymbolTable

def Defined (s : SymbolTable) (x : String) : Prop :=
  ∃ symbol, s.lookup? x = some symbol ∧ symbol.initialized = true

def offset (s : SymbolTable) (x : String) : Nat := ((s.lookup? x).map Symbol.offset).getD 0

theorem source_eq_ok_iff {s : SymbolTable} {t : Token} {symbol : Symbol} :
    s.source t = .ok symbol ↔ s.lookup? t.lexeme = some symbol ∧ symbol.initialized = true := by
  unfold source
  cases s.lookup? t.lexeme with
  | none => simp
  | some other =>
      by_cases h : other.initialized = true
      · simp only [h, if_true, Except.ok.injEq, Option.some.injEq]
        constructor
        · rintro rfl
          exact ⟨rfl, h⟩
        · exact fun he => he.1
      · simp only [h, Option.some.injEq]
        constructor
        · intro he
          cases he
        · rintro ⟨rfl, hi⟩
          exact absurd hi h

theorem slot_eq_offset {s : SymbolTable} {x : String} {symbol : Symbol}
    (h : s.lookup? x = some symbol) : slot symbol = Int32.ofNat (s.offset x) := by
  simp [slot, offset, h]

end SymbolTable

theorem react_name {s : SymbolTable} (t : Leaf .identifier) (h : s.Defined t.1.lexeme) :
    Goal.reactOperand s t.1 = .take [.emit .lod (Int32.ofNat (s.offset t.1.lexeme))] := by
  obtain ⟨symbol, hl, hi⟩ := h
  have hs := SymbolTable.source_eq_ok_iff.mpr ⟨hl, hi⟩
  simp [Goal.reactOperand, t.2, hs, SymbolTable.slot_eq_offset hl]

namespace Category

def tasks : Category → List Task
  | .operand => [.see .operand]
  | .factor => [.see .factor]
  | .term => [.see .factor, .see .moreFactors]
  | .expression => [.see .factor, .see .moreFactors, .see .moreTerms]

def rest : Category → List Task
  | .operand => []
  | .factor => []
  | .term => [.see .moreFactors]
  | .expression => [.see .moreTerms]

def pauses : Category → TokenKind → Bool
  | .expression, k => !Category.term.continues k
  | _, _ => true

end Category

section react

variable (s : SymbolTable)

theorem react_number (t : Leaf .number) :
    Goal.operand.react s t.1 = .take [.emit .lit (literal t.1)] := by
  simp [Goal.react, Goal.reactOperand, t.2]

theorem react_group (l : Leaf .leftParen) :
    Goal.operand.react s l.1 = .take (Category.expression.tasks ++ [.token .rightParen]) := by
  simp [Goal.react, Goal.reactOperand, l.2, Task.expression, Category.tasks]

theorem react_positive (t : Leaf .plus) : Goal.factor.react s t.1 = .take [.see .operand] := by
  simp [Goal.react, t.2]

theorem react_negative (t : Leaf .minus) :
    Goal.factor.react s t.1 = .take [.emit .lit, .see .operand, .emit .sub] := by
  simp [Goal.react, t.2]

end react

theorem look_stops {kind : TokenKind} (t : Leaf kind)
    (h : Category.expression.continues kind = false) (p : Position) (us : List Token) :
    Category.expression.continues (look p (t.1 :: us)).kind = false := by
  rw [look_cons, t.2]
  exact h

theorem pauses_of_stops {k : TokenKind} (h : Category.expression.continues k = false) :
    Category.expression.pauses k = true := by
  simp_all [Category.pauses, Category.continues]

theorem reading_moreFactors {p : Position} {d : Draft} {k : List Task} {ts : List Token}
    (h : Category.term.continues (look p ts).kind = false) :
    reading p d (.see .moreFactors :: k) ts = reading p d k ts := by
  apply reading_pass
  cases hk : (look p ts).kind <;> simp_all [Goal.react, Category.continues]

theorem reading_moreTerms {p : Position} {d : Draft} {k : List Task} {ts : List Token}
    (h : Category.expression.continues (look p ts).kind = false) :
    reading p d (.see .moreTerms :: k) ts = reading p d k ts := by
  apply reading_pass
  cases hk : (look p ts).kind <;> simp_all [Goal.react, Category.continues]

theorem reading_unsigned {p : Position} {d : Draft} {k : List Task} {ts : List Token}
    (hp : (look p ts).kind ≠ .plus) (hm : (look p ts).kind ≠ .minus) :
    reading p d (.see .factor :: k) ts = reading p d (.see .operand :: k) ts := by
  have hr : Goal.factor.react d.symbols (look p ts) = Goal.operand.react d.symbols (look p ts) := by
    cases hk : (look p ts).kind <;> simp_all [Goal.react]
  rw [reading_see p d, reading_see p d, hr]

theorem reading_link {p : Position} {d : Draft} {k : List Task} {us : List Token} {c m : Category}
    {a : Tree c} {b : Tree m} {s : Token} {op : Opcode} {g : Goal} {ca cb : List Instruction}
    (hc : c.rest = [.see g])
    (hr : ∀ t, g.react t s = .take (m.tasks ++ [.emit op, .see g]))
    (ha : reading p d (c.tasks ++ k) (a.tokens ++ (s :: (b.tokens ++ us))) =
      reading p (d.append ca) (c.rest ++ k) (s :: (b.tokens ++ us)))
    (hb : reading p (d.append ca) (m.tasks ++ (.emit op :: .see g :: k)) (b.tokens ++ us) =
      reading p ((d.append ca).append cb) (.emit op :: .see g :: k) us) :
    reading p d (c.tasks ++ k) ((a.tokens ++ s :: b.tokens) ++ us) =
      reading p (d.append (ca ++ (cb ++ [⟨op, 0⟩]))) (c.rest ++ k) us := by
  rw [List.append_assoc, List.cons_append, ha, hc, List.singleton_append,
    reading_take (hr _), List.append_assoc]
  simp only [List.cons_append, List.nil_append]
  rw [hb, reading_emit]
  simp

theorem reading_tree {c : Category} (t : Tree c) (p : Position) (d : Draft) (k : List Task)
    (us : List Token) (hd : ∀ x ∈ t.names, d.symbols.Defined x)
    (hp : c.pauses (look p us).kind = true) :
    reading p d (c.tasks ++ k) (t.tokens ++ us) =
      reading p (d.append (t.code d.symbols.offset)) (c.rest ++ k) us := by
  induction t generalizing d k us with
  | name t =>
      have hr := react_name t (hd t.1.lexeme (by simp [Tree.names]))
      simp only [Category.tasks, Category.rest, Tree.tokens, Tree.code, List.cons_append,
        List.nil_append]
      rw [reading_take (g := .operand) hr]
      exact reading_emit ..
  | number t =>
      simp only [Category.tasks, Category.rest, Tree.tokens, Tree.code, List.cons_append,
        List.nil_append]
      rw [reading_take (react_number _ t)]
      exact reading_emit ..
  | group l e r ih =>
      have hc := look_stops r rfl p us
      simp only [Category.tasks, Category.rest, Tree.tokens, Tree.code, List.cons_append,
        List.nil_append, List.append_assoc]
      rw [reading_take (react_group _ l), List.append_assoc,
        ih d _ _ hd (pauses_of_stops hc)]
      simp only [Category.rest, List.cons_append, List.nil_append]
      rw [reading_moreTerms hc, reading_token p _ (by simp) r]
  | plain o ih =>
      obtain ⟨t, ts, ho, hplus, hminus⟩ := o.head_operand
      have hl : look p (o.tokens ++ us) = t := by simp [ho]
      have hi := ih d k us hd rfl
      simp only [Category.tasks, Category.rest, List.cons_append, List.nil_append] at hi ⊢
      rw [Tree.tokens, reading_unsigned (by rw [hl]; exact hplus) (by rw [hl]; exact hminus), hi]
      rfl
  | positive s o ih =>
      have hi := ih d k us hd rfl
      simp only [Category.tasks, Category.rest, List.cons_append, List.nil_append] at hi ⊢
      rw [Tree.tokens, List.cons_append, reading_take (react_positive _ s)]
      exact hi
  | negative s o ih =>
      have hi := ih (d.append [⟨.lit, 0⟩]) (.emit .sub :: k) us hd rfl
      simp only [Category.tasks, Category.rest, List.cons_append, List.nil_append] at hi ⊢
      rw [Tree.tokens, List.cons_append, reading_take (react_negative _ s), List.cons_append,
        reading_emit]
      simp only [List.cons_append, List.nil_append]
      rw [hi, reading_emit]
      simp [Tree.code]
  | single f ih =>
      exact ih d (.see .moreFactors :: k) us hd rfl
  | product a s b iha ihb =>
      refine reading_link (g := .moreFactors) rfl (fun t => ?_) (iha d k _ ?_ rfl)
        (ihb _ _ us ?_ rfl)
      · simp [Goal.react, s.2, Category.tasks]
      · exact fun x hx => hd x (by simp [Tree.names, hx])
      · exact fun x hx => hd x (by simp [Tree.names, hx])
  | quotient a s b iha ihb =>
      refine reading_link (g := .moreFactors) rfl (fun t => ?_) (iha d k _ ?_ rfl)
        (ihb _ _ us ?_ rfl)
      · simp [Goal.react, s.2, Category.tasks]
      · exact fun x hx => hd x (by simp [Tree.names, hx])
      · exact fun x hx => hd x (by simp [Tree.names, hx])
  | lone t ih =>
      have hi := ih d (.see .moreTerms :: k) us hd rfl
      have hpass : Category.term.continues (look p us).kind = false := by
        simpa [Category.pauses] using hp
      simp only [Category.tasks, Category.rest, List.cons_append, List.nil_append] at hi ⊢
      rw [Tree.tokens, hi, reading_moreFactors hpass]
      rfl
  | sum a s b iha ihb =>
      have hpass : Category.term.continues (look p us).kind = false := by
        simpa [Category.pauses] using hp
      refine reading_link (g := .moreTerms) rfl (fun t => ?_) (iha d k _ ?_ ?_)
        ((ihb _ _ us ?_ rfl).trans (reading_moreFactors hpass))
      · simp [Goal.react, s.2, Category.tasks]
      · exact fun x hx => hd x (by simp [Tree.names, hx])
      · simp [s.2, Category.pauses, Category.continues]
      · exact fun x hx => hd x (by simp [Tree.names, hx])
  | difference a s b iha ihb =>
      have hpass : Category.term.continues (look p us).kind = false := by
        simpa [Category.pauses] using hp
      refine reading_link (g := .moreTerms) rfl (fun t => ?_) (iha d k _ ?_ ?_)
        ((ihb _ _ us ?_ rfl).trans (reading_moreFactors hpass))
      · simp [Goal.react, s.2, Category.tasks]
      · exact fun x hx => hd x (by simp [Tree.names, hx])
      · simp [s.2, Category.pauses, Category.continues]
      · exact fun x hx => hd x (by simp [Tree.names, hx])

theorem reading_expression (e : Expression) {p : Position} {d : Draft} {k : List Task}
    {us : List Token} (hd : ∀ x ∈ e.names, d.symbols.Defined x)
    (hs : Category.expression.continues (look p us).kind = false) :
    reading p d (Task.expression ++ k) (e.tokens ++ us) =
      reading p (d.append (e.code d.symbols.offset)) k us :=
  (reading_tree e p d k us hd (pauses_of_stops hs)).trans (reading_moreTerms hs)

def Explained (p : Position) (c : Category) (n : Nat) : Prop :=
  ∀ ts : List Token, ts.length ≤ n → ∀ (d r : Draft) (k : List Task),
    reading p d (c.tasks ++ k) ts = (none, r) →
      ∃ (t : Tree c) (us : List Token), ts = t.tokens ++ us ∧
        (∀ x ∈ t.names, d.symbols.Defined x) ∧
        reading p (d.append (t.code d.symbols.offset)) k us = (none, r)

theorem explained_operand {p : Position} {n : Nat} (he : Explained p .expression n) :
    Explained p .operand (n + 1) := by
  intro ts hn d r k h
  rw [Category.tasks, List.singleton_append, reading_see p d] at h
  cases hk : (look p ts).kind
  case identifier =>
      obtain ⟨t, us, rfl⟩ := leaf_of_look hk (by simp)
      cases hs : d.symbols.source t.1 with
      | error e => simp [Goal.react, Goal.reactOperand, t.2, hs] at h
      | ok symbol =>
          obtain ⟨hl, hi⟩ := SymbolTable.source_eq_ok_iff.mp hs
          simp only [Goal.react, Goal.reactOperand, look_cons, t.2, hs, List.singleton_append] at h
          rw [reading_emit, SymbolTable.slot_eq_offset hl] at h
          refine ⟨.name t, us, rfl, ?_, h⟩
          simpa [Tree.names] using ⟨symbol, hl, hi⟩
  case number =>
      obtain ⟨t, us, rfl⟩ := leaf_of_look hk (by simp)
      simp only [Goal.react, Goal.reactOperand, look_cons, t.2, List.singleton_append] at h
      rw [reading_emit, literal_eq_ofNat] at h
      exact ⟨.number t, us, rfl, by simp [Tree.names], h⟩
  case leftParen =>
      obtain ⟨l, us, rfl⟩ := leaf_of_look hk (by simp)
      simp only [Goal.react, Goal.reactOperand, look_cons, l.2, List.append_assoc] at h
      obtain ⟨e, vs, rfl, hd, hrest⟩ := he us (Nat.le_of_succ_le_succ hn) d r _ h
      obtain ⟨close, ws, rfl, hfinal⟩ := of_reading_token hrest
      exact ⟨.group l e close, ws, by simp [Tree.tokens], hd, hfinal⟩
  all_goals simp [Goal.react, Goal.reactOperand, hk] at h

theorem explained_factor {p : Position} {n : Nat} (ho : Explained p .operand n) :
    Explained p .factor n := by
  intro ts hn d r k h
  rw [Category.tasks, List.singleton_append] at h
  by_cases hp : (look p ts).kind = .plus
  · obtain ⟨s, us, rfl⟩ := leaf_of_look hp (by simp)
    rw [reading_take (react_positive _ s)] at h
    obtain ⟨o, vs, rfl, hd, hrest⟩ := ho us (Nat.le_of_succ_le hn) d r k h
    exact ⟨.positive s o, vs, rfl, hd, hrest⟩
  · by_cases hm : (look p ts).kind = .minus
    · obtain ⟨s, us, rfl⟩ := leaf_of_look hm (by simp)
      rw [reading_take (react_negative _ s), List.cons_append, reading_emit] at h
      obtain ⟨o, vs, rfl, hd, hrest⟩ := ho us (Nat.le_of_succ_le hn) _ r _ h
      rw [List.append_eq, List.nil_append, reading_emit] at hrest
      refine ⟨.negative s o, vs, rfl, hd, ?_⟩
      simpa [Tree.code] using hrest
    · rw [reading_unsigned hp hm] at h
      obtain ⟨o, us, ht, hd, hrest⟩ := ho ts hn d r k h
      exact ⟨.plain o, us, ht, hd, hrest⟩

theorem explained_loop {p : Position} {n : Nat} {c m : Category} {g : Goal} {j l : TokenKind}
    (hm : Explained p m n) (grow : Tree c → (Leaf j ⊕ Leaf l) × Tree m → Tree c)
    (op : Leaf j ⊕ Leaf l → Opcode)
    (hr : ∀ s t, g.react s t = .pass ∨ ∃ link : Leaf j ⊕ Leaf l, Tree.linkToken link = t ∧
      g.react s t = .take (m.tasks ++ [.emit (op link), .see g]))
    (htokens : ∀ a x, (grow a x).tokens = a.tokens ++ Tree.linked x)
    (hnames : ∀ a x, (grow a x).names = a.names ++ x.2.names)
    (hcode : ∀ f a x, (grow a x).code f = a.code f ++ (x.2.code f ++ [⟨op x.1, 0⟩]))
    (hjl : j ≠ .eof ∧ l ≠ .eof) {d r : Draft} {k : List Task} (ts : List Token)
    (hn : ts.length ≤ n) (a : Tree c) (ha : ∀ x ∈ a.names, d.symbols.Defined x)
    (h : reading p (d.append (a.code d.symbols.offset)) (.see g :: k) ts = (none, r)) :
    ∃ (t : Tree c) (us : List Token), a.tokens ++ ts = t.tokens ++ us ∧
      (∀ x ∈ t.names, d.symbols.Defined x) ∧
      reading p (d.append (t.code d.symbols.offset)) k us = (none, r) := by
  -- By induction on what is still to be read: each round takes a link and a member off it.
  induction hlen : ts.length using Nat.strongRecOn generalizing ts a with
  | _ len ih =>
      rcases hr (d.append (a.code d.symbols.offset)).symbols (look p ts) with hpass | ⟨link, hlink, htake⟩
      · rw [reading_pass hpass] at h
        exact ⟨a, ts, rfl, ha, h⟩
      · cases ts with
        | nil =>
            have hk : (Tree.linkToken link).kind = .eof := by rw [hlink]; rfl
            rcases Tree.kind_linkToken link with he | he
            · exact absurd (he.symm.trans hk) hjl.1
            · exact absurd (he.symm.trans hk) hjl.2
        | cons t us =>
            rw [look_cons] at hlink htake
            rw [reading_take htake, List.append_assoc] at h
            obtain ⟨b, vs, rfl, hb, hrest⟩ := hm us (Nat.le_of_succ_le hn) _ r _ h
            rw [List.cons_append, reading_emit] at hrest
            have hdef : ∀ x ∈ (grow a (link, b)).names, d.symbols.Defined x := by
              intro x hx
              rw [hnames, List.mem_append] at hx
              exact hx.elim (ha x) (hb x)
            simp only [List.length_cons, List.length_append] at hlen hn
            obtain ⟨u, ws, hu, hdu, hfinal⟩ := ih vs.length (by omega) vs (by omega)
              (grow a (link, b)) hdef (by simpa [hcode] using hrest) rfl
            refine ⟨u, ws, ?_, hdu, hfinal⟩
            rw [← hu, htokens, Tree.linked, hlink]
            simp

theorem explained_term {p : Position} {n : Nat} (hf : Explained p .factor n) :
    Explained p .term n := by
  intro ts hn d r k h
  obtain ⟨f, us, rfl, hd, hrest⟩ := hf ts hn d r (.see .moreFactors :: k) h
  rw [List.length_append] at hn
  let op : Tree.TermLink → Opcode := Sum.elim (fun _ => .mul) fun _ => .div
  have hr (s : SymbolTable) (t : Token) : Goal.moreFactors.react s t = .pass ∨
      ∃ link : Tree.TermLink, Tree.linkToken link = t ∧ Goal.moreFactors.react s t =
        .take (Category.factor.tasks ++ [.emit (op link), .see .moreFactors]) := by
    by_cases ht : t.kind = .times
    · exact .inr ⟨.inl ⟨t, ht⟩, rfl, by simp [Goal.react, ht, Category.tasks, op]⟩
    · by_cases hd : t.kind = .divide
      · exact .inr ⟨.inr ⟨t, hd⟩, rfl, by simp [Goal.react, hd, Category.tasks, op]⟩
      · left
        cases hk : t.kind <;> simp_all [Goal.react]
  exact explained_loop hf Tree.growTerm op hr (by rintro a ⟨s | s, b⟩ <;> rfl)
    (by rintro a ⟨s | s, b⟩ <;> rfl) (by rintro f a ⟨s | s, b⟩ <;> rfl) (by simp) us (by omega)
    (.single f) hd hrest

theorem explained_expression {p : Position} {n : Nat} (ht : Explained p .term n) :
    Explained p .expression n := by
  intro ts hn d r k h
  obtain ⟨t, us, rfl, hd, hrest⟩ := ht ts hn d r (.see .moreTerms :: k) h
  rw [List.length_append] at hn
  let op : Tree.SumLink → Opcode := Sum.elim (fun _ => .add) fun _ => .sub
  have hr (s : SymbolTable) (t : Token) : Goal.moreTerms.react s t = .pass ∨
      ∃ link : Tree.SumLink, Tree.linkToken link = t ∧ Goal.moreTerms.react s t =
        .take (Category.term.tasks ++ [.emit (op link), .see .moreTerms]) := by
    by_cases hp : t.kind = .plus
    · exact .inr ⟨.inl ⟨t, hp⟩, rfl, by simp [Goal.react, hp, Category.tasks, op]⟩
    · by_cases hm : t.kind = .minus
      · exact .inr ⟨.inr ⟨t, hm⟩, rfl, by simp [Goal.react, hm, Category.tasks, op]⟩
      · left
        cases hk : t.kind <;> simp_all [Goal.react]
  exact explained_loop ht Tree.growSum op hr (by rintro a ⟨s | s, b⟩ <;> rfl)
    (by rintro a ⟨s | s, b⟩ <;> rfl) (by rintro f a ⟨s | s, b⟩ <;> rfl) (by simp) us (by omega)
    (.lone t) hd hrest

theorem explained {p : Position} (n : Nat) : Explained p .expression n := by
  induction n with
  | zero =>
      intro ts hn d r k h
      cases List.length_eq_zero_iff.mp (Nat.le_zero.mp hn)
      simp [Category.tasks, reading_see p d .factor, Goal.react, Goal.reactOperand,
        Token.endOfText] at h
  | succ n ih =>
      exact explained_expression (explained_term (explained_factor (explained_operand ih)))

theorem of_reading_expression {p : Position} {d r : Draft} {k : List Task} {ts : List Token}
    (h : reading p d (Task.expression ++ k) ts = (none, r)) :
    ∃ (e : Expression) (us : List Token), ts = e.tokens ++ us ∧
      (∀ x ∈ e.names, d.symbols.Defined x) ∧
      reading p (d.append (e.code d.symbols.offset)) k us = (none, r) :=
  explained ts.length ts (Nat.le_refl _) d r k h

end PlZero
