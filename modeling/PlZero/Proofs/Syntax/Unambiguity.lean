import PlZero.Proofs.Syntax.Tree

namespace PlZero

def Category.continues : Category → TokenKind → Bool
  | .operand, _ => false
  | .factor, _ => false
  | .term, k => k = .times || k = .divide
  | .expression, k => k = .times || k = .divide || k = .plus || k = .minus

def Category.Stops (c : Category) (us : List Token) : Prop :=
  ∀ t ∈ us.head?, c.continues t.kind = false

theorem Category.stops_term {us : List Token} (h : Category.expression.Stops us) :
    Category.term.Stops us := by
  intro t ht
  have := h t ht
  simp_all [Category.continues]

theorem Category.stops_cons {c : Category} {t : Token} {ts : List Token}
    (h : c.continues t.kind = false) : c.Stops (t :: ts) := by
  intro x hx
  have : t = x := by simpa using hx
  exact this ▸ h

theorem Leaf.stops {k : TokenKind} (t : Leaf k) {ts : List Token}
    (h : Category.expression.continues k = false) : Category.expression.Stops (t.1 :: ts) :=
  Category.stops_cons (by rw [t.2]; exact h)

theorem Leaf.ne {j k : TokenKind} (hjk : j ≠ k) (s : Leaf j) (t : Leaf k) : s.1 ≠ t.1 := by
  intro h
  exact hjk (s.2.symm.trans ((congrArg Token.kind h).trans t.2))

theorem Leaf.cons_ne {j k : TokenKind} (hjk : j ≠ k) (s : Leaf j) (t : Leaf k) (us vs : List Token) :
    s.1 :: us ≠ t.1 :: vs := by
  intro h
  exact Leaf.ne hjk s t (List.cons.inj h).1

theorem Leaf.cons_inj {k : TokenKind} {s t : Leaf k} {us vs : List Token}
    (h : s.1 :: us = t.1 :: vs) : s = t ∧ us = vs := by
  obtain ⟨hst, hrest⟩ := List.cons.inj h
  exact ⟨Subtype.ext hst, hrest⟩

theorem flatMap_decomposes {α : Type} {spell : α → List Token} (starts : TokenKind → Bool)
    (Stop : List Token → Prop) (head : ∀ a, ∃ t ts, spell a = t :: ts ∧ starts t.kind = true)
    (stop : ∀ t ts, starts t.kind = true → Stop (t :: ts)) {l l' : List α}
    (hl : ∀ a ∈ l, ∀ b us vs, spell a ++ us = spell b ++ vs → Stop us → Stop vs → a = b ∧ us = vs)
    {us vs : List Token} (h : l.flatMap spell ++ us = l'.flatMap spell ++ vs)
    (hu : Stop us) (hv : Stop vs) (hu' : ∀ t ∈ us.head?, starts t.kind = false)
    (hv' : ∀ t ∈ vs.head?, starts t.kind = false) : l = l' ∧ us = vs := by
  -- What follows a member is another member or the end, and neither goes on with it.
  have tail (m : List α) {ws : List Token} (hw : Stop ws) : Stop (m.flatMap spell ++ ws) := by
    cases m with
    | nil => exact hw
    | cons a m =>
        obtain ⟨t, ts, ha, ht⟩ := head a
        simpa [ha] using stop t _ ht
  have clash (a : α) {ws zs : List Token} (hw : ∀ t ∈ ws.head?, starts t.kind = false)
      (he : ws = spell a ++ zs) : False := by
    obtain ⟨t, ts, ha, ht⟩ := head a
    simp [he, ha, ht] at hw
  induction l generalizing l' with
  | nil =>
      cases l' with
      | nil => exact ⟨rfl, by simpa using h⟩
      | cons b l' => exact (clash b hu' (by simpa using h)).elim
  | cons a l ih =>
      cases l' with
      | nil => exact (clash a hv' (by simpa using h.symm)).elim
      | cons b l' =>
          simp only [List.flatMap_cons, List.append_assoc] at h
          obtain ⟨rfl, hrest⟩ := hl a (by simp) b _ _ h (tail l hu) (tail l' hv)
          obtain ⟨rfl, he⟩ := ih (fun x hx => hl x (by simp [hx])) hrest
          exact ⟨rfl, he⟩

theorem head_flatMap_append {α : Type} {spell : α → List Token} {P : Token → Prop}
    (head : ∀ a, ∃ t ts, spell a = t :: ts ∧ P t) (l : List α) {us : List Token}
    (hu : ∀ t ∈ us.head?, P t) : ∀ t ∈ (l.flatMap spell ++ us).head?, P t := by
  cases l with
  | nil => exact hu
  | cons a l =>
      obtain ⟨t, ts, ha, ht⟩ := head a
      simpa [ha] using ht

namespace Tree

abbrev TermLink := Leaf .times ⊕ Leaf .divide

abbrev SumLink := Leaf .plus ⊕ Leaf .minus

def linkToken {j k : TokenKind} : Leaf j ⊕ Leaf k → Token
  | .inl s => s.1
  | .inr s => s.1

theorem linkToken_inj {j k : TokenKind} (hjk : j ≠ k) {s s' : Leaf j ⊕ Leaf k}
    (h : linkToken s = linkToken s') : s = s' := by
  rcases s with s | s <;> rcases s' with s' | s' <;> simp only [linkToken] at h
  · rw [Subtype.ext h]
  · exact absurd h (Leaf.ne hjk s s')
  · exact absurd h.symm (Leaf.ne hjk s' s)
  · rw [Subtype.ext h]

theorem kind_linkToken {j k : TokenKind} (s : Leaf j ⊕ Leaf k) :
    (linkToken s).kind = j ∨ (linkToken s).kind = k := by
  rcases s with s | s
  · exact .inl s.2
  · exact .inr s.2

def growTerm (a : Tree .term) : TermLink × Tree .factor → Tree .term
  | (.inl s, b) => .product a s b
  | (.inr s, b) => .quotient a s b

def growSum (a : Expression) : SumLink × Tree .term → Expression
  | (.inl s, b) => .sum a s b
  | (.inr s, b) => .difference a s b

def linked {j k : TokenKind} {c : Category} (x : (Leaf j ⊕ Leaf k) × Tree c) : List Token :=
  linkToken x.1 :: x.2.tokens

theorem exists_growTerm (t : Tree .term) :
    ∃ f l, t = List.foldl growTerm (.single f) l ∧ t.tokens = f.tokens ++ l.flatMap linked := by
  match t with
  | .single f => exact ⟨f, [], rfl, by simp [tokens]⟩
  | .product a s b =>
      obtain ⟨f, l, ha, ht⟩ := exists_growTerm a
      refine ⟨f, l ++ [(.inl s, b)], ?_, ?_⟩
      · simp [← ha, growTerm]
      · simp [tokens, ht, linked, linkToken]
  | .quotient a s b =>
      obtain ⟨f, l, ha, ht⟩ := exists_growTerm a
      refine ⟨f, l ++ [(.inr s, b)], ?_, ?_⟩
      · simp [← ha, growTerm]
      · simp [tokens, ht, linked, linkToken]

theorem exists_growSum (e : Expression) :
    ∃ t l, e = List.foldl growSum (.lone t) l ∧ e.tokens = t.tokens ++ l.flatMap linked := by
  match e with
  | .lone t => exact ⟨t, [], rfl, by simp [tokens]⟩
  | .sum a s b =>
      obtain ⟨t, l, ha, ht⟩ := exists_growSum a
      refine ⟨t, l ++ [(.inl s, b)], ?_, ?_⟩
      · simp [← ha, growSum]
      · simp [tokens, ht, linked, linkToken]
  | .difference a s b =>
      obtain ⟨t, l, ha, ht⟩ := exists_growSum a
      refine ⟨t, l ++ [(.inr s, b)], ?_, ?_⟩
      · simp [← ha, growSum]
      · simp [tokens, ht, linked, linkToken]

def Decomposes {c : Category} (t : Tree c) : Prop :=
  ∀ (u : Tree c) (us vs : List Token), t.tokens ++ us = u.tokens ++ vs →
    c.Stops us → c.Stops vs → t = u ∧ us = vs

theorem linked_decomposes {j k : TokenKind} {c : Category} (hjk : j ≠ k)
    {x : (Leaf j ⊕ Leaf k) × Tree c} (hx : Decomposes x.2) (y : (Leaf j ⊕ Leaf k) × Tree c)
    (us vs : List Token) (h : linked x ++ us = linked y ++ vs) (hu : c.Stops us) (hv : c.Stops vs) :
    x = y ∧ us = vs := by
  simp only [linked, List.cons_append, List.cons.injEq] at h
  obtain ⟨hb, he⟩ := hx y.2 us vs h.2 hu hv
  exact ⟨Prod.ext (linkToken_inj hjk h.1) hb, he⟩

theorem length_linked_le {j k : TokenKind} {c : Category} {x : (Leaf j ⊕ Leaf k) × Tree c}
    {l : List ((Leaf j ⊕ Leaf k) × Tree c)} (h : x ∈ l) :
    x.2.tokens.length ≤ (l.flatMap linked).length := by
  induction l with
  | nil => simp at h
  | cons y l ih =>
      simp only [List.flatMap_cons, List.length_append]
      rcases List.mem_cons.mp h with rfl | h
      · simp only [linked, List.length_cons]
        omega
      · have := ih h
        omega

theorem head_operand (o : Tree .operand) :
    ∃ t ts, o.tokens = t :: ts ∧ t.kind ≠ .plus ∧ t.kind ≠ .minus := by
  cases o with
  | name t => exact ⟨t.1, [], rfl, by simp [t.2]⟩
  | number t => exact ⟨t.1, [], rfl, by simp [t.2]⟩
  | group l e r => exact ⟨l.1, e.tokens ++ [r.1], rfl, by simp [l.2]⟩

theorem factor_decomposes {n : Nat}
    (ho : ∀ o : Tree .operand, o.tokens.length ≤ n → Decomposes o) (f : Tree .factor)
    (hn : f.tokens.length ≤ n) : Decomposes f := by
  -- An operand starts with none of the two signs, so the first token tells the three forms apart.
  have stops (us : List Token) : Category.operand.Stops us := fun _ _ => rfl
  have unsigned (o : Tree .operand) {s : Token} {us vs : List Token}
      (hs : s.kind = .plus ∨ s.kind = .minus) (h : o.tokens ++ us = s :: vs) : False := by
    obtain ⟨t, ts, ho, hp, hm⟩ := head_operand o
    have : t = s := by simp_all
    simp_all
  intro g us vs h _ _
  cases f with
  | plain o =>
      cases g with
      | plain o' =>
          obtain ⟨rfl, he⟩ := ho o hn o' us vs h (stops us) (stops vs)
          exact ⟨rfl, he⟩
      | positive s o' => exact (unsigned o (.inl s.2) h).elim
      | negative s o' => exact (unsigned o (.inr s.2) h).elim
  | positive s o =>
      simp only [tokens, List.length_cons] at hn
      cases g with
      | plain o' => exact (unsigned o' (.inl s.2) h.symm).elim
      | positive s' o' =>
          obtain ⟨rfl, hrest⟩ := Leaf.cons_inj h
          obtain ⟨rfl, he⟩ := ho o (by omega) o' us vs hrest (stops us) (stops vs)
          exact ⟨rfl, he⟩
      | negative s' o' => exact absurd h (Leaf.cons_ne (by simp) s s' _ _)
  | negative s o =>
      simp only [tokens, List.length_cons] at hn
      cases g with
      | plain o' => exact (unsigned o' (.inr s.2) h.symm).elim
      | positive s' o' => exact absurd h (Leaf.cons_ne (by simp) s s' _ _)
      | negative s' o' =>
          obtain ⟨rfl, hrest⟩ := Leaf.cons_inj h
          obtain ⟨rfl, he⟩ := ho o (by omega) o' us vs hrest (stops us) (stops vs)
          exact ⟨rfl, he⟩

theorem term_decomposes {n : Nat} (hf : ∀ f : Tree .factor, f.tokens.length ≤ n → Decomposes f)
    (t : Tree .term) (hn : t.tokens.length ≤ n) : Decomposes t := by
  intro u us vs h hu hv
  obtain ⟨f, l, rfl, ht⟩ := exists_growTerm t
  obtain ⟨g, m, rfl, hw⟩ := exists_growTerm u
  rw [ht, List.length_append] at hn
  rw [ht, hw, List.append_assoc, List.append_assoc] at h
  obtain ⟨rfl, hrest⟩ := hf f (by omega) g _ _ h (fun _ _ => rfl) (fun _ _ => rfl)
  obtain ⟨rfl, he⟩ := flatMap_decomposes Category.term.continues (fun _ => True)
    (fun x => ⟨_, _, rfl, by rcases kind_linkToken x.1 with hk | hk <;> simp [hk, Category.continues]⟩)
    (fun _ _ _ => trivial)
    (fun x hx y us vs hxy _ _ => linked_decomposes (by simp)
      (hf x.2 (by have := length_linked_le hx; omega)) y us vs hxy (fun _ _ => rfl) (fun _ _ => rfl))
    hrest trivial trivial hu hv
  exact ⟨rfl, he⟩

theorem sum_decomposes {n : Nat} (ht : ∀ t : Tree .term, t.tokens.length ≤ n → Decomposes t)
    (e : Expression) (hn : e.tokens.length ≤ n) : Decomposes e := by
  let links : TokenKind → Bool := fun k => k = .plus || k = .minus
  have start (x : SumLink × Tree .term) : links (linkToken x.1).kind = true := by
    rcases kind_linkToken x.1 with hk | hk <;> simp [links, hk]
  have stop (x : Token) (xs : List Token) (hx : links x.kind = true) :
      Category.term.Stops (x :: xs) := by
    apply Category.stops_cons
    rcases (by simpa [links] using hx : x.kind = .plus ∨ x.kind = .minus) with hk | hk <;>
      simp [hk, Category.continues]
  have follow (l : List (SumLink × Tree .term)) {ws : List Token}
      (hw : Category.expression.Stops ws) : Category.term.Stops (l.flatMap linked ++ ws) := by
    cases l with
    | nil => exact Category.stops_term hw
    | cons x l => exact stop _ _ (start x)
  have ends {ws : List Token} (hw : Category.expression.Stops ws) :
      ∀ x ∈ ws.head?, links x.kind = false := by
    intro x hx
    have := hw x hx
    simp_all [Category.continues, links]
  intro u us vs h hu hv
  obtain ⟨t, l, rfl, he⟩ := exists_growSum e
  obtain ⟨t', m, rfl, hw⟩ := exists_growSum u
  rw [he, List.length_append] at hn
  rw [he, hw, List.append_assoc, List.append_assoc] at h
  obtain ⟨rfl, hrest⟩ := ht t (by omega) t' _ _ h (follow l hu) (follow m hv)
  obtain ⟨rfl, hus⟩ := flatMap_decomposes links Category.term.Stops
    (fun x => ⟨_, _, rfl, start x⟩) stop
    (fun x hx y us vs => linked_decomposes (by simp)
      (ht x.2 (by have := length_linked_le hx; omega)) y us vs)
    hrest (Category.stops_term hu) (Category.stops_term hv) (ends hu) (ends hv)
  exact ⟨rfl, hus⟩

theorem operand_decomposes {n : Nat} (he : ∀ e : Expression, e.tokens.length ≤ n → Decomposes e)
    (o : Tree .operand) (hn : o.tokens.length ≤ n + 1) : Decomposes o := by
  intro u us vs h _ _
  cases o with
  | name t =>
      cases u with
      | name t' =>
          obtain ⟨rfl, he⟩ := Leaf.cons_inj h
          exact ⟨rfl, he⟩
      | number t' => exact absurd h (Leaf.cons_ne (by simp) t t' _ _)
      | group l e r => exact absurd h (Leaf.cons_ne (by simp) t l _ _)
  | number t =>
      cases u with
      | name t' => exact absurd h (Leaf.cons_ne (by simp) t t' _ _)
      | number t' =>
          obtain ⟨rfl, he⟩ := Leaf.cons_inj h
          exact ⟨rfl, he⟩
      | group l e r => exact absurd h (Leaf.cons_ne (by simp) t l _ _)
  | group l e r =>
      simp only [tokens, List.length_cons, List.length_append] at hn
      cases u with
      | name t' => exact absurd h (Leaf.cons_ne (by simp) l t' _ _)
      | number t' => exact absurd h (Leaf.cons_ne (by simp) l t' _ _)
      | group l' e' r' =>
          obtain ⟨rfl, hinner⟩ := Leaf.cons_inj h
          simp only [List.append_eq, List.append_assoc, List.singleton_append] at hinner
          obtain ⟨rfl, hrest⟩ := he e (by omega) e' _ _ hinner (r.stops rfl) (r'.stops rfl)
          obtain ⟨rfl, hus⟩ := Leaf.cons_inj hrest
          exact ⟨rfl, hus⟩

theorem tokens_ne_nil {c : Category} (t : Tree c) : t.tokens ≠ [] := by
  induction t <;> simp_all [tokens]

theorem decomposes {c : Category} (t : Tree c) : Decomposes t := by
  -- By induction on the number of tokens; within one number an operand comes before a factor, a
  -- factor before a term and a term before an expression.
  have all (n : Nat) : ∀ {c : Category} (t : Tree c), t.tokens.length ≤ n → Decomposes t := by
    induction n with
    | zero =>
        intro c t hn
        exact absurd (List.length_eq_zero_iff.mp (Nat.le_zero.mp hn)) t.tokens_ne_nil
    | succ n ih =>
        have ho := operand_decomposes (n := n) (fun e he => ih e he)
        have hf := factor_decomposes ho
        have ht := term_decomposes hf
        have hs := sum_decomposes ht
        intro c t hn
        cases c with
        | operand => exact ho t hn
        | factor => exact hf t hn
        | term => exact ht t hn
        | expression => exact hs t hn
  exact all _ t (Nat.le_refl _)

end Tree

namespace Constant

theorem head_tokens (c : Constant) : ∃ t ts, c.tokens = t :: ts ∧ t.kind = .constWord :=
  ⟨c.word.1, _, rfl, c.word.2⟩

theorem decomposes (c d : Constant) (us vs : List Token) (h : c.tokens ++ us = d.tokens ++ vs) :
    c = d ∧ us = vs := by
  obtain ⟨word, ident, equals, sign, number, stop⟩ := c
  obtain ⟨word', ident', equals', sign', number', stop'⟩ := d
  simp only [tokens, List.cons_append, List.nil_append, List.append_assoc] at h
  obtain ⟨rfl, h₁⟩ := Leaf.cons_inj h
  obtain ⟨rfl, h₂⟩ := Leaf.cons_inj h₁
  obtain ⟨rfl, h₃⟩ := Leaf.cons_inj h₂
  have ended {us vs : List Token} (h : number.1 :: stop.1 :: us = number'.1 :: stop'.1 :: vs) :
      number = number' ∧ stop = stop' ∧ us = vs := by
    obtain ⟨hnumber, h⟩ := Leaf.cons_inj h
    exact ⟨hnumber, Leaf.cons_inj h⟩
  have hs : sign = sign' ∧ number = number' ∧ stop = stop' ∧ us = vs := by
    rcases sign with _ | s | s <;> rcases sign' with _ | s' | s' <;>
      simp only [Option.map_none, Option.map_some, Option.toList_none, Option.toList_some, Sign.token,
        List.nil_append, List.cons_append] at h₃
    · exact ⟨rfl, ended h₃⟩
    · exact absurd h₃ (Leaf.cons_ne (by simp) number s' _ _)
    · exact absurd h₃ (Leaf.cons_ne (by simp) number s' _ _)
    · exact absurd h₃ (Leaf.cons_ne (by simp) s number' _ _)
    · obtain ⟨rfl, hvalue⟩ := Leaf.cons_inj h₃
      exact ⟨rfl, ended hvalue⟩
    · exact absurd h₃ (Leaf.cons_ne (by simp) s s' _ _)
    · exact absurd h₃ (Leaf.cons_ne (by simp) s number' _ _)
    · exact absurd h₃ (Leaf.cons_ne (by simp) s s' _ _)
    · obtain ⟨rfl, hvalue⟩ := Leaf.cons_inj h₃
      exact ⟨rfl, ended hvalue⟩
  obtain ⟨rfl, rfl, rfl, hrest⟩ := hs
  exact ⟨rfl, hrest⟩

end Constant

namespace Variable

theorem head_tokens (v : Variable) : ∃ t ts, v.tokens = t :: ts ∧ t.kind = .varWord :=
  ⟨v.word.1, _, rfl, v.word.2⟩

theorem decomposes (v w : Variable) (us vs : List Token) (h : v.tokens ++ us = w.tokens ++ vs) :
    v = w ∧ us = vs := by
  obtain ⟨word, ident, initial, stop⟩ := v
  obtain ⟨word', ident', initial', stop'⟩ := w
  simp only [tokens, List.cons_append, List.nil_append, List.append_assoc] at h
  obtain ⟨rfl, h₁⟩ := Leaf.cons_inj h
  obtain ⟨rfl, h₂⟩ := Leaf.cons_inj h₁
  rcases initial with _ | ⟨q, e⟩ <;> rcases initial' with _ | ⟨q', e'⟩ <;>
    simp only [Option.map_none, Option.map_some, Option.getD_none, Option.getD_some,
      List.nil_append, List.cons_append] at h₂
  · obtain ⟨rfl, hrest⟩ := Leaf.cons_inj h₂
    exact ⟨rfl, hrest⟩
  · exact absurd h₂ (Leaf.cons_ne (by simp) stop q' _ _)
  · exact absurd h₂ (Leaf.cons_ne (by simp) q stop' _ _)
  · obtain ⟨rfl, h₃⟩ := Leaf.cons_inj h₂
    obtain ⟨rfl, h₄⟩ := e.decomposes e' _ _ h₃ (stop.stops rfl) (stop'.stops rfl)
    obtain ⟨rfl, hrest⟩ := Leaf.cons_inj h₄
    exact ⟨rfl, hrest⟩

end Variable

namespace Statement

def starts (k : TokenKind) : Bool :=
  k = .identifier || k = .printWord || k = .semicolon

theorem head_tokens (s : Statement) : ∃ t ts, s.tokens = t :: ts ∧ starts t.kind = true := by
  cases s with
  | assign ident equals e stop => exact ⟨ident.1, _, rfl, by simp [starts, ident.2]⟩
  | print word l e r stop => exact ⟨word.1, _, rfl, by simp [starts, word.2]⟩
  | empty stop => exact ⟨stop.1, _, rfl, by simp [starts, stop.2]⟩

theorem decomposes (s t : Statement) (us vs : List Token) (h : s.tokens ++ us = t.tokens ++ vs) :
    s = t ∧ us = vs := by
  cases s <;> cases t <;>
    simp only [tokens, List.cons_append, List.nil_append, List.append_assoc] at h
  case assign.assign i q e stop i' q' e' stop' =>
    obtain ⟨rfl, h₁⟩ := Leaf.cons_inj h
    obtain ⟨rfl, h₂⟩ := Leaf.cons_inj h₁
    obtain ⟨rfl, h₃⟩ := e.decomposes e' _ _ h₂ (stop.stops rfl) (stop'.stops rfl)
    obtain ⟨rfl, hrest⟩ := Leaf.cons_inj h₃
    exact ⟨rfl, hrest⟩
  case print.print w l e r stop w' l' e' r' stop' =>
    obtain ⟨rfl, h₁⟩ := Leaf.cons_inj h
    obtain ⟨rfl, h₂⟩ := Leaf.cons_inj h₁
    obtain ⟨rfl, h₃⟩ := e.decomposes e' _ _ h₂ (r.stops rfl) (r'.stops rfl)
    obtain ⟨rfl, h₄⟩ := Leaf.cons_inj h₃
    obtain ⟨rfl, hrest⟩ := Leaf.cons_inj h₄
    exact ⟨rfl, hrest⟩
  case empty.empty =>
    obtain ⟨rfl, hrest⟩ := Leaf.cons_inj h
    exact ⟨rfl, hrest⟩
  all_goals exact absurd h (Leaf.cons_ne (by simp) _ _ _ _)

end Statement

namespace Program

theorem tokens_injective {p q : Program} (h : p.tokens = q.tokens) : p = q := by
  have ends (ss : List Statement) (closing : Leaf .endWord) (ts : List Token) :
      ∀ t ∈ (ss.flatMap Statement.tokens ++ closing.1 :: ts).head?,
        t.kind ≠ .constWord ∧ t.kind ≠ .varWord := by
    refine head_flatMap_append (fun s => ?_) ss (by simp [closing.2])
    obtain ⟨t, ts, hs, ht⟩ := s.head_tokens
    exact ⟨t, ts, hs, by constructor <;> intro hk <;> simp [hk, Statement.starts] at ht⟩
  have rest (vs : List Variable) (ss : List Statement) (closing : Leaf .endWord) (ts : List Token) :
      ∀ t ∈ (vs.flatMap Variable.tokens ++ (ss.flatMap Statement.tokens ++ closing.1 :: ts)).head?,
        t.kind ≠ .constWord := by
    refine head_flatMap_append (fun v => ?_) vs (fun t ht => (ends ss closing ts t ht).1)
    obtain ⟨t, ts, hv, ht⟩ := v.head_tokens
    exact ⟨t, ts, hv, by simp [ht]⟩
  have closes (closing : Leaf .endWord) (ts : List Token) :
      ∀ t ∈ (closing.1 :: ts).head?, Statement.starts t.kind = false := by
    simp [closing.2, Statement.starts]
  obtain ⟨opening, cs, vs, ss, closing, final⟩ := p
  obtain ⟨opening', cs', vs', ss', closing', final'⟩ := q
  simp only [tokens, body, List.append_assoc] at h
  obtain ⟨rfl, hc⟩ := Leaf.cons_inj h
  obtain ⟨rfl, hv⟩ := flatMap_decomposes (· == .constWord) (fun _ => True)
    (fun c => by simpa using c.head_tokens) (fun _ _ _ => trivial)
    (fun c _ d us vs h _ _ => c.decomposes d us vs h) hc trivial trivial
    (by simpa using rest vs ss closing [final.1]) (by simpa using rest vs' ss' closing' [final'.1])
  obtain ⟨rfl, hs⟩ := flatMap_decomposes (· == .varWord) (fun _ => True)
    (fun v => by simpa using v.head_tokens) (fun _ _ _ => trivial)
    (fun v _ w us vs h _ _ => v.decomposes w us vs h) hv trivial trivial
    (by simpa using fun t ht => (ends ss closing [final.1] t ht).2)
    (by simpa using fun t ht => (ends ss' closing' [final'.1] t ht).2)
  obtain ⟨rfl, he⟩ := flatMap_decomposes Statement.starts (fun _ => True)
    Statement.head_tokens (fun _ _ _ => trivial)
    (fun s _ t us vs h _ _ => s.decomposes t us vs h) hs trivial trivial
    (closes closing _) (closes closing' _)
  obtain ⟨rfl, hf⟩ := Leaf.cons_inj he
  obtain ⟨rfl, _⟩ := Leaf.cons_inj hf
  rfl

end Program

end PlZero
