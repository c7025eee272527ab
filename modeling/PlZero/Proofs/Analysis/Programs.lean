import PlZero.Proofs.Analysis.Items

namespace PlZero

theorem reading_items {α : Type} {p : Position} {g : Goal} {k : List Task} (f : α → Item)
    (step : ∀ (d : Draft) (a : α) (us : List Token), (f a).Legal d.symbols →
      reading p d (.see g :: k) ((f a).tokens ++ us) = reading p (d.record (f a)) (.see g :: k) us)
    (l : List α) {d : Draft} {us : List Token} (h : d.Admits (l.map f)) :
    reading p d (.see g :: k) ((l.map f).flatMap Item.tokens ++ us) =
      reading p ((l.map f).foldl Draft.record d) (.see g :: k) us := by
  induction l generalizing d with
  | nil => rfl
  | cons a l ih =>
      obtain ⟨ha, hl⟩ := h
      simp only [List.map_cons, List.flatMap_cons, List.append_assoc, List.foldl_cons]
      rw [step d a _ ha, ih hl]

theorem of_reading_items {α : Type} {p : Position} {g : Goal} {k : List Task} (f : α → Item)
    (step : ∀ (d : Draft) (a : α) (us : List Token), (f a).Legal d.symbols →
      reading p d (.see g :: k) ((f a).tokens ++ us) = reading p (d.record (f a)) (.see g :: k) us)
    (split : ∀ {d r : Draft} {ts : List Token}, reading p d (.see g :: k) ts = (none, r) →
      (∃ a us, ts = (f a).tokens ++ us ∧ (f a).Legal d.symbols) ∨ reading p d k ts = (none, r))
    {d r : Draft} (ts : List Token) (h : reading p d (.see g :: k) ts = (none, r)) :
    ∃ (l : List α) (us : List Token), ts = (l.map f).flatMap Item.tokens ++ us ∧
      d.Admits (l.map f) ∧ reading p ((l.map f).foldl Draft.record d) k us = (none, r) := by
  induction hlen : ts.length using Nat.strongRecOn generalizing ts d with
  | _ len ih =>
      rcases split h with ⟨a, us, rfl, ha⟩ | h
      · rw [step d a us ha] at h
        have hpos := List.length_pos_iff.mpr (f a).tokens_ne_nil
        rw [List.length_append] at hlen
        obtain ⟨l, vs, rfl, hl, hrest⟩ := ih us.length (by omega) us h rfl
        exact ⟨a :: l, vs, by simp, ⟨ha, hl⟩, hrest⟩
      · exact ⟨[], ts, rfl, trivial, h⟩

def untilEnd (p : Position) : List Token → List Token
  | [] => [Token.endOfText p]
  | t :: ts => if t.kind = .eof then [t] else t :: untilEnd p ts

theorem untilEnd_append {p : Position} {l : List Token} (hl : ∀ t ∈ l, t.kind ≠ .eof)
    (us : List Token) : untilEnd p (l ++ us) = l ++ untilEnd p us := by
  induction l with
  | nil => rfl
  | cons t l ih =>
      rw [List.cons_append, untilEnd, if_neg (hl t (by simp)), ih fun x hx => hl x (by simp [hx])]
      rfl

theorem untilEnd_of_look {p : Position} {us : List Token} (h : (look p us).kind = .eof) :
    untilEnd p us = [look p us] := by
  cases us with
  | nil => rfl
  | cons t us =>
      rw [look_cons] at h ⊢
      simp [untilEnd, h]

theorem of_untilEnd_eq {p : Position} {l : List Token} (hl : ∀ t ∈ l, t.kind ≠ .eof)
    {e : Leaf .eof} {ts : List Token} (h : untilEnd p ts = l ++ [e.1]) :
    ∃ us, ts = l ++ us ∧ look p us = e.1 := by
  induction l generalizing ts with
  | nil =>
      refine ⟨ts, rfl, ?_⟩
      cases ts with
      | nil => simpa [untilEnd] using h
      | cons t ts =>
          rw [untilEnd] at h
          split at h
          · simpa using h
          · next hk =>
              have : t = e.1 := by simpa using (List.cons.inj h).1
              exact absurd (this ▸ e.2) hk
  | cons t l ih =>
      have ht := hl t (by simp)
      cases ts with
      | nil =>
          have : Token.endOfText p = t := by simpa using (List.cons.inj h).1
          exact absurd (this ▸ rfl) ht
      | cons t' ts =>
          rw [untilEnd] at h
          split at h
          · next hk =>
              have : t' = t := by simpa using (List.cons.inj h).1
              exact absurd (this ▸ hk) ht
          · simp only [List.cons_append, List.cons.injEq] at h
            obtain ⟨us, rfl, hu⟩ := ih (fun x hx => hl x (by simp [hx])) h.2
            exact ⟨us, by rw [h.1]; rfl, hu⟩

theorem Item.kind_ne_eof (i : Item) : ∀ t ∈ i.tokens, t.kind ≠ .eof := by
  have hsign (s : Sign) : s.token.kind ≠ .eof := by
    cases s with
    | plus t => simp [Sign.token, t.2]
    | minus t => simp [Sign.token, t.2]
  cases i using forms with
  | const c =>
      have hs : ∀ t ∈ (c.sign.map Sign.token).toList, t.kind ≠ .eof := by
        cases c.sign with
        | none => simp
        | some s => simpa using hsign s
      simpa [tokens, Constant.tokens, c.word.2, c.ident.2, c.equals.2, c.number.2, c.stop.2, or_imp,
        forall_and] using hs
  | plain word ident stop => simp [tokens, Variable.tokens, word.2, ident.2, stop.2]
  | initial word ident equals e stop =>
      simpa [tokens, Variable.tokens, word.2, ident.2, equals.2, stop.2, or_imp, forall_and]
        using e.kind_ne_eof
  | assign ident equals e stop =>
      simpa [tokens, Statement.tokens, ident.2, equals.2, stop.2, or_imp, forall_and]
        using e.kind_ne_eof
  | print word l e r stop =>
      simpa [tokens, Statement.tokens, word.2, l.2, r.2, stop.2, or_imp, forall_and]
        using e.kind_ne_eof
  | empty stop => simp [tokens, Statement.tokens, stop.2]

namespace Program

theorem kind_ne_eof (P : Program) :
    ∀ t ∈ P.opening.1 :: (P.body ++ [P.closing.1]), t.kind ≠ .eof := by
  intro t ht
  simp only [List.mem_cons, List.mem_append, List.not_mem_nil, or_false] at ht
  rcases ht with rfl | ht | rfl
  · simp [P.opening.2]
  · rw [← P.flatMap_items_tokens, List.mem_flatMap] at ht
    obtain ⟨i, _, hi⟩ := ht
    exact i.kind_ne_eof t hi
  · simp [P.closing.2]

theorem tokens_eq (P : Program) :
    P.tokens = P.opening.1 :: (P.body ++ [P.closing.1]) ++ [P.final.1] := by
  simp [tokens]

end Program

theorem of_reading_program {p : Position} {d r : Draft} {ts : List Token}
    (h : reading p d Task.program ts = (none, r)) :
    ∃ P : Program, P.tokens = untilEnd p ts ∧ d.Admits P.items ∧ r = P.items.foldl Draft.record d := by
  obtain ⟨opening, us, rfl, hc⟩ := of_reading_token h
  obtain ⟨cs, vs, rfl, hcs, hv⟩ := of_reading_items .const
    (fun d c us => reading_constant c) of_reading_constant us hc
  obtain ⟨xs, ws, rfl, hxs, hs⟩ := of_reading_items .var
    (fun d v us => reading_variable v) of_reading_variable vs hv
  obtain ⟨ss, ys, rfl, hss, he⟩ := of_reading_items .stmt
    (fun d s us => reading_statement s) of_reading_statement ws hs
  obtain ⟨closing, zs, rfl, hend⟩ := of_reading_token he
  rw [reading_done] at hend
  split at hend
  · next hk =>
      let P : Program := ⟨opening, cs, xs, ss, closing, ⟨look p zs, hk⟩⟩
      have hts : opening.1 :: ((cs.map Item.const).flatMap Item.tokens ++
          ((xs.map Item.var).flatMap Item.tokens ++
            ((ss.map Item.stmt).flatMap Item.tokens ++ closing.1 :: zs))) =
          P.opening.1 :: (P.body ++ [P.closing.1]) ++ zs := by
        simp [P, ← Program.flatMap_items_tokens, Program.items]
      refine ⟨P, ?_, ?_, ?_⟩
      · rw [hts, untilEnd_append P.kind_ne_eof, untilEnd_of_look hk, P.tokens_eq]
      · simpa [P, Program.items, Draft.admits_append, and_assoc] using ⟨hcs, hxs, hss⟩
      · simpa [P, Program.items] using hend.symm
  · simp at hend

section sections

variable {p : Position}

theorem look_closing (closing : Leaf .endWord) (us : List Token) :
    Statement.starts (look p (closing.1 :: us)).kind = false := by
  simp [closing.2, Statement.starts]

theorem look_statements (ss : List Statement) (closing : Leaf .endWord) (us : List Token) :
    (look p ((ss.map Item.stmt).flatMap Item.tokens ++ closing.1 :: us)).kind ≠ .varWord ∧
      (look p ((ss.map Item.stmt).flatMap Item.tokens ++ closing.1 :: us)).kind ≠ .constWord := by
  cases ss with
  | nil => simp [closing.2]
  | cons s ss =>
      obtain ⟨t, ts, hs, ht⟩ := s.head_tokens
      constructor <;> intro hk <;> simp [Item.tokens, hs] at hk <;> simp [hk, Statement.starts] at ht

theorem look_variables (vs : List Variable) (ss : List Statement) (closing : Leaf .endWord)
    (us : List Token) :
    (look p ((vs.map Item.var).flatMap Item.tokens ++
      ((ss.map Item.stmt).flatMap Item.tokens ++ closing.1 :: us))).kind ≠ .constWord := by
  cases vs with
  | nil => exact (look_statements ss closing us).2
  | cons v vs =>
      obtain ⟨t, ts, hv, ht⟩ := v.head_tokens
      simp [Item.tokens, hv, ht]

end sections

theorem Program.exists_sections {p : Position} {ts : List Token} {P : Program}
    (hP : P.tokens = untilEnd p ts) :
    ∃ us, (look p us).kind = .eof ∧
      ts = P.opening.1 :: ((P.constants.map Item.const).flatMap Item.tokens ++
        ((P.vars.map Item.var).flatMap Item.tokens ++
          ((P.statements.map Item.stmt).flatMap Item.tokens ++ P.closing.1 :: us))) := by
  rw [P.tokens_eq] at hP
  obtain ⟨us, rfl, hlook⟩ := of_untilEnd_eq P.kind_ne_eof hP.symm
  refine ⟨us, by rw [hlook]; exact P.final.2, ?_⟩
  simp [← Program.flatMap_items_tokens, Program.items]

theorem reading_program {p : Position} {d : Draft} {ts : List Token} {P : Program}
    (hP : P.tokens = untilEnd p ts) (h : d.Admits P.items) :
    reading p d Task.program ts = (none, P.items.foldl Draft.record d) := by
  obtain ⟨us, hfinal, rfl⟩ := P.exists_sections hP
  obtain ⟨opening, cs, vs, ss, closing, final⟩ := P
  simp only [Program.items, Draft.admits_append, List.foldl_append] at h
  obtain ⟨⟨hcs, hvs⟩, hss⟩ := h
  rw [Task.program, reading_token p d (by simp) opening,
    reading_items .const (fun d c us => reading_constant c) cs hcs,
    reading_no_constant (look_variables vs ss closing us),
    reading_items .var (fun d v us => reading_variable v) vs hvs,
    reading_no_variable (look_statements ss closing us).1,
    reading_items .stmt (fun d s us => reading_statement s) ss hss,
    reading_no_statement (look_closing closing us), reading_token p _ (by simp) closing, reading_done,
    if_pos hfinal]
  simp [Program.items]

end PlZero
