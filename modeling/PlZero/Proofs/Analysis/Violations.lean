import PlZero.Proofs.Analysis.Checks
import PlZero.Proofs.Analysis.Language

namespace PlZero

-- Reading on from one list of tasks and tokens to another makes the checks in order, and stops at the
-- first that fails with the symbols as they are then. What code there is by then is left open.
def Makes (p : Position) (d : Draft) (tasks : List Task) (ts : List Token) (checks : List Check)
    (rest : List Task) (us : List Token) : Prop :=
  ∃ code, reading p d tasks ts =
    match audit d.symbols checks with
    | (none, s) => reading p ⟨s, code⟩ rest us
    | (some e, s) => (some e, ⟨s, code⟩)

namespace Makes

variable {p : Position} {d d' : Draft} {tasks rest last : List Task} {ts us vs : List Token}
  {checks more : List Check} {c : Check} {e : CompileError}

theorem refl : Makes p d tasks ts [] tasks ts := ⟨d.code, rfl⟩

theorem skip (heq : reading p d tasks ts = reading p d' rest us) (hd : d'.symbols = d.symbols)
    (h : Makes p d' rest us checks last vs) : Makes p d tasks ts checks last vs := by
  rw [Makes, heq, ← hd]
  exact h

theorem pass (heq : reading p d tasks ts = reading p d' rest us) (hrun : c.run d.symbols = .ok d'.symbols)
    (h : Makes p d' rest us checks last vs) : Makes p d tasks ts (c :: checks) last vs := by
  rw [Makes, heq, audit, hrun]
  exact h

theorem fail (heq : reading p d tasks ts = (some e, d)) (hrun : c.run d.symbols = .error e) :
    Makes p d tasks ts (c :: checks) last vs := by
  rw [Makes, heq, audit, hrun]
  exact ⟨d.code, rfl⟩

theorem trans (h : Makes p d tasks ts checks rest us) (h' : ∀ d, Makes p d rest us more last vs) :
    Makes p d tasks ts (checks ++ more) last vs := by
  obtain ⟨code, hcode⟩ := h
  rw [Makes, hcode, audit_append]
  rcases audit d.symbols checks with ⟨_ | e, s⟩
  · exact h' ⟨s, code⟩
  · exact ⟨code, rfl⟩

theorem append (h : Makes p d tasks ts checks rest us) (h' : ∀ d, Makes p d rest us [] last vs) :
    Makes p d tasks ts checks last vs := by
  rw [← checks.append_nil]
  exact h.trans h'

theorem of_eq (heq : reading p d tasks ts = reading p d' rest us) (hd : d'.symbols = d.symbols) :
    Makes p d tasks ts [] rest us :=
  .skip heq hd .refl

end Makes

variable {p : Position} {d : Draft} {k : List Task} {us : List Token}

theorem makes_declare (ident : Leaf .identifier) (c i : Bool) :
    Makes p d (.act (.declare ident.1 c i) :: k) us [.declare ident c i] k us := by
  cases hl : d.symbols.lookup? ident.1.lexeme with
  | none => exact .pass (reading_declare hl) (by rw [Check.run, hl]) .refl
  | some symbol =>
      refine .fail ?_ (by rw [Check.run, hl])
      rw [reading_act]
      simp [Action.perform, Draft.declare, SymbolTable.declare_of_declared hl, Complaint.about]

theorem makes_use (ident : Leaf .identifier) :
    Makes p d (.see .operand :: k) (ident.1 :: us) [.use ident] k us := by
  cases hs : d.symbols.source ident.1 with
  | error e =>
      refine .fail ?_ (by rw [Check.run, hs]; rfl)
      simp [reading_see, Goal.react, Goal.reactOperand, ident.2, hs]
  | ok symbol =>
      have hr : Goal.operand.react d.symbols ident.1 = .take [.emit .lod (slot symbol)] := by
        simp [Goal.react, Goal.reactOperand, ident.2, hs]
      exact .pass ((reading_take hr k us).trans (reading_emit ..))
        (by rw [Check.run, hs]; rfl) .refl

theorem makes_link {c m : Category} {a : Tree c} {b : Tree m} {t : Token} {g : Goal}
    {l l' : List Check} (op : Opcode) (hc : c.rest = [.see g])
    (hr : ∀ s, g.react s t = .take (m.tasks ++ [.emit op, .see g]))
    (ha : Makes p d (c.tasks ++ k) (a.tokens ++ (t :: (b.tokens ++ us))) l (c.rest ++ k)
      (t :: (b.tokens ++ us)))
    (hb : ∀ d, Makes p d (m.tasks ++ (.emit op :: .see g :: k)) (b.tokens ++ us) l'
      (.emit op :: .see g :: k) us) :
    Makes p d (c.tasks ++ k) ((a.tokens ++ t :: b.tokens) ++ us) (l ++ l') (c.rest ++ k) us := by
  rw [List.append_assoc, List.cons_append]
  refine ha.trans fun d => ?_
  rw [hc, List.singleton_append]
  refine .skip ?_ rfl ((hb d).append fun d => .of_eq (reading_emit ..) rfl)
  rw [reading_take (hr _), List.append_assoc]
  rfl

theorem makes_tree {c : Category} (t : Tree c) (p : Position) (d : Draft) (k : List Task)
    (us : List Token) (hp : c.pauses (look p us).kind = true) :
    Makes p d (c.tasks ++ k) (t.tokens ++ us) (t.identifiers.map .use) (c.rest ++ k) us := by
  induction t generalizing d k us with
  | name t => exact makes_use t
  | number t =>
      exact .of_eq ((reading_take (react_number _ t) k us).trans (reading_emit ..)) rfl
  | group l e r ih =>
      have hc := look_stops r rfl p us
      simp only [Category.tasks, Tree.tokens, List.cons_append, List.nil_append, List.append_assoc]
      refine .skip (reading_take (react_group _ l) ..) rfl ?_
      rw [List.append_assoc]
      exact (ih d _ _ (pauses_of_stops hc)).append fun d =>
        .of_eq ((reading_moreTerms hc).trans (reading_token p d (by simp) r k us)) rfl
  | plain o ih =>
      obtain ⟨t, ts, ho, hplus, hminus⟩ := o.head_operand
      have hl : look p (o.plain.tokens ++ us) = t := by simp [Tree.tokens, ho]
      exact .skip (reading_unsigned (by rw [hl]; exact hplus) (by rw [hl]; exact hminus)) rfl
        (ih d k us rfl)
  | positive s o ih =>
      exact .skip (reading_take (react_positive _ s) ..) rfl (ih d k us rfl)
  | negative s o ih =>
      refine .skip ((reading_take (react_negative _ s) ..).trans (reading_emit ..)) rfl ?_
      exact (ih _ (.emit .sub :: k) us rfl).append fun d => .of_eq (reading_emit ..) rfl
  | single f ih => exact ih d (.see .moreFactors :: k) us rfl
  | lone t ih =>
      have hpass : Category.term.continues (look p us).kind = false := by
        simpa [Category.pauses] using hp
      exact (ih d (.see .moreTerms :: k) us rfl).append fun d =>
        .of_eq (reading_moreFactors hpass) rfl
  | product a s b iha ihb =>
      rw [Tree.identifiers, List.map_append]
      refine makes_link .mul (g := .moreFactors) rfl (fun t => ?_) (iha d k _ rfl)
        fun d => ihb d _ us rfl
      simp [Goal.react, s.2, Category.tasks]
  | quotient a s b iha ihb =>
      rw [Tree.identifiers, List.map_append]
      refine makes_link .div (g := .moreFactors) rfl (fun t => ?_) (iha d k _ rfl)
        fun d => ihb d _ us rfl
      simp [Goal.react, s.2, Category.tasks]
  | sum a s b iha ihb =>
      have hpass : Category.term.continues (look p us).kind = false := by
        simpa [Category.pauses] using hp
      rw [Tree.identifiers, List.map_append]
      refine makes_link .add (g := .moreTerms) rfl (fun t => ?_) (iha d k _ ?_)
        fun d => (ihb d _ us rfl).append fun d => .of_eq (reading_moreFactors hpass) rfl
      · simp [Goal.react, s.2, Category.tasks]
      · simp [s.2, Category.pauses, Category.continues]
  | difference a s b iha ihb =>
      have hpass : Category.term.continues (look p us).kind = false := by
        simpa [Category.pauses] using hp
      rw [Tree.identifiers, List.map_append]
      refine makes_link .sub (g := .moreTerms) rfl (fun t => ?_) (iha d k _ ?_)
        fun d => (ihb d _ us rfl).append fun d => .of_eq (reading_moreFactors hpass) rfl
      · simp [Goal.react, s.2, Category.tasks]
      · simp [s.2, Category.pauses, Category.continues]

theorem makes_expression (e : Expression)
    (hs : Category.expression.continues (look p us).kind = false) :
    Makes p d (Task.expression ++ k) (e.tokens ++ us) (e.identifiers.map .use) k us :=
  (makes_tree e p d k us (pauses_of_stops hs)).append fun _ => .of_eq (reading_moreTerms hs) rfl

theorem makes_constant (c : Constant) :
    Makes p d (.see .constants :: k) (c.tokens ++ us) (Item.const c).checks (.see .constants :: k) us := by
  obtain ⟨word, ident, equals, sign, number, stop⟩ := c
  simp only [Constant.tokens, List.cons_append, List.nil_append, List.append_assoc]
  refine .skip (reading_take (react_const _ word) ..) rfl ?_
  refine .skip (reading_take (react_constantName _ ident) ..) rfl ?_
  exact (makes_declare ident true true).append fun d => .of_eq
    ((reading_token p d (by simp) equals ..).trans (reading_constantValue ..)) rfl

theorem makes_variable (v : Variable) :
    Makes p d (.see .variables :: k) (v.tokens ++ us) (Item.var v).checks (.see .variables :: k) us := by
  obtain ⟨word, ident, initial, stop⟩ := v
  simp only [Variable.tokens, List.cons_append, List.nil_append, List.append_assoc]
  refine .skip (reading_take (react_var _ word) ..) rfl ?_
  refine .skip (reading_take (react_variableName _ ident) ..) rfl ?_
  rcases initial with _ | ⟨equals, e⟩
  · refine .skip (reading_take (react_no_initializer _ ident.1 stop) ..) rfl ?_
    exact (makes_declare ident false false).append fun d => .of_eq (reading_emit ..) rfl
  · simp only [Option.map_some, Option.getD_some, List.cons_append]
    refine .skip (reading_take (react_initializer _ ident.1 equals) ..) rfl ?_
    rw [List.append_assoc]
    exact (makes_expression e (look_stops stop rfl p us)).trans fun d =>
      .skip (reading_token p d (by simp) stop ..) rfl (makes_declare ident false true)

theorem makes_statement (s : Statement) :
    Makes p d (.see .statements :: k) (s.tokens ++ us) (Item.stmt s).checks (.see .statements :: k)
      us := by
  cases s with
  | assign ident equals e stop =>
      simp only [Statement.tokens, List.cons_append, List.nil_append, List.append_assoc]
      cases htarget : d.symbols.target ident.1 with
      | error err =>
          refine .fail ?_ (by rw [Check.run, htarget]; rfl)
          simp [reading_see, Goal.react, Goal.reactStatement, ident.2, htarget]
      | ok symbol =>
          refine .pass ((reading_take (react_assign ident htarget) ..).trans (reading_mark ..))
            (by rw [Check.run, htarget]; rfl) ?_
          refine .skip (reading_token p _ (by simp) equals ..) rfl ?_
          exact (makes_expression e (look_stops stop rfl p us)).append fun d =>
            .of_eq ((reading_token p d (by simp) stop ..).trans (reading_emit ..)) rfl
  | print word l e close stop =>
      simp only [Statement.tokens, List.cons_append, List.nil_append, List.append_assoc]
      refine .skip (reading_take (react_print _ word) ..) rfl ?_
      refine .skip (reading_token p _ (by simp) l ..) rfl ?_
      exact (makes_expression e (look_stops close rfl p _)).append fun d =>
        .of_eq (((reading_token p d (by simp) close ..).trans
          (reading_token p d (by simp) stop ..)).trans (reading_emit ..)) rfl
  | empty stop => exact .of_eq (reading_take (react_empty _ stop) ..) rfl

theorem makes_items {α : Type} {g : Goal} (f : α → Item)
    (step : ∀ (d : Draft) (a : α) (us : List Token),
      Makes p d (.see g :: k) ((f a).tokens ++ us) (f a).checks (.see g :: k) us) (l : List α) :
    Makes p d (.see g :: k) ((l.map f).flatMap Item.tokens ++ us) ((l.map f).flatMap Item.checks)
      (.see g :: k) us := by
  induction l generalizing d with
  | nil => exact .refl
  | cons a l ih =>
      simp only [List.map_cons, List.flatMap_cons, List.append_assoc]
      exact (step d a _).trans fun d => ih

theorem makes_program {ts : List Token} {P : Program} (hP : P.tokens = untilEnd p ts) :
    ∃ us, (look p us).kind = .eof ∧ Makes p d Task.program ts P.checks [] us := by
  obtain ⟨us, hfinal, rfl⟩ := P.exists_sections hP
  obtain ⟨opening, cs, vs, ss, closing, final⟩ := P
  refine ⟨us, hfinal, ?_⟩
  simp only [Program.checks, Program.items, List.flatMap_append, List.append_assoc]
  refine .skip (reading_token p d (by simp) opening ..) rfl ?_
  refine (makes_items .const (fun d c us => makes_constant c) cs).trans fun d => ?_
  refine .skip (reading_no_constant (look_variables vs ss closing us)) rfl ?_
  refine (makes_items .var (fun d v us => makes_variable v) vs).trans fun d => ?_
  refine .skip (reading_no_variable (look_statements ss closing us).1) rfl ?_
  refine (makes_items .stmt (fun d s us => makes_statement s) ss).append fun d => ?_
  exact .of_eq ((reading_no_statement (look_closing closing us)).trans
    (reading_token p d (by simp) closing ..)) rfl

theorem first_violation_reported {ε : Type} {n : Nat} {tokens : List Token} {P : Program}
    (hP : P.tokens = untilEnd p tokens) (hl : ¬ P.Lawful) :
    let verdict := (Analyser.mk (TokenStream.mk (tokens.map .ok) (.eof p : StreamEnd ε) n)
      none {}).analyse
    (∃ before c v, FirstViolation P.checks before c v) ∧
    ∀ before c v, FirstViolation P.checks before c v →
      verdict.1 = .error (.program (v.about c.ident.1)) ∧
      verdict.2.draft.symbols.symbols.toList = symbolsAfter before := by
  intro verdict
  obtain ⟨hanswer, hdraft⟩ := analyse_eq_reading ε p n tokens
  obtain ⟨us, hfinal, code, hreading⟩ := makes_program (d := {}) hP
  rcases audit_cases .empty clean_nil P.checks with
    ⟨s, haudit⟩ | ⟨before, c, v, s, hfirst, hmodels, haudit⟩
  · -- A program that passes all checks would be accepted.
    rw [haudit] at hreading
    have hdone : reading p {} Task.program tokens = (none, ⟨s, code⟩) := by
      rw [hreading]
      exact (reading_done p _ us).trans (if_pos hfinal)
    obtain ⟨Q, hQ, hlawful, -⟩ := (reading_program_iff p tokens _).mp hdone
    exact absurd (Program.tokens_injective (hQ.trans hP.symm) ▸ hlawful) hl
  · rw [haudit] at hreading
    rw [hreading] at hanswer hdraft
    refine ⟨⟨before, c, v, hfirst⟩, fun before' c' v' hfirst' => ?_⟩
    obtain ⟨rfl, rfl, rfl⟩ := hfirst.unique hfirst'
    refine ⟨hanswer, ?_⟩
    rw [hdraft]
    exact hmodels.symbols

-- begin const k=1;var a;var b;a=a-b;k=c;end
def Program.unlawful : Program :=
  ⟨.sample .beginWord "begin" 0 0,
    [⟨.sample .constWord "const" 6 0, .sample .identifier "k" 12 0, .sample .equals "=" 13 0, none,
      .sample .number "1" 14 1, .sample .semicolon ";" 15 0⟩],
    [⟨.sample .varWord "var" 16 0, .sample .identifier "a" 20 0, none, .sample .semicolon ";" 21 0⟩,
      ⟨.sample .varWord "var" 22 0, .sample .identifier "b" 26 0, none, .sample .semicolon ";" 27 0⟩],
    [.assign (.sample .identifier "a" 28 0) (.sample .equals "=" 29 0)
        (.difference (.lone (.single (.plain (.name (.sample .identifier "a" 30 0)))))
          (.sample .minus "-" 31 0) (.single (.plain (.name (.sample .identifier "b" 32 0)))))
        (.sample .semicolon ";" 33 0),
      .assign (.sample .identifier "k" 34 0) (.sample .equals "=" 35 0)
        (.lone (.single (.plain (.name (.sample .identifier "c" 36 0))))) (.sample .semicolon ";" 37 0)],
    .sample .endWord "end" 38 0,
    .sample .eof "" 41 0⟩

theorem first_violation_reported_unlawful :
    Program.unlawful.tokens = untilEnd .start Program.unlawful.tokens ∧ ¬ Program.unlawful.Lawful ∧
    let verdict := (Analyser.mk (ε := Empty) (.ofTokens Program.unlawful.tokens) none {}).analyse
    verdict.1 = .error (.program ⟨⟨0, 32⟩, .notInitialized "b"⟩) ∧
    verdict.2.draft.symbols.symbols.toList =
      [⟨"k", true, true, 0⟩, ⟨"a", false, true, 1⟩, ⟨"b", false, false, 2⟩] := by
  have htokens : Program.unlawful.tokens = untilEnd .start Program.unlawful.tokens := rfl
  have hlawful : ¬ Program.unlawful.Lawful := by
    rintro ⟨-, -, -, hused⟩
    have hb := hused [] _ _ rfl "b" (by decide)
    simp [Readable, Program.unlawful, Constant.name, Variable.name, Leaf.sample, Statement.target?] at hb
  have hclean : Clean (Program.unlawful.checks.take 5) := by
    have hk := clean_nil.concat
      (Violates.not_declare (.sample .identifier "k" 12 0) true true (by decide))
    have ha := hk.concat (Violates.not_declare (.sample .identifier "a" 20 0) false false (by decide))
    have hb := ha.concat (Violates.not_declare (.sample .identifier "b" 26 0) false false (by decide))
    have htarget := hb.concat (Violates.not_assign (.sample .identifier "a" 28 0) (by decide) (by decide))
    exact htarget.concat (Violates.not_use (.sample .identifier "a" 30 0) (by decide) (by decide))
  have hdeclared : ("b", false, false) ∈ declarations (Program.unlawful.checks.take 5) := by decide
  have hfirst : FirstViolation Program.unlawful.checks (Program.unlawful.checks.take 5)
      (.use (.sample .identifier "b" 32 0)) .uninitialized :=
    ⟨⟨_, rfl⟩, hclean, .emptySource hdeclared (by decide)⟩
  exact ⟨htokens, hlawful, (first_violation_reported (ε := Empty) (n := 0) htokens hlawful).2 _ _ _ hfirst⟩

end PlZero
