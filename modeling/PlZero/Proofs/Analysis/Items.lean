import PlZero.Proofs.Analysis.Expressions
import PlZero.Proofs.Analysis.Table

namespace PlZero

namespace SymbolTable

theorem offset_mark (s : SymbolTable) (x : String) : (s.mark x).offset = s.offset := by
  funext y
  unfold mark markInitialized?
  cases s.index[x]? with
  | none => rfl
  | some i =>
      simp only [Option.map_some, Option.getD_some, offset, lookup?]
      cases s.index[y]? with
      | none => rfl
      | some j =>
          simp only [Option.bind_some, Array.getElem?_modify]
          cases s.symbols[j]? with
          | none => simp
          | some symbol => by_cases h : i = j <;> simp [h]

theorem target_eq_ok_iff {s : SymbolTable} {t : Token} {symbol : Symbol} :
    s.target t = .ok symbol ↔ s.lookup? t.lexeme = some symbol ∧ symbol.constant = false := by
  unfold target
  cases s.lookup? t.lexeme with
  | none => simp
  | some other =>
      by_cases h : other.constant = true
      · simp only [h, if_true, Option.some.injEq]
        constructor
        · intro he
          cases he
        · rintro ⟨rfl, hc⟩
          simp [hc] at h
      · simp only [h, Bool.false_eq_true, if_false, Except.ok.injEq, Option.some.injEq]
        constructor
        · rintro rfl
          exact ⟨rfl, by simpa using h⟩
        · exact fun he => he.1

end SymbolTable

namespace Item

def Legal (s : SymbolTable) : Item → Prop
  | .const c => s.lookup? c.name = none
  | .var v => (∀ x ∈ v.used, s.Defined x) ∧ s.lookup? v.name = none
  | .stmt (.assign ident _ e _) =>
      (∃ symbol, s.lookup? ident.1.lexeme = some symbol ∧ symbol.constant = false) ∧
        ∀ x ∈ e.names, (s.mark ident.1.lexeme).Defined x
  | .stmt (.print _ _ e _ _) => ∀ x ∈ e.names, s.Defined x
  | .stmt (.empty _) => True

def enter (s : SymbolTable) : Item → SymbolTable
  | .const c => s.add c.name true true
  | .var v => s.add v.name false v.initial.isSome
  | .stmt (.assign ident _ _ _) => s.mark ident.1.lexeme
  | .stmt _ => s

theorem tokens_ne_nil (i : Item) : i.tokens ≠ [] := by
  cases i with
  | const c => simp [tokens, Constant.tokens]
  | var v => simp [tokens, Variable.tokens]
  | stmt s => cases s <;> simp [tokens, Statement.tokens]

end Item

namespace Draft

def record (d : Draft) (i : Item) : Draft :=
  ⟨i.enter d.symbols, d.code ++ (i.code d.symbols.offset).toArray⟩

def Admits (d : Draft) : List Item → Prop
  | [] => True
  | i :: l => i.Legal d.symbols ∧ (d.record i).Admits l

theorem admits_append (d : Draft) (l m : List Item) :
    d.Admits (l ++ m) ↔ d.Admits l ∧ (l.foldl record d).Admits m := by
  induction l generalizing d with
  | nil => simp [Admits]
  | cons i l ih => simp [Admits, ih, and_assoc]

end Draft

theorem reading_declare {p : Position} {d : Draft} {t : Token} {c i : Bool} {k : List Task}
    {ts : List Token} (h : d.symbols.lookup? t.lexeme = none) :
    reading p d (.act (.declare t c i) :: k) ts =
      reading p { d with symbols := d.symbols.add t.lexeme c i } k ts := by
  rw [reading_act]
  simp [Action.perform, Draft.declare, SymbolTable.declare_of_fresh h]

theorem of_reading_declare {p : Position} {d r : Draft} {t : Token} {c i : Bool} {k : List Task}
    {ts : List Token} (h : reading p d (.act (.declare t c i) :: k) ts = (none, r)) :
    d.symbols.lookup? t.lexeme = none ∧
      reading p { d with symbols := d.symbols.add t.lexeme c i } k ts = (none, r) := by
  cases hl : d.symbols.lookup? t.lexeme with
  | none => exact ⟨rfl, by rwa [reading_declare hl] at h⟩
  | some symbol =>
      rw [reading_act] at h
      simp [Action.perform, Draft.declare, SymbolTable.declare_of_declared hl] at h

theorem reading_no_constant {p : Position} {d : Draft} {k : List Task} {ts : List Token}
    (h : (look p ts).kind ≠ .constWord) :
    reading p d (.see .constants :: k) ts = reading p d k ts := by
  apply reading_pass
  cases hk : (look p ts).kind <;> simp_all [Goal.react]

theorem reading_no_variable {p : Position} {d : Draft} {k : List Task} {ts : List Token}
    (h : (look p ts).kind ≠ .varWord) :
    reading p d (.see .variables :: k) ts = reading p d k ts := by
  apply reading_pass
  cases hk : (look p ts).kind <;> simp_all [Goal.react]

theorem reading_no_statement {p : Position} {d : Draft} {k : List Task} {ts : List Token}
    (h : Statement.starts (look p ts).kind = false) :
    reading p d (.see .statements :: k) ts = reading p d k ts := by
  apply reading_pass
  cases hk : (look p ts).kind <;> simp_all [Goal.react, Goal.reactStatement, Statement.starts]

theorem reading_constantEnd (p : Position) (d : Draft) (v : Int32) (k : List Task)
    (stop : Leaf .semicolon) (us : List Token) :
    reading p d (Task.constantEnd v ++ k) (stop.1 :: us) = reading p (d.append [⟨.lit, v⟩]) k us := by
  simp only [Task.constantEnd, List.cons_append, List.nil_append]
  rw [reading_token p d (by simp) stop, reading_emit]

theorem reading_constantDigits (p : Position) (d : Draft) (negative : Bool) (k : List Task)
    (number : Leaf .number) (stop : Leaf .semicolon) (us : List Token) :
    reading p d (.see (.constantDigits negative) :: k) (number.1 :: stop.1 :: us) =
      reading p (d.append [⟨.lit, if negative then -literal number.1 else literal number.1⟩]) k us := by
  have hr : (Goal.constantDigits negative).react d.symbols number.1 =
      .take (Task.constantEnd (if negative then -literal number.1 else literal number.1)) := by
    simp [Goal.react, number.2]
  rw [reading_take hr, reading_constantEnd]

theorem reading_constantValue (p : Position) (d : Draft) (k : List Task) (sign : Option Sign)
    (number : Leaf .number) (stop : Leaf .semicolon) (us : List Token) :
    reading p d (.see .constantValue :: k)
        ((sign.map Sign.token).toList ++ number.1 :: stop.1 :: us) =
      reading p (d.append [⟨.lit, Int32.ofInt (Sign.apply number.1.value.toNat sign)⟩]) k us := by
  rcases sign with _ | s | s
  · have hr : Goal.constantValue.react d.symbols number.1 =
        .take (Task.constantEnd (literal number.1)) := by
      simp [Goal.react, number.2]
    simp only [Option.map_none, Option.toList_none, List.nil_append]
    rw [reading_take hr, reading_constantEnd]
    simp [Sign.apply, literal_eq_ofNat, Int32.ofInt_eq_ofNat]
  · have hr : Goal.constantValue.react d.symbols s.1 = .take [.see (.constantDigits false)] := by
      simp [Goal.react, s.2]
    simp only [Option.map_some, Option.toList_some, Sign.token, List.cons_append, List.nil_append]
    rw [reading_take hr, List.singleton_append, reading_constantDigits]
    simp [Sign.apply, literal_eq_ofNat, Int32.ofInt_eq_ofNat]
  · have hr : Goal.constantValue.react d.symbols s.1 = .take [.see (.constantDigits true)] := by
      simp [Goal.react, s.2]
    simp only [Option.map_some, Option.toList_some, Sign.token, List.cons_append, List.nil_append]
    rw [reading_take hr, List.singleton_append, reading_constantDigits]
    simp [Sign.apply, literal_eq_ofNat, Int32.ofInt_eq_ofNat]

section react

variable (s : SymbolTable)

theorem react_const (word : Leaf .constWord) : Goal.constants.react s word.1 =
    .take [.see .constantName, .token .equals, .see .constantValue, .see .constants] := by
  simp [Goal.react, word.2]

theorem react_constantName (ident : Leaf .identifier) :
    Goal.constantName.react s ident.1 = .take [.act (.declare ident.1 true true)] := by
  simp [Goal.react, ident.2]

theorem react_var (word : Leaf .varWord) :
    Goal.variables.react s word.1 = .take [.see .variableName, .see .variables] := by
  simp [Goal.react, word.2]

theorem react_variableName (ident : Leaf .identifier) :
    Goal.variableName.react s ident.1 = .take [.see (.initializer ident.1)] := by
  simp [Goal.react, ident.2]

theorem react_no_initializer (name : Token) (stop : Leaf .semicolon) :
    (Goal.initializer name).react s stop.1 =
      .take [.act (.declare name false false), .emit .lit] := by
  simp [Goal.react, stop.2]

theorem react_initializer (name : Token) (equals : Leaf .equals) :
    (Goal.initializer name).react s equals.1 =
      .take (Task.expression ++ [.token .semicolon, .act (.declare name false true)]) := by
  simp [Goal.react, equals.2]

theorem react_assign {s : SymbolTable} (ident : Leaf .identifier) {symbol : Symbol}
    (h : s.target ident.1 = .ok symbol) :
    Goal.statements.react s ident.1 = .take ([.act (.mark ident.1), .token .equals] ++ Task.expression
      ++ [.token .semicolon, .emit .sto (slot symbol), .see .statements]) := by
  simp [Goal.react, Goal.reactStatement, ident.2, h]

theorem react_print (word : Leaf .printWord) :
    Goal.statements.react s word.1 = .take ([.token .leftParen] ++ Task.expression
      ++ [.token .rightParen, .token .semicolon, .emit .wrt, .see .statements]) := by
  simp [Goal.react, Goal.reactStatement, word.2]

theorem react_empty (stop : Leaf .semicolon) :
    Goal.statements.react s stop.1 = .take [.see .statements] := by
  simp [Goal.react, Goal.reactStatement, stop.2]

end react

theorem reading_constant {p : Position} {d : Draft} {k : List Task} {us : List Token} (c : Constant)
    (h : (Item.const c).Legal d.symbols) :
    reading p d (.see .constants :: k) (c.tokens ++ us) =
      reading p (d.record (.const c)) (.see .constants :: k) us := by
  obtain ⟨word, ident, equals, sign, number, stop⟩ := c
  simp only [Constant.tokens, List.cons_append, List.nil_append, List.append_assoc]
  rw [reading_take (react_const _ word)]
  simp only [List.cons_append, List.nil_append]
  rw [reading_take (react_constantName _ ident), List.singleton_append, reading_declare h,
    reading_token p _ (by simp) equals, reading_constantValue]
  rfl

theorem of_reading_constantEnd {p : Position} {d r : Draft} {v : Int32} {k : List Task}
    {ts : List Token} (h : reading p d (Task.constantEnd v ++ k) ts = (none, r)) :
    ∃ (stop : Leaf .semicolon) (us : List Token), ts = stop.1 :: us := by
  obtain ⟨stop, us, rfl, _⟩ := of_reading_token h
  exact ⟨stop, us, rfl⟩

theorem of_reading_constantDigits {p : Position} {d r : Draft} {negative : Bool} {k : List Task}
    {ts : List Token} (h : reading p d (.see (.constantDigits negative) :: k) ts = (none, r)) :
    ∃ (number : Leaf .number) (stop : Leaf .semicolon) (us : List Token),
      ts = number.1 :: stop.1 :: us := by
  rw [reading_see p d] at h
  by_cases hk : (look p ts).kind = .number
  · obtain ⟨number, us, rfl⟩ := leaf_of_look hk (by simp)
    simp only [Goal.react, look_cons, number.2, List.tail_cons] at h
    obtain ⟨stop, vs, rfl⟩ := of_reading_constantEnd h
    exact ⟨number, stop, vs, rfl⟩
  · cases hk' : (look p ts).kind <;> simp_all [Goal.react]

theorem of_reading_constantValue {p : Position} {d r : Draft} {k : List Task} {ts : List Token}
    (h : reading p d (.see .constantValue :: k) ts = (none, r)) :
    ∃ (sign : Option Sign) (number : Leaf .number) (stop : Leaf .semicolon) (us : List Token),
      ts = (sign.map Sign.token).toList ++ number.1 :: stop.1 :: us := by
  rw [reading_see p d] at h
  cases hk : (look p ts).kind
  case plus =>
      obtain ⟨s, us, rfl⟩ := leaf_of_look hk (by simp)
      simp only [Goal.react, look_cons, s.2, List.tail_cons, List.singleton_append] at h
      obtain ⟨number, stop, vs, rfl⟩ := of_reading_constantDigits h
      exact ⟨some (.plus s), number, stop, vs, rfl⟩
  case minus =>
      obtain ⟨s, us, rfl⟩ := leaf_of_look hk (by simp)
      simp only [Goal.react, look_cons, s.2, List.tail_cons, List.singleton_append] at h
      obtain ⟨number, stop, vs, rfl⟩ := of_reading_constantDigits h
      exact ⟨some (.minus s), number, stop, vs, rfl⟩
  case number =>
      obtain ⟨number, us, rfl⟩ := leaf_of_look hk (by simp)
      simp only [Goal.react, look_cons, number.2, List.tail_cons] at h
      obtain ⟨stop, vs, rfl⟩ := of_reading_constantEnd h
      exact ⟨none, number, stop, vs, rfl⟩
  all_goals simp [Goal.react, hk] at h

theorem of_reading_constant {p : Position} {d r : Draft} {k : List Task} {ts : List Token}
    (h : reading p d (.see .constants :: k) ts = (none, r)) :
    (∃ c us, ts = c.tokens ++ us ∧ (Item.const c).Legal d.symbols) ∨
    reading p d k ts = (none, r) := by
  by_cases hk : (look p ts).kind = .constWord
  · left
    obtain ⟨word, us, rfl⟩ := leaf_of_look hk (by simp)
    simp only [reading_see p d .constants, Goal.react, look_cons, word.2, List.tail_cons,
      List.cons_append, List.nil_append] at h
    rw [reading_see p d] at h
    by_cases hi : (look p us).kind = .identifier
    · obtain ⟨ident, vs, rfl⟩ := leaf_of_look hi (by simp)
      simp only [Goal.react, look_cons, ident.2, List.tail_cons, List.singleton_append] at h
      obtain ⟨hfresh, hequals⟩ := of_reading_declare h
      obtain ⟨equals, ws, rfl, hvalue⟩ := of_reading_token hequals
      obtain ⟨sign, number, stop, xs, rfl⟩ := of_reading_constantValue hvalue
      exact ⟨⟨word, ident, equals, sign, number, stop⟩, xs, by simp [Constant.tokens], hfresh⟩
    · cases hi' : (look p us).kind <;> simp_all [Goal.react]
  · exact .inr (by rwa [reading_no_constant hk] at h)

theorem reading_variable {p : Position} {d : Draft} {k : List Task} {us : List Token} (v : Variable)
    (h : (Item.var v).Legal d.symbols) :
    reading p d (.see .variables :: k) (v.tokens ++ us) =
      reading p (d.record (.var v)) (.see .variables :: k) us := by
  obtain ⟨word, ident, initial, stop⟩ := v
  obtain ⟨hused, hfresh⟩ := h
  simp only [Variable.tokens, List.cons_append, List.nil_append, List.append_assoc]
  rw [reading_take (react_var _ word), List.cons_append,
    reading_take (react_variableName _ ident), List.singleton_append]
  rcases initial with _ | ⟨equals, e⟩
  · simp only [Option.map_none, Option.getD_none, List.nil_append]
    rw [reading_take (react_no_initializer _ ident.1 stop), List.cons_append,
      reading_declare hfresh, List.singleton_append, reading_emit]
    simp [Draft.record, Draft.append, Item.enter, Item.code, Variable.name]
  · simp only [Option.map_some, Option.getD_some, List.cons_append]
    rw [reading_take (react_initializer _ ident.1 equals), List.append_assoc,
      reading_expression e hused (look_stops stop rfl p us)]
    simp only [List.cons_append, List.nil_append]
    have hdeclare : (d.append (e.code d.symbols.offset)).symbols.lookup? ident.1.lexeme = none := hfresh
    rw [reading_token p _ (by simp) stop, reading_declare hdeclare]
    simp [Draft.record, Draft.append, Item.enter, Item.code, Variable.name]

theorem of_reading_variable {p : Position} {d r : Draft} {k : List Task} {ts : List Token}
    (h : reading p d (.see .variables :: k) ts = (none, r)) :
    (∃ v us, ts = v.tokens ++ us ∧ (Item.var v).Legal d.symbols) ∨
    reading p d k ts = (none, r) := by
  by_cases hk : (look p ts).kind = .varWord
  · left
    obtain ⟨word, us, rfl⟩ := leaf_of_look hk (by simp)
    simp only [reading_see p d .variables, Goal.react, look_cons, word.2, List.tail_cons,
      List.cons_append, List.nil_append] at h
    rw [reading_see p d] at h
    by_cases hi : (look p us).kind = .identifier
    · obtain ⟨ident, vs, rfl⟩ := leaf_of_look hi (by simp)
      simp only [Goal.react, look_cons, ident.2, List.tail_cons, List.singleton_append] at h
      rw [reading_see p d] at h
      cases hv : (look p vs).kind
      case equals =>
          obtain ⟨equals, ws, rfl⟩ := leaf_of_look hv (by simp)
          simp only [Goal.react, look_cons, equals.2, List.tail_cons, List.append_assoc] at h
          obtain ⟨e, xs, rfl, hused, hstop⟩ := of_reading_expression h
          obtain ⟨stop, ys, rfl, hdeclare⟩ := of_reading_token hstop
          obtain ⟨hfresh, _⟩ := of_reading_declare hdeclare
          exact ⟨⟨word, ident, some (equals, e), stop⟩, ys, by simp [Variable.tokens], hused, hfresh⟩
      case semicolon =>
          obtain ⟨stop, ws, rfl⟩ := leaf_of_look hv (by simp)
          simp only [Goal.react, look_cons, stop.2, List.tail_cons, List.cons_append] at h
          obtain ⟨hfresh, _⟩ := of_reading_declare h
          exact ⟨⟨word, ident, none, stop⟩, ws, by simp [Variable.tokens], by simp [Variable.used],
            hfresh⟩
      all_goals simp [Goal.react, hv] at h
    · cases hi' : (look p us).kind <;> simp_all [Goal.react]
  · exact .inr (by rwa [reading_no_variable hk] at h)

theorem reading_mark (p : Position) (d : Draft) (t : Token) (k : List Task) (ts : List Token) :
    reading p d (.act (.mark t) :: k) ts =
      reading p { d with symbols := d.symbols.mark t.lexeme } k ts := by
  rw [reading_act]
  rfl

theorem reading_statement {p : Position} {d : Draft} {k : List Task} {us : List Token}
    (s : Statement) (h : (Item.stmt s).Legal d.symbols) :
    reading p d (.see .statements :: k) (s.tokens ++ us) =
      reading p (d.record (.stmt s)) (.see .statements :: k) us := by
  cases s with
  | assign ident equals e stop =>
      obtain ⟨⟨symbol, hl, hc⟩, hused⟩ := h
      have htarget := SymbolTable.target_eq_ok_iff.mpr ⟨hl, hc⟩
      simp only [Statement.tokens, List.cons_append, List.nil_append, List.append_assoc]
      rw [reading_take (react_assign ident htarget)]
      simp only [List.cons_append, List.nil_append, List.append_assoc]
      rw [reading_mark, reading_token p _ (by simp) equals,
        reading_expression e (d := ⟨d.symbols.mark ident.1.lexeme, d.code⟩) hused
          (look_stops stop rfl p us),
        reading_token p _ (by simp) stop, reading_emit, SymbolTable.slot_eq_offset hl]
      simp [Draft.record, Draft.append, Item.enter, Item.code, SymbolTable.offset_mark]
  | print word l e close stop =>
      simp only [Statement.tokens, List.cons_append, List.nil_append, List.append_assoc]
      rw [reading_take (react_print _ word)]
      simp only [List.cons_append, List.nil_append, List.append_assoc]
      rw [reading_token p _ (by simp) l, reading_expression e h (look_stops close rfl p _),
        reading_token p _ (by simp) close, reading_token p _ (by simp) stop, reading_emit]
      simp [Draft.record, Draft.append, Item.enter, Item.code]
  | empty stop =>
      simp only [Statement.tokens, List.cons_append, List.nil_append]
      rw [reading_take (react_empty _ stop)]
      simp [Draft.record, Item.enter, Item.code]

theorem of_reading_statement {p : Position} {d r : Draft} {k : List Task} {ts : List Token}
    (h : reading p d (.see .statements :: k) ts = (none, r)) :
    (∃ s us, ts = s.tokens ++ us ∧ (Item.stmt s).Legal d.symbols) ∨
    reading p d k ts = (none, r) := by
  rw [reading_see p d] at h
  cases hk : (look p ts).kind
  case identifier =>
      left
      obtain ⟨ident, us, rfl⟩ := leaf_of_look hk (by simp)
      cases ht : d.symbols.target ident.1 with
      | error e => simp [Goal.react, Goal.reactStatement, ident.2, ht] at h
      | ok symbol =>
          simp only [Goal.react, Goal.reactStatement, look_cons, ident.2, ht, List.tail_cons,
            List.cons_append, List.nil_append, List.append_assoc] at h
          rw [reading_mark] at h
          obtain ⟨equals, vs, rfl, he⟩ := of_reading_token h
          obtain ⟨e, ws, rfl, hused, hs⟩ := of_reading_expression he
          obtain ⟨stop, xs, rfl, _⟩ := of_reading_token hs
          exact ⟨.assign ident equals e stop, xs, by simp [Statement.tokens],
            ⟨symbol, SymbolTable.target_eq_ok_iff.mp ht⟩, hused⟩
  case printWord =>
      left
      obtain ⟨word, us, rfl⟩ := leaf_of_look hk (by simp)
      simp only [Goal.react, Goal.reactStatement, look_cons, word.2, List.tail_cons,
        List.cons_append, List.nil_append, List.append_assoc] at h
      obtain ⟨l, vs, rfl, he⟩ := of_reading_token h
      obtain ⟨e, ws, rfl, hused, hc⟩ := of_reading_expression he
      obtain ⟨close, xs, rfl, hs⟩ := of_reading_token hc
      obtain ⟨stop, ys, rfl, _⟩ := of_reading_token hs
      exact ⟨.print word l e close stop, ys, by simp [Statement.tokens], hused⟩
  case semicolon =>
      left
      obtain ⟨stop, us, rfl⟩ := leaf_of_look hk (by simp)
      exact ⟨.empty stop, us, rfl, trivial⟩
  all_goals
    right
    simpa [Goal.react, Goal.reactStatement, hk] using h

end PlZero
