import PlZero.Proofs.Compilation.Correctness

namespace PlZero

-- How the code ends: at its end, or before the instructions that are left, with a fault of the first.
def Trail.ending (r : Trail) : List Instruction → Trail × Option (Fault × List Instruction)
  | [] => (r, none)
  | i :: code =>
      match r.step i with
      | .ok r => r.ending code
      | .error f => (r, some (f, i :: code))

namespace Trail

theorem ending_append_of_ok {r q : Trail} {c : List Instruction} (h : r.follow c = .ok q)
    (d : List Instruction) : r.ending (c ++ d) = q.ending d := by
  induction c generalizing r with
  | nil =>
      cases h
      rfl
  | cons i c ih =>
      obtain ⟨s, hs, hc⟩ := of_bind_eq_ok h
      rw [List.cons_append, ending, hs]
      exact ih hc

theorem ending_of_ok {r q : Trail} {c : List Instruction} (h : r.follow c = .ok q) :
    r.ending c = (q, none) := by
  have happend := ending_append_of_ok h []
  rwa [List.append_nil] at happend

theorem ending_of_error {r : Trail} {i : Instruction} {f : Fault} (h : i.execute r.stack = .error f)
    (c : List Instruction) : r.ending (i :: c) = (r, some (f, i :: c)) := by
  rw [ending, step_of_error h]

end Trail

theorem Execution.run_ending (code : Array Instruction) {console : Console}
    (hc : console.sink = some (.recorder #[])) :
    ∃ r : Trail, (start code console).run.2.machine.stack = r.stack ∧
      (start code console).run.2.console.sink = some (.recorder r.written.toArray) ∧
      (Trail.ending {} code.toList = (r, none) ∧ (start code console).run.1 = none ∨
        ∃ (k : Nat) (i : Instruction) (more : List Instruction) (f : Fault),
          Trail.ending {} code.toList = (r, some (f, i :: more)) ∧
          k + (i :: more).length = code.size ∧ (start code console).run.1 = some ⟨f, k, i⟩) := by
  obtain ⟨r, hstack, hsink, ⟨hrun, hr⟩ | ⟨done, i, more, f, hcode, hdone, hi, hrun⟩⟩ :=
    run_start code hc
  · exact ⟨r, hstack, hsink, .inl ⟨Trail.ending_of_ok hr, hrun⟩⟩
  · refine ⟨r, hstack, hsink, .inr ⟨done.length, i, more, f, ?_, ?_, hrun⟩⟩
    · rw [hcode, Trail.ending_append_of_ok hdone, Trail.ending_of_error hi]
    · rw [← Array.length_toList, hcode, List.length_append]

-- Two codes that end alike, each at its own length.
theorem Execution.run_alike {code code' : Array Instruction}
    (h : Trail.ending {} code.toList = Trail.ending {} code'.toList) {console : Console}
    (hc : console.sink = some (.recorder #[])) :
    (start code' console).run.2.console.sink = (start code console).run.2.console.sink ∧
    (start code' console).run.2.machine.stack = (start code console).run.2.machine.stack ∧
    ((start code console).run.1 = none ∧ (start code' console).run.1 = none ∨
      ∃ (k k' : Nat) (i : Instruction) (f : Fault), k + code'.size = k' + code.size ∧
        (start code console).run.1 = some ⟨f, k, i⟩ ∧ (start code' console).run.1 = some ⟨f, k', i⟩) := by
  obtain ⟨r, hstack, hsink, hend⟩ := run_ending code hc
  obtain ⟨r', hstack', hsink', hend'⟩ := run_ending code' hc
  rcases hend with ⟨he, hrun⟩ | ⟨k, i, more, f, he, hk, hrun⟩ <;>
    rcases hend' with ⟨he', hrun'⟩ | ⟨k', i', more', f', he', hk', hrun'⟩ <;>
    cases he.symm.trans (h.trans he')
  · exact ⟨hsink'.trans hsink.symm, hstack'.trans hstack.symm, .inl ⟨hrun, hrun'⟩⟩
  · exact ⟨hsink'.trans hsink.symm, hstack'.trans hstack.symm,
      .inr ⟨k, k', i, f, by omega, hrun, hrun'⟩⟩

-- The token, with a word for the declaration of variables in place of one for constants.
def Token.toVariable (word : Token → Leaf .varWord) (t : Token) : Token :=
  if t.kind = .constWord then (word t).1 else t

section

variable (word : Token → Leaf .varWord)

theorem Leaf.toVariable_const (t : Leaf .constWord) : t.1.toVariable word = (word t.1).1 := if_pos t.2

theorem Token.toVariable_of_ne {t : Token} (h : t.kind ≠ .constWord) : t.toVariable word = t :=
  if_neg h

theorem Leaf.toVariable {k : TokenKind} (h : k ≠ .constWord) (t : Leaf k) : t.1.toVariable word = t.1 :=
  Token.toVariable_of_ne word (by rwa [t.2])

theorem Token.toVariable_eof_iff (t : Token) : (t.toVariable word).kind = .eof ↔ t.kind = .eof := by
  by_cases h : t.kind = .constWord
  · simp [toVariable, h, (word t).2]
  · rw [toVariable_of_ne word h]

theorem untilEnd_toVariable (p : Position) (tokens : List Token) :
    untilEnd p (tokens.map (Token.toVariable word)) =
      (untilEnd p tokens).map (Token.toVariable word) := by
  induction tokens with
  | nil => simp [untilEnd, Token.toVariable, Token.endOfText]
  | cons t tokens ih =>
      simp only [List.map_cons, untilEnd, Token.toVariable_eof_iff, ih]
      split <;> rfl

theorem Tree.map_toVariable {c : Category} (t : Tree c) :
    t.tokens.map (Token.toVariable word) = t.tokens := by
  induction t with
  | name t | number t => simp [tokens, Leaf.toVariable]
  | group l e r ih => simp [tokens, Leaf.toVariable, ih]
  | plain o ih => exact ih
  | positive s o ih | negative s o ih => simp [tokens, Leaf.toVariable, ih]
  | single f ih => exact ih
  | lone t ih => exact ih
  | product a s b iha ihb | quotient a s b iha ihb | sum a s b iha ihb | difference a s b iha ihb =>
      simp [tokens, Leaf.toVariable, iha, ihb]

theorem Variable.map_toVariable (v : Variable) :
    v.tokens.map (Token.toVariable word) = v.tokens := by
  obtain ⟨_, _, _ | ⟨_, e⟩, _⟩ := v <;> simp [tokens, Leaf.toVariable, Tree.map_toVariable]

theorem Statement.map_toVariable (s : Statement) :
    s.tokens.map (Token.toVariable word) = s.tokens := by
  cases s <;> simp [tokens, Leaf.toVariable, Tree.map_toVariable]

namespace Constant

def initializer (c : Constant) : Expression :=
  .lone (.single (match c.sign with
    | none => .plain (.number c.number)
    | some (.plus t) => .positive t (.number c.number)
    | some (.minus t) => .negative t (.number c.number)))

def toVariable (c : Constant) : Variable :=
  ⟨word c.word.1, c.ident, some (c.equals, c.initializer), c.stop⟩

theorem names_initializer (c : Constant) : c.initializer.names = [] := by
  obtain ⟨_, _, _, _ | ⟨_⟩ | ⟨_⟩, _, _⟩ := c <;> rfl

theorem tokens_toVariable (c : Constant) :
    (c.toVariable word).tokens = c.tokens.map (Token.toVariable word) := by
  obtain ⟨_, _, _, _ | ⟨_⟩ | ⟨_⟩, _, _⟩ := c <;>
    simp [toVariable, initializer, Variable.tokens, Constant.tokens, Tree.tokens, Sign.token,
      Leaf.toVariable, Leaf.toVariable_const]

end Constant

namespace Program

def toVariables (P : Program) : Program :=
  { P with constants := [], vars := P.constants.map (Constant.toVariable word) ++ P.vars }

theorem tokens_toVariables (P : Program) :
    (P.toVariables word).tokens = P.tokens.map (Token.toVariable word) := by
  have hconstants : (P.constants.map (Constant.toVariable word)).flatMap Variable.tokens =
      (P.constants.flatMap Constant.tokens).map (Token.toVariable word) := by
    simp [List.flatMap_map, List.map_flatMap, Constant.tokens_toVariable]
  simp [toVariables, tokens, body, hconstants, Leaf.toVariable, List.map_flatMap,
    Variable.map_toVariable, Statement.map_toVariable]

theorem names_toVariables (P : Program) : (P.toVariables word).names = P.names := by
  simp [toVariables, names, Function.comp_def, Constant.toVariable, Constant.name, Variable.name]

theorem symbols_toVariables (P : Program) :
    (P.toVariables word).symbols = P.symbols.map fun s => { s with constant := false } := by
  have hnumbered (l : List (String × Bool × Bool)) :
      (numbered l).map (fun s => { s with constant := false }) =
        numbered (l.map fun f => (f.1, false, f.2.2)) := by
    apply List.ext_getElem?
    intro i
    simp [numbered, Function.comp_def]
  have hconstant (c : Constant) : (c.toVariable word).flags P.statements = (c.name, false, true) := rfl
  have hvariable (v : Variable) : ((v.flags P.statements).1, false, (v.flags P.statements).2.2) =
      v.flags P.statements := rfl
  refine Eq.trans ?_ (hnumbered _).symm
  simp [toVariables, symbols, symbolList, numbered, Function.comp_def, Constant.flags, hconstant,
    hvariable]

end Program

theorem Readable.toVariables {cs : List Constant} {vs : List Variable} {ss : List Statement} {x : String}
    (h : Readable cs vs ss x) : Readable [] (cs.map (Constant.toVariable word) ++ vs) ss x := by
  refine .inr ?_
  rcases h with ⟨c, hc, rfl⟩ | ⟨v, hv, hx⟩
  · exact ⟨c.toVariable word, by simp [List.mem_map_of_mem hc], rfl, .inl rfl⟩
  · exact ⟨v, by simp [hv], hx⟩

namespace Program

theorem Lawful.toVariables {P : Program} (h : P.Lawful) : (P.toVariables word).Lawful where
  distinct := by
    rw [names_toVariables]
    exact h.distinct
  initial := by
    intro before v after hsplit x hx
    rcases List.append_eq_append_iff.mp hsplit with ⟨more, rfl, hvars⟩ | ⟨more, hconstants, hmore⟩
    · exact (h.initial more v after hvars x hx).toVariables word
    · cases more with
      | nil =>
          rw [List.append_nil] at hconstants
          rw [← hconstants, ← List.append_nil (P.constants.map _)]
          exact (h.initial [] v after hmore.symm x hx).toVariables word
      | cons u more =>
          cases hmore
          have hv : v ∈ P.constants.map (Constant.toVariable word) := by simp [hconstants]
          obtain ⟨c, _, rfl⟩ := List.mem_map.mp hv
          have hnone : x ∈ c.initializer.names := hx
          rw [c.names_initializer] at hnone
          cases hnone
  target := by
    intro s hs x hx
    obtain ⟨v, hv, hname⟩ := h.target s hs x hx
    exact ⟨v, List.mem_append_right _ hv, hname⟩
  used := fun before s after hsplit x hx => (h.used before s after hsplit x hx).toVariables word

end Program

end

-- The sign of a constant is applied when it is read, and that of a factor when the program runs.
theorem follow_negated (r : Trail) (t : Token) :
    r.follow [⟨.lit, 0⟩, ⟨.lit, literal t⟩, ⟨.sub, 0⟩] = r.follow [⟨.lit, -literal t⟩] := by
  have hneg : Instruction.execute ⟨.sub, 0⟩ ((r.stack.push 0).push (literal t)) =
      .ok (r.stack.push (-literal t), none) := by
    rw [← Int32.zero_sub]
    simp only [Instruction.execute, Stack.combine_push]
    rfl
  have hlit (v : Int32) (s : Stack) : Trail.follow ⟨s, r.written⟩ [⟨.lit, v⟩] =
      .ok ⟨s.push v, r.written⟩ := follow_silent rfl r.written
  have hcode : r.follow ([⟨.lit, 0⟩] ++ ([⟨.lit, literal t⟩] ++ [⟨.sub, 0⟩])) =
      .ok ⟨r.stack.push (-literal t), r.written⟩ := by
    rw [Trail.follow_append_of_ok (hlit 0 r.stack), Trail.follow_append_of_ok (hlit _ _),
      follow_silent hneg]
  exact hcode.trans (hlit _ _).symm

namespace Constant

theorem follow_initializer (c : Constant) (offset : String → Nat) (r : Trail) :
    r.follow (c.initializer.code offset) = r.follow (Item.code offset (.const c)) := by
  obtain ⟨_, _, _, sign, number, _⟩ := c
  have hliteral : Int32.ofInt number.1.value.toNat = literal number.1 := by
    rw [Int32.ofInt_eq_ofNat, literal_eq_ofNat]
  have hplain : r.follow [⟨.lit, literal number.1⟩] =
      r.follow [⟨.lit, Int32.ofInt number.1.value.toNat⟩] := by rw [hliteral]
  rcases sign with _ | _ | _
  · exact hplain
  · exact hplain
  · change _ = r.follow [⟨.lit, Int32.ofInt (-number.1.value.toNat)⟩]
    rw [Int32.ofInt_neg, hliteral, ← follow_negated]
    rfl

theorem follow_constants (cs : List Constant) (offset : String → Nat) (r : Trail) :
    ∃ q, r.follow (cs.flatMap fun c => Item.code offset (.const c)) = .ok q ∧
      r.follow (cs.flatMap fun c => c.initializer.code offset) = .ok q := by
  induction cs generalizing r with
  | nil => exact ⟨r, rfl, rfl⟩
  | cons c cs ih =>
      have hc : r.follow (Item.code offset (.const c)) = .ok ⟨_, r.written⟩ := follow_silent rfl r.written
      have hc' := hc
      rw [← c.follow_initializer] at hc'
      simp only [List.flatMap_cons, Trail.follow_append_of_ok hc, Trail.follow_append_of_ok hc']
      exact ih _

end Constant

theorem Program.ending_toVariables (P : Program) (word : Token → Leaf .varWord) :
    Trail.ending {} (P.toVariables word).code = Trail.ending {} P.code := by
  obtain ⟨q, hq, hq'⟩ := Constant.follow_constants P.constants P.offset {}
  have hoffset : (P.toVariables word).offset = P.offset := by
    unfold offset
    rw [P.names_toVariables]
  have hcode : P.code = (P.constants.flatMap fun c => Item.code P.offset (.const c)) ++
      (P.vars.map Item.var ++ P.statements.map Item.stmt).flatMap (Item.code P.offset) := by
    simp [code, items, List.flatMap_map]
  have hcode' : (P.toVariables word).code =
      (P.constants.flatMap fun c => c.initializer.code P.offset) ++
        (P.vars.map Item.var ++ P.statements.map Item.stmt).flatMap (Item.code P.offset) := by
    have hinitial (c : Constant) : Item.code P.offset (.var (c.toVariable word)) =
        c.initializer.code P.offset := rfl
    rw [code, hoffset]
    simp [toVariables, items, List.flatMap_map, hinitial]
  rw [hcode, hcode', Trail.ending_append_of_ok hq, Trail.ending_append_of_ok hq']

theorem constants_as_variables {ε : Type} {p : Position} {n : Nat} {tokens : List Token}
    {code : Array Instruction}
    (h : (Analyser.mk (TokenStream.mk (tokens.map .ok) (.eof p : StreamEnd ε) n)
      none {}).analyse.1 = .ok code)
    (hsize : (Analyser.mk (TokenStream.mk (tokens.map .ok) (.eof p : StreamEnd ε) n)
      none {}).analyse.2.draft.symbols.size ≤ 0x80000000) (word : Token → Leaf .varWord)
    (console : Console) :
    let verdict := (Analyser.mk (TokenStream.mk (tokens.map .ok) (.eof p : StreamEnd ε) n)
      none {}).analyse
    let verdict' := (Analyser.mk (TokenStream.mk ((tokens.map (Token.toVariable word)).map .ok)
      (.eof p : StreamEnd ε) n) none {}).analyse
    (∃ code', verdict'.1 = .ok code' ∧
      verdict'.2.draft.symbols.symbols.toList = verdict.2.draft.symbols.symbols.toList.map
        (fun s => { s with constant := false }) ∧
      let ended := (Execution.start code { console with sink := some (.recorder #[]) }).run
      let ended' := (Execution.start code' { console with sink := some (.recorder #[]) }).run
      ended'.2.console.sink = ended.2.console.sink ∧
      ended'.2.machine.stack = ended.2.machine.stack ∧
      (ended.1 = none ∧ ended'.1 = none ∨
        ∃ k k' : Nat, k + code'.size = k' + code.size ∧
          ended.1 = some ⟨.divisionByZero, k, ⟨.div, 0⟩⟩ ∧
          ended'.1 = some ⟨.divisionByZero, k', ⟨.div, 0⟩⟩)) ∧
    ∀ (t : Token) (r : Trail),
      r.follow [⟨.lit, 0⟩, ⟨.lit, literal t⟩, ⟨.sub, 0⟩] = r.follow [⟨.lit, -literal t⟩] := by
  intro verdict verdict'
  refine ⟨?_, fun t r => follow_negated r t⟩
  obtain ⟨P, hP, hlawful, hcode, hsymbols⟩ := program_of_analyse h
  have hP' : (P.toVariables word).tokens = untilEnd p (tokens.map (Token.toVariable word)) := by
    rw [P.tokens_toVariables, hP, untilEnd_toVariable]
  have hcode' := analyse_of_program ε n hP' (hlawful.toVariables word)
  have hending : Trail.ending {} code.toList =
      Trail.ending {} (P.toVariables word).code.toArray.toList := by
    rw [hcode, P.ending_toVariables]
  have hconsole : { console with sink := some (.recorder #[]) : Console }.sink = some (.recorder #[]) :=
    rfl
  obtain ⟨hsink, hstack, hend⟩ := Execution.run_alike hending hconsole
  refine ⟨_, hcode', ?_, hsink, hstack, ?_⟩
  · obtain ⟨Q, hQ, _, _, hsymbols'⟩ := program_of_analyse hcode'
    obtain rfl := Program.tokens_injective (hQ.trans hP'.symm)
    rw [hsymbols, hsymbols', P.symbols_toVariables]
  · obtain hnone | ⟨k, k', i, f, hk, hrun, hrun'⟩ := hend
    · exact .inl hnone
    · have hnames : P.names.length ≤ 0x80000000 := size_analyse ε n hP hlawful ▸ hsize
      obtain rfl : P.code.toArray = code := by rw [← hcode]
      rcases P.run_none_or_division hlawful hnames hconsole with hnone | ⟨m, hdivision⟩
      · cases hnone.symm.trans hrun
      · cases hdivision.symm.trans hrun
        exact .inr ⟨k, k', hk, hrun, hrun'⟩

theorem constants_as_variables_sample :
    let word (t : Token) : Leaf .varWord := ⟨{ t with kind := .varWord }, rfl⟩
    (Analyser.mk (TokenStream.mk (Program.sample.tokens.map .ok) (.eof .start : StreamEnd CompileError)
      0) none {}).analyse.1 = .ok Program.sample.code.toArray ∧
    (Analyser.mk (TokenStream.mk (Program.sample.tokens.map .ok) (.eof .start : StreamEnd CompileError)
      0) none {}).analyse.2.draft.symbols.size ≤ 0x80000000 ∧
    (∃ code', (Analyser.mk (TokenStream.mk ((Program.sample.tokens.map (Token.toVariable word)).map .ok)
        (.eof .start : StreamEnd CompileError) 0) none {}).analyse.1 = .ok code' ∧
      ∃ k' : Nat, (Execution.start code' { sink := some (.recorder #[]) }).run.1 =
          some ⟨.divisionByZero, k', ⟨.div, 0⟩⟩ ∧
        (Execution.start code' { sink := some (.recorder #[]) }).run.2.console.sink =
          some (.recorder #[-6])) ∧
    ∀ r : Trail, r.follow [⟨.lit, 0⟩, ⟨.lit, literal (Leaf.sample .number "2147483648" 0 2147483648).1⟩,
      ⟨.sub, 0⟩] = r.follow [⟨.lit, -2147483648⟩] := by
  intro word
  have hP : Program.sample.tokens = untilEnd .start Program.sample.tokens := rfl
  have hcode := analyse_of_program CompileError 0 hP Program.lawful_sample
  have hsize : (Analyser.mk (TokenStream.mk (Program.sample.tokens.map .ok)
      (.eof .start : StreamEnd CompileError) 0) none {}).analyse.2.draft.symbols.size ≤ 0x80000000 := by
    rw [size_analyse CompileError 0 hP Program.lawful_sample]
    decide
  obtain ⟨⟨code', hcode', _, hsink, _, hend⟩, hfold⟩ := constants_as_variables hcode hsize word {}
  have hconsole : { sink := some (.recorder #[]) : Console }.sink = some (.recorder #[]) := rfl
  obtain ⟨k, _, _, hrun, hprinted⟩ := Program.sample.run_error Program.lawful_sample (by decide)
    hconsole (σ := ⟨_, [-6], 0⟩) rfl
  refine ⟨hcode, hsize, ⟨code', hcode', ?_⟩, fun r => hfold _ r⟩
  obtain ⟨hnone, _⟩ | ⟨_, k', _, _, hrun'⟩ := hend
  · cases hnone.symm.trans hrun
  · exact ⟨k', hrun', hsink.trans hprinted⟩

end PlZero
