import PlZero.Proofs.Compilation.Programs
import PlZero.Proofs.Compilation.Sources

namespace PlZero

namespace Program

theorem run_ok {P : Program} (h : P.Lawful) (hsize : P.names.length ≤ 0x80000000) {console : Console}
    (hconsole : console.sink = some (.recorder #[])) {σ : Store} (hexec : P.exec = .ok σ) :
    (Execution.start P.code.toArray console).run.1 = none ∧
    (Execution.start P.code.toArray console).run.2.console.sink =
      some (.recorder σ.printed.toArray) ∧
    (Execution.start P.code.toArray console).run.2.machine.stack.toList = P.names.map σ.value := by
  obtain ⟨hfollow, _⟩ : Performs P.code [] P.names {} (.ok σ) := hexec ▸ P.performs h hsize
  change Trail.follow {} P.code = _ at hfollow
  obtain ⟨r, hstack, hsink, ⟨hrun, hr⟩ | ⟨done, i, more, f, hsplit, hdone, hi, _⟩⟩ :=
    Execution.run_start P.code.toArray hconsole
  · cases hfollow.symm.trans hr
    exact ⟨hrun, hsink, by rw [hstack]; rfl⟩
  · have hcode : P.code = done ++ i :: more := hsplit
    rw [hcode, Trail.follow_append_of_ok hdone, Trail.follow_cons, Trail.step_of_error hi] at hfollow
    cases hfollow

theorem run_error {P : Program} (h : P.Lawful) (hsize : P.names.length ≤ 0x80000000) {console : Console}
    (hconsole : console.sink = some (.recorder #[])) {σ : Store} (hexec : P.exec = .error σ) :
    ∃ k : Nat, P.code[k]? = some ⟨.div, 0⟩ ∧ divisions (P.code.take k) = σ.divisions ∧
      (Execution.start P.code.toArray console).run.1 = some ⟨.divisionByZero, k, ⟨.div, 0⟩⟩ ∧
      (Execution.start P.code.toArray console).run.2.console.sink =
        some (.recorder σ.printed.toArray) := by
  have htraps : Performs P.code [] P.names {} (.error σ) := hexec ▸ P.performs h hsize
  have hnot (q : Trail) : Trail.follow {} P.code ≠ .ok q := Traps.not_ok htraps
  obtain ⟨done, rest, s, hcode, hdone, hdiv, hcount⟩ := htraps
  change Trail.follow {} done = _ at hdone
  obtain ⟨r, _, hsink, ⟨_, hr⟩ | ⟨done', i, more, f, hsplit, hdone', hi, hrun⟩⟩ :=
    Execution.run_start P.code.toArray hconsole
  · exact absurd hr (hnot r)
  · obtain ⟨rfl, rfl, hs⟩ := Trail.stop_unique (hcode.symm.trans hsplit) hdone hdiv hdone' hi
    subst hs
    cases hi.symm.trans hdiv
    refine ⟨done.length, ?_, ?_, hrun, hsink⟩
    · rw [hcode]
      simp
    · rw [hcode, List.take_left, hcount]
      exact (Nat.zero_add _).symm

theorem run_none_or_division {P : Program} (h : P.Lawful) (hsize : P.names.length ≤ 0x80000000)
    {console : Console} (hconsole : console.sink = some (.recorder #[])) :
    (Execution.start P.code.toArray console).run.1 = none ∨
      ∃ k : Nat, (Execution.start P.code.toArray console).run.1 =
        some ⟨.divisionByZero, k, ⟨.div, 0⟩⟩ := by
  cases hexec : P.exec with
  | ok σ => exact .inl (P.run_ok h hsize hconsole hexec).1
  | error σ =>
      obtain ⟨k, _, _, hrun, _⟩ := P.run_error h hsize hconsole hexec
      exact .inr ⟨k, hrun⟩

end Program

theorem size_compile {source : List Char} {P : Program} (hlex : lex source = (P.tokens, none))
    (h : P.Lawful) : (compile source).2.size = P.names.length := by
  obtain ⟨Q, hQ, _, _, hsymbols⟩ := program_of_compile (compile_of_program hlex h)
  obtain rfl : Q = P := Program.tokens_injective (congrArg Prod.fst (hQ.symm.trans hlex))
  rw [← Q.length_symbols, ← hsymbols]
  rfl

theorem compile_correct {source : List Char} {code : Array Instruction}
    (hcode : (compile source).1 = .ok code) (hsize : (compile source).2.size ≤ 0x80000000)
    (console : Console) :
    let ended := (Execution.start code { console with sink := some (.recorder #[]) }).run
    ∃ P : Program, lex source = (P.tokens, none) ∧
      (∀ Q : Program, lex source = (Q.tokens, none) → Q = P) ∧
      ended.2.machine.halted = true ∧
      match P.exec with
      | .ok σ =>
          ended.1 = none ∧ ended.2.console.sink = some (.recorder σ.printed.toArray) ∧
            ended.2.machine.stack.toList = P.names.map σ.value
      | .error σ =>
          ∃ k : Nat, code[k]? = some ⟨.div, 0⟩ ∧ divisions (code.toList.take k) = σ.divisions ∧
            ended.1 = some ⟨.divisionByZero, k, ⟨.div, 0⟩⟩ ∧
            ended.2.console.sink = some (.recorder σ.printed.toArray) := by
  intro ended
  obtain ⟨P, hlex, hlawful, hP, _⟩ := program_of_compile hcode
  have hnames : P.names.length ≤ 0x80000000 := size_compile hlex hlawful ▸ hsize
  have hcode : P.code.toArray = code := by rw [← hP]
  subst hcode
  refine ⟨P, hlex, ?_, Execution.run_halted _, ?_⟩
  · intro Q hQ
    exact Program.tokens_injective (congrArg Prod.fst (hQ.symm.trans hlex))
  · split
    · next σ hexec => exact P.run_ok hlawful hnames rfl hexec
    · next σ hexec => simpa using P.run_error hlawful hnames rfl hexec

def sampleText : List Char := "begin const k=-3;var a=2;print(a*k);a=a/0;end".toList

theorem lex_sampleText : lex sampleText = (Program.sample.tokens, none) := by decide +kernel

theorem compile_correct_sampleText :
    (compile sampleText).1 = .ok Program.sample.code.toArray ∧
    (compile sampleText).2.size ≤ 0x80000000 ∧
    ∃ k : Nat,
      (Execution.start Program.sample.code.toArray { sink := some (.recorder #[]) }).run.1 =
        some ⟨.divisionByZero, k, ⟨.div, 0⟩⟩ ∧
      (Execution.start Program.sample.code.toArray
        { sink := some (.recorder #[]) }).run.2.console.sink = some (.recorder #[-6]) := by
  have hcode := compile_of_program lex_sampleText Program.lawful_sample
  have hsize : (compile sampleText).2.size ≤ 0x80000000 := by
    rw [size_compile lex_sampleText Program.lawful_sample]
    decide
  refine ⟨hcode, hsize, ?_⟩
  obtain ⟨P, _, hunique, _, hended⟩ := compile_correct hcode hsize {}
  obtain rfl := hunique Program.sample lex_sampleText
  obtain ⟨k, _, _, hrun, hsink⟩ := hended
  exact ⟨k, hrun, hsink⟩

end PlZero
