import PlZero.Proofs.Analysis.Language
import PlZero.Proofs.Compilation.Slots

namespace PlZero

namespace Program

-- What holds whenever a machine that runs the code of `P` is at rest between two instructions.
structure Layout (P : Program) (m : Execution) : Prop where
  slots : ∃ s σ, s ≤ P.items.length ∧ P.address s ≤ m.machine.ip ∧
    (s < P.items.length → m.machine.ip < P.address (s + 1)) ∧
    execAll (P.items.take s) {} = .ok σ ∧
    ∀ d ≤ P.names.length, P.address d ≤ m.machine.ip → d ≤ m.machine.stack.size ∧
      ∀ j x, j < d → P.names[j]? = some x → m.machine.stack[j]? = some (σ.value x)
  constant : ∀ j c, P.constants[j]? = some c → P.address (j + 1) ≤ m.machine.ip →
    m.machine.stack[j]? = some (Int32.ofInt c.integer)
  change : ∀ j x, P.names[j]? = some x → P.address (j + 1) ≤ m.machine.ip →
    m.step.2.machine.stack[j]? ≠ m.machine.stack[j]? →
    ∃ s ident equals e stop, P.items[s]? = some (.stmt (.assign ident equals e stop)) ∧
      ident.1.lexeme = x ∧ m.machine.ip + 1 = P.address (s + 1) ∧
      m.machine.instruction? = some ⟨.sto, Int32.ofNat j⟩
  access : ∀ i, m.machine.instruction? = some i → i.op = .lod ∨ i.op = .sto →
    ∃ d j : Nat, d ≤ P.names.length ∧ P.address d ≤ m.machine.ip ∧
      (∀ d' ≤ P.names.length, P.address d' ≤ m.machine.ip → d' ≤ d) ∧
      i.operand.toInt = j ∧ j < d ∧ d ≤ m.machine.stack.size ∧
      (i.op = .sto → d < m.machine.stack.size)
  expression : ∀ (c : Category) (t : Tree c) (before after : List Instruction),
    P.code = before ++ t.code P.offset ++ after → m.machine.ip = before.length →
    (∀ j ≤ (t.code P.offset).length,
      m.machine.stack.toList <+: (m.advance j).2.machine.stack.toList ∧
      (m.advance j).2.console.sink = m.console.sink ∧
      (m.advance j).2.console.stdout = m.console.stdout) ∧
    (m.machine.halted = false → (m.advance (t.code P.offset).length).1 = none →
      (m.advance (t.code P.offset).length).2.machine.ip =
        (before.length + (t.code P.offset).length : Nat) ∧
      ∃ v, (m.advance (t.code P.offset).length).2.machine.stack = m.machine.stack.push v)
  height : ∀ s, P.names.length ≤ s → s ≤ P.items.length → m.machine.ip = P.address s →
    m.machine.stack.size = P.names.length

theorem length_names_le (P : Program) : P.names.length ≤ P.items.length := by
  simp [names, items]

theorem length_code (P : Program) : P.code.length = P.address P.items.length := by
  simp [address, code]

namespace Standing

variable {P : Program} {m : Execution} {k : Nat} {w : List Int32} {s : Nat} {σ : Store}

theorem le_of_ip (hs : P.Standing k ⟨m.machine.stack, w⟩ s σ) (hip : m.machine.ip = k) {d : Nat}
    (hd : d ≤ P.items.length) (ha : P.address d ≤ m.machine.ip) : d ≤ s := by
  rw [hip] at ha
  exact hs.le hd (Int.ofNat_le.mp ha)

theorem layout_slots (hs : P.Standing k ⟨m.machine.stack, w⟩ s σ) (hip : m.machine.ip = k) :
    s ≤ P.items.length ∧ P.address s ≤ m.machine.ip ∧
    (s < P.items.length → m.machine.ip < P.address (s + 1)) ∧
    execAll (P.items.take s) {} = .ok σ ∧
    ∀ d ≤ P.names.length, P.address d ≤ m.machine.ip → d ≤ m.machine.stack.size ∧
      ∀ j x, j < d → P.names[j]? = some x → m.machine.stack[j]? = some (σ.value x) := by
  refine ⟨hs.bound, ?_, ?_, hs.stored, ?_⟩
  · rw [hip]
    exact Int.ofNat_le.mpr hs.begun
  · intro hlt
    rw [hip]
    exact Int.ofNat_lt.mpr (hs.within _ (List.getElem?_eq_getElem hlt))
  · intro d hd ha
    have hds := hs.le_of_ip hip (Nat.le_trans hd P.length_names_le) ha
    refine ⟨Nat.le_trans (Nat.le_min.mpr ⟨hds, hd⟩) hs.size_le, ?_⟩
    exact fun j x hj hx => hs.slot (Nat.lt_of_lt_of_le hj hds) hx

theorem layout_change (hs : P.Standing k ⟨m.machine.stack, w⟩ s σ) (hip : m.machine.ip = k)
    (h : P.Lawful) (hsize : P.names.length ≤ 0x80000000) (here : m.machine.instruction? = P.code[k]?)
    {j : Nat} {x : String} (hx : P.names[j]? = some x) (ha : P.address (j + 1) ≤ m.machine.ip)
    (hne : m.step.2.machine.stack[j]? ≠ m.machine.stack[j]?) :
    ∃ s ident equals e stop, P.items[s]? = some (.stmt (.assign ident equals e stop)) ∧
      ident.1.lexeme = x ∧ m.machine.ip + 1 = P.address (s + 1) ∧
      m.machine.instruction? = some ⟨.sto, Int32.ofNat j⟩ := by
  have hlt := (List.getElem?_eq_some_iff.mp hx).1
  have hj : j < s := hs.le_of_ip hip (Nat.le_trans hlt P.length_names_le) ha
  rcases hstep : m.step with ⟨e, q⟩
  rw [hstep] at hne
  cases Execution.steps_of_step hstep with
  | rest => exact absurd rfl hne
  | halt _ last => exact absurd (by rw [last.machine_eq]) hne
  | perform i s' v console _ at_i done =>
      have hfollow : Trail.follow ⟨m.machine.stack, w⟩ [i] = .ok ⟨s', w ++ v.toList⟩ := by
        rw [Trail.follow_cons, Trail.step_of_ok done]
        rfl
      rw [here] at at_i ⊢
      obtain ⟨ident, equals, e, stop, hitem, hname, hplace, rfl⟩ :=
        hs.assigned h hsize at_i hfollow hj hx hne
      refine ⟨s, ident, equals, e, stop, hitem, hname, ?_, at_i⟩
      rw [hip, ← hplace]
      rfl

theorem layout_access (hs : P.Standing k ⟨m.machine.stack, w⟩ s σ) (hip : m.machine.ip = k)
    (h : P.Lawful) (hsize : P.names.length ≤ 0x80000000) {i : Instruction} (hi : P.code[k]? = some i)
    (hop : i.op = .lod ∨ i.op = .sto) :
    ∃ d j : Nat, d ≤ P.names.length ∧ P.address d ≤ m.machine.ip ∧
      (∀ d' ≤ P.names.length, P.address d' ≤ m.machine.ip → d' ≤ d) ∧
      i.operand.toInt = j ∧ j < d ∧ d ≤ m.machine.stack.size ∧
      (i.op = .sto → d < m.machine.stack.size) := by
  obtain ⟨j, hoperand, hj, hsto⟩ := hs.addressed h hsize hi hop
  refine ⟨min s P.names.length, j, Nat.min_le_right _ _, ?_, ?_, hoperand, hj, hs.size_le, hsto⟩
  · rw [hip]
    exact Int.ofNat_le.mpr (Nat.le_trans (P.address_mono (Nat.min_le_left _ _)) hs.begun)
  · intro d' hd' ha
    exact Nat.le_min.mpr ⟨hs.le_of_ip hip (Nat.le_trans hd' P.length_names_le) ha, hd'⟩

theorem layout_height (hs : P.Standing k ⟨m.machine.stack, w⟩ s σ) (hip : m.machine.ip = k)
    {s' : Nat} (hnames : P.names.length ≤ s') (hs' : s' ≤ P.items.length)
    (ha : m.machine.ip = P.address s') : m.machine.stack.size = P.names.length := by
  have hle : s' ≤ s := hs.le_of_ip hip hs' (Int.le_of_eq ha.symm)
  have hk : k = P.address s' := Int.ofNat_inj.mp (hip.symm.trans ha)
  have hbegun := hs.begun
  have hmono := P.address_mono hle
  have himage := hs.eq_image (by omega)
  rw [List.take_of_length_le (Nat.le_trans hnames hle)] at himage
  simpa [Store.image] using congrArg (fun r => r.stack.size) himage

end Standing

theorem layout_of_follow {P : Program} (h : P.Lawful) (hsize : P.names.length ≤ 0x80000000)
    {m : Execution} (hprogram : m.machine.program.toList = P.code) {k : Nat} {w : List Int32}
    (hk : k ≤ P.code.length) (hip : m.machine.ip = k)
    (hr : Trail.follow {} (P.code.take k) = .ok ⟨m.machine.stack, w⟩) : P.Layout m := by
  obtain ⟨s, σ, hs⟩ := exists_standing h hsize hk hr
  have here : m.machine.instruction? = P.code[k]? := by
    rw [Execution.instruction?_of_ip hip, hprogram]
  refine ⟨⟨s, σ, hs.layout_slots hip⟩, ?_, ?_, ?_, ?_, ?_⟩
  · intro j c hc ha
    have hx := names_of_constants hc
    have hlt := (List.getElem?_eq_some_iff.mp hx).1
    have hj := hs.le_of_ip hip (Nat.le_trans hlt P.length_names_le) ha
    rw [← constant_value h hs.stored hc hj]
    exact hs.slot hj hx
  · exact fun j x hx ha hne => hs.layout_change hip h hsize here hx ha hne
  · exact fun i hi hop => hs.layout_access hip h hsize (here.symm.trans hi) hop
  · intro c t before after hcode hplace
    have hdrop : m.machine.program.toList.drop before.length = t.code P.offset ++ after := by
      rw [hprogram, hcode, List.append_assoc, List.drop_left]
    have hlifts {j : Nat} (hj : j ≤ (t.code P.offset).length) :=
      Execution.advance_lifts hplace hdrop (t.lifts P.offset)
        (fun i hi => (t.of_mem_code i hi).2.1) hj
    exact ⟨fun j hj => (hlifts hj).1, fun busy hnone => (hlifts (Nat.le_refl _)).2 busy rfl hnone⟩
  · exact fun s' hnames hs' ha => hs.layout_height hip hnames hs' ha

end Program

theorem stack_layout {ε : Type} {p : Position} {n : Nat} {tokens : List Token}
    {code : Array Instruction}
    (h : (Analyser.mk (TokenStream.mk (tokens.map .ok) (.eof p : StreamEnd ε) n)
      none {}).analyse.1 = .ok code)
    (hsize : (Analyser.mk (TokenStream.mk (tokens.map .ok) (.eof p : StreamEnd ε) n)
      none {}).analyse.2.draft.symbols.size ≤ 0x80000000) (console : Console) :
    ∃ P : Program, P.tokens = untilEnd p tokens ∧
      (∀ Q : Program, Q.tokens = untilEnd p tokens → Q = P) ∧ code.toList = P.code ∧
      (∀ steps, P.Layout ((Execution.start code console).advance steps).2) ∧
      ((Execution.start code console).run.1 = none →
        (Execution.start code console).run.2.machine.stack.size = P.names.length) := by
  obtain ⟨P, hP, hlawful, hcode, _⟩ := program_of_analyse h
  have hnames : P.names.length ≤ 0x80000000 := size_analyse ε n hP hlawful ▸ hsize
  have hlayout (steps : Nat) : P.Layout ((Execution.start code console).advance steps).2 := by
    obtain ⟨hprogram, k, w, hk, hip, hr⟩ := Execution.advance_start code console steps
    rw [hcode] at hr
    refine P.layout_of_follow hlawful hnames (by rw [hprogram, hcode]) ?_ hip hr
    rw [← hcode]
    exact hk
  refine ⟨P, hP, fun Q hQ => Program.tokens_injective (hQ.trans hP.symm), hcode, hlayout, ?_⟩
  intro hnone
  apply (hlayout _).height P.items.length P.length_names_le (Nat.le_refl _)
  rw [← P.length_code, ← hcode]
  exact Execution.ip_of_run_none hnone

theorem stack_layout_sample :
    (Analyser.mk (TokenStream.mk (Program.sample.tokens.map .ok) (.eof .start : StreamEnd CompileError)
      0) none {}).analyse.1 = .ok Program.sample.code.toArray ∧
    (Analyser.mk (TokenStream.mk (Program.sample.tokens.map .ok) (.eof .start : StreamEnd CompileError)
      0) none {}).analyse.2.draft.symbols.size ≤ 0x80000000 ∧
    ∀ steps, Program.sample.Layout
      ((Execution.start Program.sample.code.toArray {}).advance steps).2 := by
  have hP : Program.sample.tokens = untilEnd .start Program.sample.tokens := rfl
  have hcode := analyse_of_program CompileError 0 hP Program.lawful_sample
  have hsize : (Analyser.mk (TokenStream.mk (Program.sample.tokens.map .ok)
      (.eof .start : StreamEnd CompileError) 0) none {}).analyse.2.draft.symbols.size ≤ 0x80000000 := by
    rw [size_analyse CompileError 0 hP Program.lawful_sample]
    decide
  refine ⟨hcode, hsize, ?_⟩
  obtain ⟨P, _, hunique, _, hlayout, _⟩ := stack_layout hcode hsize {}
  obtain rfl := hunique Program.sample hP
  exact hlayout

end PlZero
