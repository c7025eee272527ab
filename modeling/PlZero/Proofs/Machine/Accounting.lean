import PlZero.Proofs.Assembly.RoundTrip
import PlZero.Proofs.Snapshot.Interruption

namespace PlZero

namespace Opcode

-- Instructions that leave the stack one value higher.
def pushes (op : Opcode) : Bool := op ∈ [lit, lod]

-- Instructions that leave the stack one value lower.
def drops (op : Opcode) : Bool := op ∈ [sto, add, sub, mul, div, wrt]

end Opcode

namespace Stack

theorem size_pop {s below : Stack} {v : Int32} (h : s.pop = .ok (v, below)) :
    below.size + 1 = s.size := by
  unfold pop at h
  split at h
  · next hback =>
      cases h
      have hpos : 0 < s.size := by
        refine Nat.pos_of_ne_zero fun hzero => ?_
        rw [Array.eq_empty_of_size_eq_zero hzero] at hback
        cases hback
      rw [Array.size_pop]
      omega
  · cases h

theorem size_store {s after : Stack} {slot : Int32} (h : s.store slot = .ok after) :
    after.size + 1 = s.size := by
  obtain ⟨⟨v, below⟩, hpop, h⟩ := of_bind_eq_ok h
  dsimp only at h
  split at h
  · cases h
    rw [Array.set!_eq_setIfInBounds, Array.size_setIfInBounds]
    exact size_pop hpop
  · cases h

theorem size_combine {s after : Stack} {operation : Int32 → Int32 → Except Fault Int32}
    (h : s.combine operation = .ok after) : after.size + 1 = s.size := by
  obtain ⟨⟨a, b, below⟩, hoperands, h⟩ := of_bind_eq_ok h
  obtain ⟨r, _, h⟩ := of_bind_eq_ok h
  cases h
  obtain ⟨⟨b', upper⟩, hupper, hoperands⟩ := of_bind_eq_ok hoperands
  obtain ⟨⟨a', lower⟩, hlower, hoperands⟩ := of_bind_eq_ok hoperands
  cases hoperands
  have hsize := size_pop hupper
  have hsize' := size_pop hlower
  rw [Array.size_push]
  omega

end Stack

theorem Instruction.execute_counts {i : Instruction} {s after : Stack} {v : Option Int32}
    (h : i.execute s = .ok (after, v)) :
    i.op ≠ .ill ∧ i.op.isKnown = true ∧
      after.size + (if i.op.drops then 1 else 0) = s.size + (if i.op.pushes then 1 else 0) ∧
      v.toList.length = if i.op = .wrt then 1 else 0 := by
  obtain ⟨op, x⟩ := i
  cases op with
  | lit =>
      cases h
      simp [Opcode.isKnown, Opcode.drops, Opcode.pushes]
  | lod =>
      obtain ⟨w, _, h⟩ := of_bind_eq_ok h
      cases h
      simp [Opcode.isKnown, Opcode.drops, Opcode.pushes]
  | sto =>
      obtain ⟨below, hstore, h⟩ := of_bind_eq_ok h
      cases h
      simp [Opcode.isKnown, Opcode.drops, Opcode.pushes, Stack.size_store hstore]
  | add | sub | mul | div =>
      obtain ⟨below, hcombine, h⟩ := of_bind_eq_ok h
      cases h
      simp [Opcode.isKnown, Opcode.drops, Opcode.pushes, Stack.size_combine hcombine]
  | wrt =>
      obtain ⟨⟨w, below⟩, hpop, h⟩ := of_bind_eq_ok h
      cases h
      simp [Opcode.isKnown, Opcode.drops, Opcode.pushes, Stack.size_pop hpop]
  | ill | unknown => cases h

namespace Text

-- So many lines, each of which ends with its only break.
def HasLines (n : Nat) (text : String) : Prop :=
  ∃ lines : List String, lines.length = n ∧ (∀ line ∈ lines, '\n' ∉ line.toList) ∧
    text = String.join (lines.map (· ++ "\n"))

theorem hasLines_empty : HasLines 0 "" := ⟨[], rfl, by simp, rfl⟩

theorem HasLines.append {n : Nat} {text : String} (h : HasLines n text) {line : String}
    (hline : '\n' ∉ line.toList) : HasLines (n + 1) (text ++ (line ++ "\n")) := by
  obtain ⟨lines, hlength, hbreaks, rfl⟩ := h
  refine ⟨lines ++ [line], by simp [hlength], ?_, by simp [String.join_append, String.join_cons]⟩
  intro other hother
  rcases List.mem_append.mp hother with hother | hother
  · exact hbreaks other hother
  · rwa [List.mem_singleton.mp hother]

theorem no_break_toString (v : Int) : '\n' ∉ (toString v).toList := fun hmem => by
  have hplain := Assembly.plain_toString v '\n' hmem
  exact absurd hplain (by decide)

theorem no_break_zeroPadded (width n : Nat) : '\n' ∉ (zeroPadded width n).toList := by
  have hdigits : '\n' ∉ (toString n).toList := no_break_toString n
  simpa [zeroPadded] using hdigits

theorem no_break_padRight {s : String} (h : '\n' ∉ s.toList) (width : Nat) :
    '\n' ∉ (padRight width s).toList := by
  simp [padRight, h]

end Text

namespace Machine

theorem no_break_renderStack (s : Stack) : '\n' ∉ (renderStack s).toList := by
  have hwords (words : List Int32) :
      '\n' ∉ (" ".intercalate (words.map fun v => toString v.toInt)).toList := by
    induction words with
    | nil => simp
    | cons v words ih =>
        cases words with
        | nil => simpa using Text.no_break_toString v.toInt
        | cons w words => simpa using ⟨Text.no_break_toString v.toInt, by simpa using ih⟩
  simpa [renderStack] using hwords s.toList

theorem traceLine_eq (m : Machine) (i : Instruction) (after : Stack) :
    ∃ line, m.traceLine i after = line ++ "\n" ∧ '\n' ∉ line.toList := by
  refine ⟨_, rfl, ?_⟩
  have hplace := Text.no_break_zeroPadded 4 m.ip.toNat
  have hcode := Text.no_break_padRight (Assembly.render_no_break i) 8
  have hstack := no_break_renderStack after
  simp [hplace, hcode, hstack]

end Machine

theorem Console.trace_emit? (c : Console) (v : Option Int32) : (c.emit? v).2.trace = c.trace := by
  cases v with
  | none => rfl
  | some v =>
      simp only [emit?, emit]
      split <;> rfl

namespace Execution

-- The books of a machine that has performed the first `k` instructions of `code`.
structure Booked (code : Array Instruction) (k : Nat) (m : Machine) : Prop where
  program : m.program = code
  place : m.ip = k
  inside : k ≤ code.size
  executed : m.executed = UInt64.ofNat k
  height : m.stack.size + (code.toList.take k).countP (·.op.drops) =
    (code.toList.take k).countP (·.op.pushes)
  legal : ∀ i ∈ code.toList.take k, i.op ≠ .ill ∧ i.op.isKnown = true

-- What it has passed on by then.
structure Logged (code : Array Instruction) (k : Nat) (traced : Bool) (c : Console) : Prop where
  written : ∃ values, c.sink = some (.recorder values) ∧
    values.size = (code.toList.take k).countP (·.op = .wrt)
  traced : c.trace.isSome = traced
  lines : ∀ text, c.trace = some text → Text.HasLines k text

-- An error is answered at most once, and it names the place where the machine halted.
structure Tally (code : Array Instruction) (traced : Bool) (k : Nat) (errors : List RuntimeError)
    (p : Execution) : Prop where
  booked : Booked code k p.machine
  logged : Logged code k traced p.console
  busy : p.machine.halted = false → errors = []
  halted : p.machine.halted = true →
    k = code.size ∧ errors = [] ∨ k < code.size ∧ ∃ e, errors = [e] ∧ e.ip = k

variable {code : Array Instruction} {k : Nat} {traced : Bool} {errors : List RuntimeError} {p : Execution}

namespace Booked

theorem instruction (h : Booked code k p.machine) : p.machine.instruction? = code.toList[k]? := by
  rw [instruction?_of_ip h.place, h.program]

theorem halt {m : Machine} (h : Booked code k m) : Booked code k { m with halted := true } :=
  ⟨h.program, h.place, h.inside, h.executed, h.height, h.legal⟩

theorem perform (h : Booked code k p.machine) {i : Instruction} {s : Stack} {v : Option Int32}
    (here : code.toList[k]? = some i) (done : i.execute p.machine.stack = .ok (s, v))
    (console : Console) : Booked code (k + 1) ({ p with console }.complete i s).machine := by
  obtain ⟨hill, hknown, hsize, _⟩ := Instruction.execute_counts done
  have hlt := (List.getElem?_eq_some_iff.mp here).1
  have hheight := h.height
  refine ⟨h.program, ?_, Nat.succ_le_of_lt (by simpa using hlt), ?_, ?_, ?_⟩
  · simp [complete, h.place]
  · simp [complete, h.executed]
  · rw [List.take_add_one, here]
    simp only [complete, Option.toList_some, List.countP_append, List.countP_singleton]
    omega
  · intro j hj
    rw [List.take_add_one, here] at hj
    rcases List.mem_append.mp hj with hj | hj
    · exact h.legal j hj
    · rw [List.mem_singleton.mp hj]
      exact ⟨hill, hknown⟩

theorem start (code : Array Instruction) : Booked code 0 { program := code } :=
  ⟨rfl, rfl, Nat.zero_le _, rfl, rfl, by simp⟩

theorem steps (h : Booked code k p.machine) {e : Option RuntimeError} {q : Execution}
    (hstep : p.Steps e q) : ∃ k, Booked code k q.machine := by
  cases hstep with
  | rest => exact ⟨k, h⟩
  | halt _ last =>
      rw [last.machine_eq]
      exact ⟨k, h.halt⟩
  | perform i s v console _ here done =>
      rw [h.instruction] at here
      exact ⟨k + 1, h.perform here done console⟩

theorem loops (h : Booked code k p.machine) {n : Nat} {r : Option RuntimeError × Execution}
    (hloop : Loops n p r) : ∃ k, Booked code k r.2.machine := by
  induction hloop generalizing k with
  | halted => exact ⟨k, h⟩
  | failed _ step => exact h.steps (steps_of_step step)
  | more _ step _ ih =>
      obtain ⟨k', h'⟩ := h.steps (steps_of_step step)
      exact ih h'

theorem size_le {m : Machine} (h : Booked code k m) : m.stack.size ≤ code.size := by
  have hheight := h.height
  have hpushes : (code.toList.take k).countP (·.op.pushes) ≤ (code.toList.take k).length :=
    List.countP_le_length
  have htake : (code.toList.take k).length ≤ code.size := List.length_take_le' k code.toList
  omega

end Booked

theorem Logged.perform (h : Logged code k traced p.console) {i : Instruction} {s : Stack}
    {v : Option Int32} (here : code.toList[k]? = some i)
    (done : i.execute p.machine.stack = .ok (s, v)) {console : Console}
    (emitted : p.console.emit? v = (.ok (), console)) :
    Logged code (k + 1) traced ({ p with console }.complete i s).console := by
  obtain ⟨values, hsink, hsize⟩ := h.written
  obtain ⟨_, _, _, hwritten⟩ := Instruction.execute_counts done
  obtain ⟨line, hline, hbreak⟩ := p.machine.traceLine_eq i s
  have hemit := (emit?_recorder hsink v).2
  have htrace := p.console.trace_emit? v
  rw [emitted] at hemit htrace
  dsimp only at hemit htrace
  refine ⟨⟨values ++ v.toList.toArray, hemit, ?_⟩, ?_, ?_⟩
  · rw [List.take_add_one, here]
    simp only [Array.size_append, List.size_toArray, Option.toList_some, List.countP_append,
      List.countP_singleton, hsize, hwritten, decide_eq_true_eq]
  · simp [complete, Console.note, htrace, h.traced]
  · intro text htext
    simp only [complete, Console.note, htrace, Option.map_eq_some_iff] at htext
    obtain ⟨before, hbefore, rfl⟩ := htext
    rw [hline]
    exact (h.lines before hbefore).append hbreak

namespace Tally

theorem start (code : Array Instruction) (stdout : Writer) (traced : Bool) :
    Tally code traced 0 []
      (start code ⟨some (.recorder #[]), stdout, if traced then some "" else none⟩) where
  booked := Booked.start code
  logged := by
    refine ⟨⟨#[], rfl, rfl⟩, by cases traced <;> rfl, fun text htext => ?_⟩
    cases traced with
    | false => cases htext
    | true =>
        cases htext
        exact Text.hasLines_empty
  busy := fun _ => rfl
  halted := fun h => by cases h

theorem fault (h : Tally code traced k errors p) (busy : p.machine.halted = false) {i : Instruction}
    (here : p.machine.instruction? = some i) (f : Fault) {console : Console}
    (hconsole : Logged code k traced console) :
    Tally code traced k (errors ++ [⟨f, p.machine.ip, i⟩])
      { p with console, machine.halted := true } where
  booked := h.booked.halt
  logged := hconsole
  busy := fun hb => by cases hb
  halted := fun _ => by
    rw [h.booked.instruction] at here
    have hlt := (List.getElem?_eq_some_iff.mp here).1
    exact .inr ⟨by simpa using hlt, _, by rw [h.busy busy]; rfl, h.booked.place⟩

theorem halts (h : Tally code traced k errors p) (busy : p.machine.halted = false)
    {e : Option RuntimeError} {q : Execution} (last : p.Halts e q) :
    Tally code traced k (errors ++ e.toList) q := by
  cases last with
  | finish past =>
      refine ⟨h.booked.halt, h.logged, fun hb => (by cases hb), fun _ => .inl ⟨?_, ?_⟩⟩
      · rw [h.booked.instruction, List.getElem?_eq_none_iff] at past
        exact Nat.le_antisymm h.booked.inside (by simpa using past)
      · rw [h.busy busy]
        rfl
  | fault i f here stop => exact h.fault busy here f h.logged
  | refuse i s v message console here done emitted =>
      -- A recorder refuses nothing.
      obtain ⟨values, hsink, _⟩ := h.logged.written
      have hok := (emit?_recorder hsink (some v)).1
      rw [Console.emit?, emitted] at hok
      cases hok

theorem steps (h : Tally code traced k errors p) {e : Option RuntimeError} {q : Execution}
    (hstep : p.Steps e q) : ∃ k, Tally code traced k (errors ++ e.toList) q := by
  cases hstep with
  | rest => exact ⟨k, by simpa using h⟩
  | halt busy last => exact ⟨k, h.halts busy last⟩
  | perform i s v console busy here done emitted =>
      rw [h.booked.instruction] at here
      refine ⟨k + 1, h.booked.perform here done console, h.logged.perform here done emitted, ?_, ?_⟩
      · intro _
        rw [h.busy busy]
        rfl
      · intro hhalted
        exact absurd (busy.symm.trans hhalted) (by simp)

theorem loops (h : Tally code traced k errors p) {n : Nat} {r : Option RuntimeError × Execution}
    (hloop : Loops n p r) : ∃ k, Tally code traced k (errors ++ r.1.toList) r.2 := by
  induction hloop generalizing k with
  | halted => exact ⟨k, by simpa using h⟩
  | failed _ step => exact h.steps (steps_of_step step)
  | more _ step _ ih =>
      obtain ⟨k', h'⟩ := h.steps (steps_of_step step)
      exact ih (by simpa using h')

theorem make (h : Tally code traced k errors p) (c : Call) :
    ∃ k, Tally code traced k (errors ++ (c.make p).1.toList) (c.make p).2 := by
  cases c with
  | step => exact h.steps (steps_of_step rfl)
  | run =>
      obtain ⟨n, hloop⟩ := p.loops_run
      exact h.loops hloop

theorem calls (h : Tally code traced k errors p) (cs : List Call) :
    ∃ k, Tally code traced k (errors ++ (p.calls cs).1.filterMap id) (p.calls cs).2 := by
  induction cs generalizing k errors p with
  | nil => exact ⟨k, by simpa [Execution.calls] using h⟩
  | cons c cs ih =>
      obtain ⟨k', h'⟩ := h.make c
      obtain ⟨k'', h''⟩ := ih h'
      refine ⟨k'', ?_⟩
      simp only [Execution.calls]
      cases hanswer : (c.make p).1 <;> simpa [hanswer] using h''

end Tally

theorem run_accounts (code : Array Instruction) (stdout : Writer) (traced : Bool) (cs : List Call) :
    let console : Console := ⟨some (.recorder #[]), stdout, if traced then some "" else none⟩
    let ended := (start code console).calls cs
    let errors := ended.1.filterMap id
    let m := ended.2.machine
    ∃ k : Nat, m.program = code ∧ m.ip = k ∧ k ≤ code.size ∧
      m.executed = UInt64.ofNat k ∧ (code.size < UInt64.size → m.executed.toNat = k) ∧
      (∃ values, ended.2.console.sink = some (.recorder values) ∧
        values.size = (code.toList.take k).countP (·.op = .wrt)) ∧
      ended.2.console.trace.isSome = traced ∧
      (∀ text, ended.2.console.trace = some text → Text.HasLines k text) ∧
      (m.stack.size : Int) = (code.toList.take k).countP (fun i => i.op ∈ [.lit, .lod]) -
        (code.toList.take k).countP (fun i => i.op ∈ [.sto, .add, .sub, .mul, .div, .wrt]) ∧
      (∀ i ∈ code.toList.take k, i.op ≠ .ill ∧ i.op.isKnown = true) ∧
      (m.halted = false → errors = []) ∧
      (m.halted = true →
        k = code.size ∧ errors = [] ∨ k < code.size ∧ ∃ e, errors = [e] ∧ e.ip = k) := by
  intro console ended errors m
  obtain ⟨k, htally⟩ := (Tally.start code stdout traced).calls cs
  obtain ⟨booked, logged, hbusy, hhalted⟩ := htally
  have hheight : (m.stack.size : Int) + (code.toList.take k).countP (·.op.drops) =
      (code.toList.take k).countP (·.op.pushes) := by
    exact_mod_cast booked.height
  refine ⟨k, booked.program, booked.place, booked.inside, booked.executed, fun hsize => ?_,
    logged.written, logged.traced, logged.lines, ?_, booked.legal, hbusy, hhalted⟩
  · rw [show m.executed = UInt64.ofNat k from booked.executed]
    exact UInt64.toNat_ofNat_of_lt (Nat.lt_of_le_of_lt booked.inside hsize)
  · change (m.stack.size : Int) = (code.toList.take k).countP (·.op.pushes) -
      (code.toList.take k).countP (·.op.drops)
    omega

theorem run_accounts_faulty :
    let ended := faulty.calls [.step, .run, .step]
    ended.2.machine.halted = true ∧ ∃ k < 3, ended.2.machine.executed.toNat = k ∧
      ∃ e, ended.1.filterMap id = [e] ∧ e.ip = k := by
  intro ended
  have hhalted : ended.2.machine.halted = true := by decide
  obtain ⟨k, _, _, _, _, hexecuted, _, _, _, _, _, _, hcase⟩ :=
    run_accounts faulty.machine.program {} true [.step, .run, .step]
  rcases hcase hhalted with ⟨_, hnone⟩ | ⟨hlt, e, herror, hplace⟩
  · exact absurd hnone (by decide)
  · exact ⟨hhalted, k, hlt, hexecuted (by decide), e, herror, hplace⟩

-- A fault stops the machine before the instruction that it names, and leaves it as it stood there.
theorem run_fault {code : Array Instruction} {console : Console} {e : RuntimeError}
    (h : (start code console).run.1 = some e) :
    ∃ k : Nat, Booked code k (start code console).run.2.machine ∧ e.ip = k ∧
      code[k]? = some e.instruction ∧
      ∃ written, Trail.follow {} (code.toList.take k) =
        .ok ⟨(start code console).run.2.machine.stack, written⟩ := by
  obtain ⟨done, q, _, last, hplace, hinstruction⟩ := run_split code console
  obtain ⟨n, hloop⟩ := (start code console).loops_run
  obtain ⟨k, hbooked⟩ := (Booked.start code).loops hloop
  obtain ⟨_, k', written, _, hplace', hfollow⟩ :=
    advance_start code console (bound (start code console).machine)
  rw [h] at last
  obtain ⟨hip, hhere⟩ := last.error_eq
  have hk : done.length = k := by
    have hq := hbooked.place
    rw [last.machine_eq] at hq
    exact Int.ofNat.inj (hplace.symm.trans hq)
  have hk' : k' = k := Int.ofNat.inj (hplace'.symm.trans hbooked.place)
  subst hk hk'
  rw [hinstruction, Array.getElem?_toList] at hhere
  exact ⟨_, hbooked, hip.trans hplace, hhere, written, hfollow⟩

end Execution

end PlZero
