import PlZero.Machine.Basic

namespace PlZero

theorem of_bind_eq_ok {ε α β : Type} {x : Except ε α} {f : α → Except ε β} {b : β}
    (h : x >>= f = .ok b) : ∃ a, x = .ok a ∧ f a = .ok b := by
  cases x with
  | error e => cases h
  | ok a => exact ⟨a, rfl, h⟩

theorem eq_ok_of_toOption {ε α : Type} {x : Except ε α} {a : α} (h : x.toOption = some a) : x = .ok a := by
  cases x with
  | error e => cases h
  | ok b =>
      cases h
      rfl

structure Trail where
  stack : Stack := #[]
  written : List Int32 := []

namespace Trail

def step (r : Trail) (i : Instruction) : Except Fault Trail := do
  let (s, v) ← i.execute r.stack
  .ok ⟨s, r.written ++ v.toList⟩

def follow (r : Trail) (code : List Instruction) : Except Fault Trail := code.foldlM step r

@[simp] theorem follow_nil (r : Trail) : r.follow [] = .ok r := rfl

theorem follow_append (r : Trail) (c d : List Instruction) :
    r.follow (c ++ d) = (r.follow c).bind fun r => r.follow d := by
  simp only [follow, List.foldlM_append]
  rfl

theorem follow_cons (r : Trail) (i : Instruction) (c : List Instruction) :
    r.follow (i :: c) = (r.step i).bind fun r => r.follow c := rfl

theorem follow_append_of_ok {r r' : Trail} {c : List Instruction} (h : r.follow c = .ok r')
    (d : List Instruction) : r.follow (c ++ d) = r'.follow d := by
  rw [follow_append, h]
  rfl

theorem step_of_ok {r : Trail} {i : Instruction} {s : Stack} {v : Option Int32}
    (h : i.execute r.stack = .ok (s, v)) : r.step i = .ok ⟨s, r.written ++ v.toList⟩ := by
  rw [step, h]
  rfl

theorem step_of_error {r : Trail} {i : Instruction} {f : Fault}
    (h : i.execute r.stack = .error f) : r.step i = .error f := by
  rw [step, h]
  rfl

theorem of_follow_append {r r' : Trail} {c d : List Instruction}
    (h : r.follow (c ++ d) = .ok r') :
    ∃ q, r.follow c = .ok q ∧ q.follow d = .ok r' := by
  rw [follow_append] at h
  exact of_bind_eq_ok h

theorem length_le_of_stop {r s t : Trail} {f : Fault} {c c' d d' : List Instruction}
    {i : Instruction} (hsplit : c ++ i :: d = c' ++ d') (hc : r.follow c = .ok s)
    (hi : i.execute s.stack = .error f) (hc' : r.follow c' = .ok t) : c'.length ≤ c.length := by
  refine Nat.le_of_not_lt fun hlt => ?_
  have hi' : c ++ [i] <+: c' ++ d' := ⟨d, by simpa using hsplit⟩
  have hprefix : c ++ [i] <+: c' :=
    List.prefix_of_prefix_length_le hi' (List.prefix_append c' d') (by rw [List.length_append]; exact hlt)
  obtain ⟨e, rfl⟩ := hprefix
  rw [List.append_assoc, follow_append_of_ok hc, List.singleton_append, follow_cons,
    step_of_error hi] at hc'
  cases hc'

theorem stop_unique {r s t : Trail} {f g : Fault} {c c' d d' : List Instruction}
    {i j : Instruction} (hsplit : c ++ i :: d = c' ++ j :: d')
    (hc : r.follow c = .ok s) (hi : i.execute s.stack = .error f)
    (hc' : r.follow c' = .ok t) (hj : j.execute t.stack = .error g) :
    c = c' ∧ i = j ∧ s = t := by
  have hlen : c.length = c'.length :=
    Nat.le_antisymm (length_le_of_stop hsplit.symm hc' hj hc) (length_le_of_stop hsplit hc hi hc')
  obtain ⟨rfl, htail⟩ := List.append_inj hsplit hlen
  cases hc.symm.trans hc'
  exact ⟨rfl, (List.cons.inj htail).1, rfl⟩

end Trail

namespace Execution

inductive Halts (p : Execution) : Option RuntimeError → Execution → Prop where
  | finish (past : p.machine.instruction? = none) : Halts p none { p with machine.halted := true }
  | fault (i : Instruction) (f : Fault) (here : p.machine.instruction? = some i)
      (stop : i.execute p.machine.stack = .error f) :
      Halts p (some ⟨f, p.machine.ip, i⟩) { p with machine.halted := true }
  | refuse (i : Instruction) (s : Stack) (v : Int32) (message : String) (console : Console)
      (here : p.machine.instruction? = some i)
      (done : i.execute p.machine.stack = .ok (s, some v))
      (emitted : p.console.emit v = (.error message, console)) :
      Halts p (some ⟨.writeFailed message, p.machine.ip, i⟩)
        { p with console, machine.halted := true }

inductive Steps (p : Execution) : Option RuntimeError → Execution → Prop where
  | rest (halted : p.machine.halted = true) : Steps p none p
  | halt {e : Option RuntimeError} {q : Execution} (busy : p.machine.halted = false)
      (last : p.Halts e q) : Steps p e q
  | perform (i : Instruction) (s : Stack) (v : Option Int32) (console : Console)
      (busy : p.machine.halted = false) (here : p.machine.instruction? = some i)
      (done : i.execute p.machine.stack = .ok (s, v))
      (emitted : p.console.emit? v = (.ok (), console)) :
      Steps p none ({ p with console }.complete i s)

theorem steps_of_step {p q : Execution} {e : Option RuntimeError} (h : p.step = (e, q)) :
    p.Steps e q := by
  suffices p.Steps p.step.1 p.step.2 by rwa [h] at this
  unfold step
  cases hb : p.machine.halted with
  | true => exact .rest hb
  | false =>
      simp only [Bool.false_eq_true, if_false]
      cases hi : p.machine.instruction? with
      | none => exact .halt hb (.finish hi)
      | some i =>
          simp only [Execution.perform]
          rcases he : i.execute p.machine.stack with f | ⟨s, v⟩
          · exact .halt hb (.fault i f hi he)
          · rcases hc : p.console.emit? v with ⟨message | ⟨⟩, console⟩
            · cases v with
              | none => cases hc
              | some v =>
                  simp only [hc]
                  exact .halt hb (.refuse i s v message console hi he hc)
            · simp only [hc]
              exact .perform i s v console hb hi he hc

theorem emit?_recorder {c : Console} {ws : Array Int32} (h : c.sink = some (.recorder ws))
    (v : Option Int32) :
    (c.emit? v).1 = .ok () ∧ (c.emit? v).2.sink = some (.recorder (ws ++ v.toList.toArray)) := by
  cases v with
  | none => simp [Console.emit?, h]
  | some v => simp [Console.emit?, Console.emit, Sink.emit, h]

theorem written_of_ne_wrt {i : Instruction} (h : i.op ≠ .wrt) {s s' : Stack} {v : Option Int32}
    (hi : i.execute s = .ok (s', v)) : v = none := by
  have silent {α : Type} {x : Except Fault α} {g : α → Stack}
      (hx : (do let a ← x; .ok (g a, none)) = Except.ok (s', v)) : v = none := by
    obtain ⟨a, _, ha⟩ := of_bind_eq_ok hx
    cases ha
    rfl
  obtain ⟨op, operand⟩ := i
  cases op with
  | lit => cases hi; rfl
  | wrt => exact absurd rfl h
  | ill | unknown => cases hi
  | lod | sto | add | sub | mul | div => exact silent hi

-- From `k` on, the machine performs the instructions `done` one after the other.
structure Advanced (k : Nat) (p q : Execution) (done : List Instruction) : Prop where
  program : q.machine.program = p.machine.program
  place : q.machine.ip = (k + done.length : Nat)
  code : done <+: p.machine.program.toList.drop k
  trail : ∀ w, ∃ new, Trail.follow ⟨p.machine.stack, w⟩ done = .ok ⟨q.machine.stack, w ++ new⟩ ∧
    ∀ ws, p.console.sink = some (.recorder ws) →
      q.console.sink = some (.recorder (ws ++ new.toArray))
  silent : (∀ i ∈ done, i.op ≠ .wrt) →
    q.console.sink = p.console.sink ∧ q.console.stdout = p.console.stdout

namespace Advanced

variable {k : Nat} {p q r : Execution}

theorem refl (h : p.machine.ip = k) : Advanced k p p [] where
  program := rfl
  place := by simpa using h
  code := List.nil_prefix
  trail := fun w => ⟨[], by simp, by simp⟩
  silent := fun _ => ⟨rfl, rfl⟩

theorem trans {c d : List Instruction} (hc : Advanced k p q c) (hd : Advanced (k + c.length) q r d) :
    Advanced k p r (c ++ d) where
  program := hd.program.trans hc.program
  place := by simpa [Nat.add_assoc] using hd.place
  code := by
    obtain ⟨more, hmore⟩ := hc.code
    have hdrop : p.machine.program.toList.drop (k + c.length) = more := by
      rw [← List.drop_drop, ← hmore, List.drop_left]
    have hd' := hd.code
    rw [hc.program, hdrop] at hd'
    rw [← hmore]
    exact (List.prefix_append_right_inj c).mpr hd'
  trail := fun w => by
    obtain ⟨new, hnew, hsink⟩ := hc.trail w
    obtain ⟨new', hnew', hsink'⟩ := hd.trail (w ++ new)
    refine ⟨new ++ new', ?_, ?_⟩
    · rw [Trail.follow_append_of_ok hnew, hnew', List.append_assoc]
    · intro ws hws
      rw [hsink' _ (hsink ws hws)]
      simp
  silent := fun h => by
    obtain ⟨hs, ho⟩ := hc.silent fun i hi => h i (List.mem_append_left d hi)
    obtain ⟨hs', ho'⟩ := hd.silent fun i hi => h i (List.mem_append_right c hi)
    exact ⟨hs'.trans hs, ho'.trans ho⟩

end Advanced

theorem instruction?_of_ip {m : Machine} {k : Nat} (h : m.ip = k) :
    m.instruction? = m.program.toList[k]? := by
  simp [Machine.instruction?, h]

theorem advanced_perform {k : Nat} {p : Execution} (hk : p.machine.ip = k) {i : Instruction}
    {s : Stack} {v : Option Int32} {console : Console} (here : p.machine.instruction? = some i)
    (done : i.execute p.machine.stack = .ok (s, v))
    (emitted : p.console.emit? v = (.ok (), console)) :
    Advanced k p ({ p with console }.complete i s) [i] where
  program := rfl
  place := by simp [complete, hk]
  code := by
    rw [instruction?_of_ip hk] at here
    obtain ⟨hlt, hget⟩ := List.getElem?_eq_some_iff.mp here
    rw [List.drop_eq_getElem_cons hlt, hget]
    simp
  trail := fun w => by
    refine ⟨v.toList, ?_, ?_⟩
    · rw [Trail.follow_cons, Trail.step_of_ok done]
      rfl
    · intro ws hws
      have h := (emit?_recorder hws v).2
      rw [emitted] at h
      exact h
  silent := fun h => by
    have hv := written_of_ne_wrt (h i (by simp)) done
    subst hv
    cases emitted
    exact ⟨rfl, rfl⟩

namespace Halts

variable {p q : Execution} {e : Option RuntimeError}

theorem machine_eq (h : p.Halts e q) : q.machine = { p.machine with halted := true } := by
  cases h <;> rfl

theorem console_eq (h : p.Halts e q)
    (silent : ∀ i, p.machine.instruction? = some i → i.op ≠ .wrt) : q.console = p.console := by
  cases h with
  | finish | fault => rfl
  | refuse i s v message console here done => cases written_of_ne_wrt (silent i here) done

theorem past_of_none (h : p.Halts none q) : p.machine.instruction? = none := by
  cases h with
  | finish past => exact past

theorem error_eq {e : RuntimeError} (h : p.Halts (some e) q) :
    e.ip = p.machine.ip ∧ p.machine.instruction? = some e.instruction := by
  cases h with
  | fault i f here => exact ⟨rfl, here⟩
  | refuse i s v message console here => exact ⟨rfl, here⟩

end Halts

theorem advance_succ {p : Execution} (busy : p.machine.halted = false) (n : Nat) :
    p.advance (n + 1) = if p.step.1.isSome then p.step else p.step.2.advance n := by
  rw [advance, if_neg (by simp [busy])]
  rcases p.step with ⟨_ | e, q⟩ <;> rfl

theorem advance_of_halted {p : Execution} (h : p.machine.halted = true) (n : Nat) :
    p.advance n = (none, p) := by
  cases n <;> simp [advance, h]

-- Either all `n` steps perform an instruction, or a step before that halts the machine.
theorem advance_split (n : Nat) {p : Execution} {k : Nat} (hk : p.machine.ip = k)
    (busy : p.machine.halted = false) :
    ∃ done q, Advanced k p q done ∧
      (done.length = n ∧ p.advance n = (none, q) ∨
        done.length < n ∧ q.Halts (p.advance n).1 (p.advance n).2) := by
  induction n generalizing p k with
  | zero => exact ⟨[], p, .refl hk, .inl ⟨rfl, rfl⟩⟩
  | succ n ih =>
      rcases hs : p.step with ⟨e, r⟩
      have hadvance := advance_succ busy n
      rw [hs] at hadvance
      cases steps_of_step hs with
      | rest halted => simp [busy] at halted
      | halt _ last =>
          have hlast : p.advance (n + 1) = (e, r) := by
            rw [hadvance]
            cases e with
            | none => exact advance_of_halted (by rw [last.machine_eq]) n
            | some e => rfl
          rw [hlast]
          exact ⟨[], p, .refl hk, .inr ⟨by simp, last⟩⟩
      | perform i s v console _ here done emitted =>
          have hstep := advanced_perform hk here done emitted
          obtain ⟨more, q, hq, hcase⟩ := ih hstep.place busy
          refine ⟨i :: more, q, hstep.trans hq, ?_⟩
          rw [hadvance, List.length_cons, Nat.add_lt_add_iff_right, Nat.add_right_cancel_iff]
          exact hcase

def start (code : Array Instruction) (console : Console) : Execution := ⟨{ program := code }, console⟩

theorem advance_start (code : Array Instruction) (console : Console) (n : Nat) :
    ((start code console).advance n).2.machine.program = code ∧
    ∃ (k : Nat) (w : List Int32), k ≤ code.size ∧
      ((start code console).advance n).2.machine.ip = k ∧
      Trail.follow {} (code.toList.take k) =
        .ok ⟨((start code console).advance n).2.machine.stack, w⟩ := by
  obtain ⟨done, q, hq, hcase⟩ :=
    advance_split n (p := start code console) (k := 0) rfl rfl
  have hprefix : done <+: code.toList := hq.code
  have hplace : q.machine.ip = done.length := by simpa using hq.place
  obtain ⟨new, hnew, _⟩ := hq.trail []
  have hq : q.machine.program = code ∧ ∃ (k : Nat) (w : List Int32), k ≤ code.size ∧
      q.machine.ip = k ∧ Trail.follow {} (code.toList.take k) = .ok ⟨q.machine.stack, w⟩ :=
    ⟨hq.program, done.length, new, hprefix.length_le, hplace,
      by rw [← List.prefix_iff_eq_take.mp hprefix]; exact hnew⟩
  rcases hcase with ⟨_, hadvance⟩ | ⟨_, last⟩
  · rw [hadvance]
    exact hq
  · rw [last.machine_eq]
    exact hq

theorem run_split (code : Array Instruction) (console : Console) :
    ∃ done q, Advanced 0 (start code console) q done ∧
      q.Halts (start code console).run.1 (start code console).run.2 ∧
      q.machine.ip = done.length ∧ q.machine.instruction? = code.toList[done.length]? := by
  obtain ⟨done, q, hq, hcase⟩ :=
    advance_split (bound (start code console).machine) (p := start code console) (k := 0) rfl rfl
  have hplace : q.machine.ip = done.length := by simpa using hq.place
  have hinstruction := instruction?_of_ip hplace
  rw [hq.program] at hinstruction
  rcases hcase with ⟨hn, _⟩ | ⟨_, last⟩
  · have hle : done.length ≤ code.toList.length := hq.code.length_le
    simp [bound, start] at hn hle
    omega
  · exact ⟨done, q, hq, last, hplace, hinstruction⟩

theorem ip_of_run_none {code : Array Instruction} {console : Console}
    (h : (start code console).run.1 = none) :
    (start code console).run.2.machine.ip = code.size := by
  obtain ⟨done, q, hq, last, hplace, hinstruction⟩ := run_split code console
  have hle : done.length ≤ code.toList.length := hq.code.length_le
  rw [h] at last
  have hpast := last.past_of_none
  rw [hinstruction] at hpast
  have hge := List.getElem?_eq_none_iff.mp hpast
  rw [last.machine_eq]
  simp only [hplace, Array.length_toList] at hge hle ⊢
  omega

theorem run_start (code : Array Instruction) {console : Console}
    (hc : console.sink = some (.recorder #[])) :
    ∃ r : Trail, (start code console).run.2.machine.stack = r.stack ∧
      (start code console).run.2.console.sink = some (.recorder r.written.toArray) ∧
      ((start code console).run.1 = none ∧ Trail.follow {} code.toList = .ok r ∨
        ∃ done i more f, code.toList = done ++ i :: more ∧ Trail.follow {} done = .ok r ∧
          i.execute r.stack = .error f ∧
          (start code console).run.1 = some ⟨f, (done.length : Nat), i⟩) := by
  obtain ⟨done, q, hq, last, hplace, hinstruction⟩ := run_split code console
  obtain ⟨new, hnew, hsink⟩ := hq.trail []
  have hsink := hsink #[] hc
  rw [Array.empty_append] at hsink
  have hprefix : done <+: code.toList := hq.code
  refine ⟨⟨q.machine.stack, new⟩, by rw [last.machine_eq], ?_⟩
  rcases hrun : (start code console).run with ⟨e, r⟩
  rw [hrun] at last
  cases last with
  | finish past =>
      have hall : done = code.toList := by
        apply hprefix.eq_of_length_le
        rw [hinstruction] at past
        exact List.getElem?_eq_none_iff.mp past
      exact ⟨hsink, .inl ⟨rfl, hall ▸ hnew⟩⟩
  | fault i f here stop =>
      obtain ⟨more, hmore⟩ := hprefix
      rw [hinstruction, ← hmore, List.getElem?_append_right (Nat.le_refl _), Nat.sub_self] at here
      obtain ⟨rest, rfl⟩ : ∃ rest, more = i :: rest := by
        cases more with
        | nil => cases here
        | cons j rest => exact ⟨rest, by rw [Option.some.inj here]⟩
      exact ⟨hsink, .inr ⟨done, i, rest, f, hmore.symm, hnew, stop, by rw [hplace]⟩⟩
  | refuse i s v message refused _ _ emitted =>
      have hok := (emit?_recorder hsink (some v)).1
      rw [Console.emit?, emitted] at hok
      cases hok

end Execution

end PlZero
