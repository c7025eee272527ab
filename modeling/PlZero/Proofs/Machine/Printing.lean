import PlZero.Proofs.Console.Writing
import PlZero.Proofs.Snapshot.Interruption

namespace PlZero

open Text.Utf8 (encode)

namespace Execution

theorem emit?_lines {c c' : Console} {out : Writer} {v : Option Int32} (h : c.sink = some (.lines out))
    (hemit : c.emit? v = (.ok (), c')) :
    ∃ out', c'.sink = some (.lines out') ∧
      out'.bytes = out.bytes ++ (encode (String.join (v.toList.map Sink.line))).toList := by
  cases v with
  | none =>
      cases hemit
      exact ⟨out, h, by simp⟩
  | some v =>
      simp only [Console.emit?, Console.emit, h, Sink.emit] at hemit
      rcases hwrite : out.write (Sink.line v) with ⟨e | ⟨⟩, out'⟩
      · rw [hwrite] at hemit
        cases hemit
      · rw [hwrite] at hemit
        cases hemit
        exact ⟨out', rfl, by simp [Writer.bytes_of_write hwrite, String.join_cons]⟩

-- After `k` instructions, the values that they write stand as lines behind the bytes `before`.
structure Printed (code : Array Instruction) (before : List UInt8) (k : Nat) (p : Execution) : Prop where
  program : p.machine.program = code
  place : p.machine.ip = k
  lines : ∃ values out, Trail.follow {} (code.toList.take k) = .ok ⟨p.machine.stack, values⟩ ∧
    p.console.sink = some (.lines out) ∧
    out.bytes = before ++ (encode (String.join (values.map Sink.line))).toList

namespace Printed

variable {code : Array Instruction} {before : List UInt8} {k : Nat} {p q : Execution}

theorem steps (h : Printed code before k p) (hstep : p.Steps none q) : ∃ k, Printed code before k q := by
  cases hstep with
  | rest => exact ⟨k, h⟩
  | halt _ last =>
      cases last with
      | finish => exact ⟨k, h.program, h.place, h.lines⟩
  | perform i s v console _ here done emitted =>
      obtain ⟨values, out, hfollow, hsink, hbytes⟩ := h.lines
      obtain ⟨out', hsink', hbytes'⟩ := emit?_lines hsink emitted
      rw [instruction?_of_ip h.place, h.program] at here
      refine ⟨k + 1, h.program, ?_, values ++ v.toList, out', ?_, hsink', ?_⟩
      · simp [complete, h.place]
      · rw [List.take_add_one, here, Trail.follow_append_of_ok hfollow, Option.toList_some,
          Trail.follow_cons, Trail.step_of_ok done]
        rfl
      · rw [hbytes', hbytes, List.map_append, String.join_append, Text.Utf8.toList_encode_append,
          List.append_assoc]

theorem loops (h : Printed code before k p) {n : Nat} {r : Option RuntimeError × Execution}
    (hloop : Loops n p r) (hnone : r.1 = none) : ∃ k, Printed code before k r.2 := by
  induction hloop generalizing k with
  | halted => exact ⟨k, h⟩
  | failed => cases hnone
  | more _ step _ ih =>
      obtain ⟨k', h'⟩ := h.steps (steps_of_step step)
      exact ih h' hnone

end Printed

theorem run_lines {code : Array Instruction} {console : Console} {out : Writer}
    (hsink : console.sink = some (.lines out)) (h : (start code console).run.1 = none) :
    ∃ r out', Trail.follow {} code.toList = .ok r ∧
      (start code console).run.2.console.sink = some (.lines out') ∧
      out'.bytes = out.bytes ++ (encode (String.join (r.written.map Sink.line))).toList := by
  have hstart : Printed code out.bytes 0 (start code console) :=
    ⟨rfl, rfl, [], out, by simp [start], hsink, by simp⟩
  obtain ⟨n, hloop⟩ := (start code console).loops_run
  obtain ⟨k, _, hplace, values, out', hfollow, hsink', hbytes⟩ := hstart.loops hloop h
  have hk : k = code.toList.length := by
    rw [ip_of_run_none h] at hplace
    simpa using (Int.ofNat.inj hplace).symm
  rw [hk, List.take_length] at hfollow
  exact ⟨_, out', hfollow, hsink', hbytes⟩

end Execution

end PlZero
