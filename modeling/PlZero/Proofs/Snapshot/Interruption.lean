import PlZero.Proofs.Snapshot.RoundTrip

namespace PlZero

namespace Execution

-- A run as the loop that it is: it makes `n` steps and ends with this error and in this state.
inductive Loops : Nat → Execution → Option RuntimeError × Execution → Prop where
  | halted {p : Execution} (rest : p.machine.halted = true) : Loops 0 p (none, p)
  | failed {p q : Execution} {e : RuntimeError} (busy : p.machine.halted = false)
      (step : p.step = (some e, q)) : Loops 1 p (some e, q)
  | more {p q : Execution} {n : Nat} {r : Option RuntimeError × Execution}
      (busy : p.machine.halted = false) (step : p.step = (none, q)) (loop : Loops n q r) :
      Loops (n + 1) p r

namespace Loops

variable {n k : Nat} {p q : Execution} {r s : Option RuntimeError × Execution}

theorem unique (hr : Loops n p r) (hs : Loops k p s) : r = s := by
  induction hr generalizing k with
  | halted rest =>
      cases hs with
      | halted => rfl
      | failed busy | more busy => simp [rest] at busy
  | failed busy step =>
      cases hs with
      | halted rest => simp [rest] at busy
      | failed _ step' => exact step.symm.trans step'
      | more _ step' => cases step.symm.trans step'
  | more busy step _ ih =>
      cases hs with
      | halted rest => simp [rest] at busy
      | failed _ step' => cases step.symm.trans step'
      | more _ step' loop =>
          cases step.symm.trans step'
          exact ih loop

theorem eq_zero_of_halted (h : Loops n p r) (rest : p.machine.halted = true) : n = 0 := by
  cases h with
  | halted => rfl
  | failed busy | more busy => simp [rest] at busy

-- One step for each instruction that is left and one to halt; before the first instruction only that.
theorem le_remaining (h : Loops n p r) :
    (0 ≤ p.machine.ip → n ≤ (p.machine.program.size - p.machine.ip).toNat + 1) ∧
    (p.machine.ip < 0 → n ≤ 1) := by
  induction h with
  | halted | failed => constructor <;> omega
  | @more p q n r busy step loop ih =>
      cases steps_of_step step with
      | rest halted => simp [halted] at busy
      | halt _ last =>
          have hn := loop.eq_zero_of_halted (by rw [last.machine_eq])
          constructor <;> omega
      | perform i s v console _ here =>
          obtain ⟨hlow, hhigh⟩ := instruction?_lt here
          have hn : n ≤ (p.machine.program.size - (p.machine.ip + 1)).toNat + 1 :=
            ih.1 (Int.add_nonneg hlow (by decide))
          constructor <;> omega

end Loops

theorem loops_of_advance (n : Nat) (p : Execution)
    (h : (p.advance n).1.isSome = true ∨ (p.advance n).2.machine.halted = true) :
    ∃ k, Loops k p (p.advance n) := by
  induction n generalizing p with
  | zero => exact ⟨0, .halted (h.resolve_left (by simp [advance]))⟩
  | succ n ih =>
      cases hb : p.machine.halted with
      | true =>
          rw [advance_of_halted hb]
          exact ⟨0, .halted hb⟩
      | false =>
          rw [advance_succ hb] at h ⊢
          rcases hs : p.step with ⟨_ | e, q⟩
          · rw [hs] at h
            obtain ⟨k, hk⟩ := ih q h
            exact ⟨k + 1, .more hb hs hk⟩
          · exact ⟨1, .failed hb hs⟩

theorem loops_run (p : Execution) : ∃ n, Loops n p p.run :=
  loops_of_advance _ p (.inr p.run_halted)

theorem run_of_step {p q : Execution} (h : p.step = (none, q)) : q.run = p.run := by
  cases hb : p.machine.halted with
  | true =>
      have hq : p.step = (none, p) := if_pos hb
      cases hq.symm.trans h
      rfl
  | false =>
      obtain ⟨n, hp⟩ := p.loops_run
      obtain ⟨k, hq⟩ := q.loops_run
      exact (Loops.more hb h hq).unique hp

theorem program_step (p : Execution) : p.step.2.machine.program = p.machine.program := by
  rcases hs : p.step with ⟨e, q⟩
  cases steps_of_step hs with
  | rest => rfl
  | halt _ last => rw [last.machine_eq]
  | perform => rfl

theorem Loops.program {n : Nat} {p : Execution} {r : Option RuntimeError × Execution}
    (h : Loops n p r) : r.2.machine.program = p.machine.program := by
  induction h with
  | halted => rfl
  | @failed p q e _ step =>
      have hstep := p.program_step
      rwa [step] at hstep
  | @more p q n r _ step _ ih =>
      have hstep := p.program_step
      rw [step] at hstep
      exact ih.trans hstep

end Execution

inductive Call where
  | step
  | run
deriving DecidableEq, Repr

def Call.make : Call → Execution → Option RuntimeError × Execution
  | step, p => p.step
  | run, p => p.run

theorem Call.program_make (c : Call) (p : Execution) :
    (c.make p).2.machine.program = p.machine.program := by
  cases c with
  | step => exact p.program_step
  | run =>
      obtain ⟨n, h⟩ := p.loops_run
      exact h.program

inductive Move where
  | call (c : Call)
  | reload
deriving DecidableEq, Repr

def Move.call? : Move → Option Call
  | call c => some c
  | reload => none

namespace Execution

-- The answers of the calls, one after the other, and the state that they lead to.
def calls : Execution → List Call → List (Option RuntimeError) × Execution
  | p, [] => ([], p)
  | p, c :: cs => ((c.make p).1 :: (calls (c.make p).2 cs).1, (calls (c.make p).2 cs).2)

-- The machine goes through its own snapshot and is attached to the same things again.
def reload (p : Execution) : Except Snapshot.RestoreError Execution :=
  (Snapshot.reopen (Snapshot.save p.machine)).map fun q => { q with console := p.console }

def session : Execution → List Move →
    Except Snapshot.RestoreError (List (Option RuntimeError) × Execution)
  | p, [] => .ok ([], p)
  | p, .call c :: moves =>
      (session (c.make p).2 moves).map fun (answers, q) => ((c.make p).1 :: answers, q)
  | p, .reload :: moves => do
      let q ← p.reload
      q.session moves

-- Every snapshot that the moves take is one that an archive can hold.
def SnapshotsFit : Execution → List Move → Prop
  | _, [] => True
  | p, .call c :: moves => SnapshotsFit (c.make p).2 moves
  | p, .reload :: moves => Snapshot.Fits p.machine ∧ SnapshotsFit p moves

theorem reload_eq {p : Execution} (hknown : ∀ i ∈ p.machine.program, i.op.isKnown = true)
    (h : Snapshot.Fits p.machine) : p.reload = .ok p := by
  rw [reload, Snapshot.reopen, Snapshot.restore_save_known h hknown]
  rfl

theorem session_eq_calls {p : Execution} (hknown : ∀ i ∈ p.machine.program, i.op.isKnown = true)
    {moves : List Move} (h : p.SnapshotsFit moves) :
    p.session moves = .ok (p.calls (moves.filterMap Move.call?)) := by
  induction moves generalizing p with
  | nil => rfl
  | cons move moves ih =>
      cases move with
      | call c =>
          have htail := ih (by rwa [c.program_make p]) h
          rw [session, htail]
          rfl
      | reload =>
          rw [session, reload_eq hknown h.1]
          exact ih hknown h.2

theorem run_of_steps {n : Nat} {p q : Execution}
    (h : p.calls (List.replicate n .step) = (List.replicate n none, q)) : q.run = p.run := by
  induction n generalizing p with
  | zero =>
      cases h
      rfl
  | succ n ih =>
      simp only [List.replicate_succ, calls, Prod.mk.injEq, List.cons.injEq] at h
      obtain ⟨⟨hstep, hmore⟩, hq⟩ := h
      rw [ih (Prod.ext hmore hq)]
      exact run_of_step (Prod.ext hstep rfl)

theorem interruption_changes_nothing (p : Execution) :
    (∀ moves : List Move, (∀ i ∈ p.machine.program, i.op.isKnown = true) → p.SnapshotsFit moves →
      p.session moves = .ok (p.calls (moves.filterMap Move.call?))) ∧
    (∀ n q, p.calls (List.replicate n .step) = (List.replicate n none, q) → q.run = p.run) ∧
    ∃ n, Loops n p p.run ∧
      (0 ≤ p.machine.ip → n ≤ (p.machine.program.size - p.machine.ip).toNat + 1) ∧
      (p.machine.ip < 0 → n ≤ 1) := by
  refine ⟨fun moves hknown h => session_eq_calls hknown h, fun n q => run_of_steps, ?_⟩
  obtain ⟨n, hloops⟩ := p.loops_run
  exact ⟨n, hloops, hloops.le_remaining⟩

def faulty : Execution where
  machine := { program := #[⟨.lit, 7⟩, ⟨.wrt, 3⟩, ⟨.lod, 5⟩] }
  console := { sink := some (.recorder #[]), trace := some "" }

def faultyMoves : List Move :=
  [.reload, .call .step, .reload, .call .run, .reload, .call .step]

theorem interruption_changes_nothing_faulty :
    (∀ i ∈ faulty.machine.program, i.op.isKnown = true) ∧ faulty.SnapshotsFit faultyMoves ∧
      faulty.session faultyMoves = .ok (faulty.calls [.step, .run, .step]) ∧
      (faulty.calls [.step, .run, .step]).1 = [none, some ⟨.indexOutOfRange, 2, ⟨.lod, 5⟩⟩, none] := by
  have hknown : ∀ i ∈ faulty.machine.program, i.op.isKnown = true := by decide
  have hfit : faulty.SnapshotsFit faultyMoves :=
    ⟨by decide +kernel, by decide +kernel, by decide +kernel, trivial⟩
  exact ⟨hknown, hfit, (interruption_changes_nothing faulty).1 faultyMoves hknown hfit, by decide⟩

end Execution

end PlZero
