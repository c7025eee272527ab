import PlZero.Suite.Verdict

namespace PlZero.Suite

inductive TaskState where
  | waiting
  | begun
  | running
  | done
  | refused
deriving DecidableEq, Repr

def TaskState.isInFlight : TaskState → Bool
  | begun | running => true
  | waiting | done | refused => false

structure Task where
  case : Case
  state : TaskState := .waiting
  verdict : Option Verdict := none
deriving DecidableEq, Repr

structure Batch where
  jobs : Nat
  tasks : List Task
  cancelled : Bool := false
deriving DecidableEq, Repr

inductive Move where
  | cancel
  | proceed (task : Nat)
deriving DecidableEq, Repr

namespace Batch

-- How many tasks may be under way at a time when a number of jobs is asked for. A number that is not
-- positive stands for the number of processors.
def limit (processors : Nat) (jobs : Int) : Nat :=
  if jobs ≤ 0 then processors else jobs.toNat

def ofCases (jobs : Nat) (cases : List Case) : Batch :=
  ⟨jobs, cases.map ({ case := · }), false⟩

def mayBegin (b : Batch) (i : Nat) : Bool :=
  (b.tasks.take i).all (·.state != .waiting) &&
    decide ((b.tasks.filter (·.state.isInFlight)).length < b.jobs)

def advance (b : Batch) (i : Nat) (t : Task) : Task :=
  match t.state with
  | .waiting => if b.mayBegin i then { t with state := .begun } else t
  | .begun => { t with state := if b.cancelled then .refused else .running }
  | .running => { t with state := .done, verdict := some t.case.verdict }
  | .done | .refused => t

def move (b : Batch) : Move → Batch
  | .cancel => { b with cancelled := true }
  | .proceed i =>
      match b.tasks[i]? with
      | none => b
      | some t =>
          let t := b.advance i t
          { b with tasks := b.tasks.set i t, cancelled := b.cancelled || t.state == .refused }

def moves (b : Batch) (ms : List Move) : Batch :=
  ms.foldl move b

def isComplete (b : Batch) : Bool :=
  b.tasks.all fun t => t.state == .done || t.state == .refused

def failed (b : Batch) : Bool :=
  b.tasks.any (·.state == .refused)

def verdicts (b : Batch) : List (Option Verdict) :=
  b.tasks.map Task.verdict

def inTurn (n : Nat) : List Move :=
  (List.range n).flatMap fun i => [.proceed i, .proceed i, .proceed i]

end Batch

def cancellation : String := "context canceled"

def Batch.error? (b : Batch) : Option String :=
  if b.failed then some cancellation else none

def judgeAll (cases : List Case) (cancelled : Bool) : Bool × List (Option Verdict) :=
  let start := if cancelled then [Move.cancel] else []
  let b := (Batch.ofCases 1 cases).moves (start ++ Batch.inTurn cases.length)
  (b.failed, b.verdicts)

structure Summary where
  passed : Nat := 0
  failed : Nat := 0
  skipped : Nat := 0
deriving DecidableEq, Repr

namespace Summary

def add (s : Summary) (v : Option Verdict) : Summary :=
  if v.any Verdict.skipped then { s with skipped := s.skipped + 1 }
  else if v.any Verdict.passed then { s with passed := s.passed + 1 }
  else { s with failed := s.failed + 1 }

def ofVerdicts (vs : List (Option Verdict)) : Summary :=
  vs.foldl add {}

def render (s : Summary) : String :=
  s!"{s.passed} passed, {s.failed} failed, {s.skipped} skipped"

end Summary

end PlZero.Suite
