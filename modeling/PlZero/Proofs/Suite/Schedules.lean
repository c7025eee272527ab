import PlZero.Suite.Batch

namespace PlZero.Suite

-- How many more times a task goes on at most.
def TaskState.remaining : TaskState → Nat
  | waiting => 3
  | begun => 2
  | running => 1
  | done | refused => 0

def remainingSteps : List Task → Nat
  | [] => 0
  | t :: ts => t.state.remaining + remainingSteps ts

theorem remainingSteps_append (l r : List Task) :
    remainingSteps (l ++ r) = remainingSteps l + remainingSteps r := by
  induction l with
  | nil => simp [remainingSteps]
  | cons t l ih =>
      simp only [List.cons_append, remainingSteps, ih]
      omega

theorem remainingSteps_le (ts : List Task) : remainingSteps ts ≤ 3 * ts.length := by
  induction ts with
  | nil => simp [remainingSteps]
  | cons t ts ih =>
      have ht : t.state.remaining ≤ 3 := by cases t.state <;> simp [TaskState.remaining]
      simp only [remainingSteps, List.length_cons]
      omega

namespace Batch

-- What can become of the task in place `i` when it goes on.
inductive Advances (b : Batch) (i : Nat) (t : Task) : Task → Prop where
  | rests (h : t.state = .done ∨ t.state = .refused ∨ t.state = .waiting ∧ b.mayBegin i = false) :
      Advances b i t t
  | begins (h : t.state = .waiting) (may : b.mayBegin i = true) :
      Advances b i t { t with state := .begun }
  | starts (h : t.state = .begun) (going : b.cancelled = false) :
      Advances b i t { t with state := .running }
  | withdraws (h : t.state = .begun) (stopped : b.cancelled = true) :
      Advances b i t { t with state := .refused }
  | ends (h : t.state = .running) :
      Advances b i t { t with state := .done, verdict := some t.case.verdict }

theorem advances_advance (b : Batch) (i : Nat) (t : Task) : b.Advances i t (b.advance i t) := by
  unfold advance
  split
  · next h =>
      split
      · next may => exact .begins h may
      · next may => exact .rests (.inr (.inr ⟨h, by simpa using may⟩))
  · next h =>
      cases hc : b.cancelled with
      | false => exact .starts h hc
      | true => exact .withdraws h hc
  · next h => exact .ends h
  · next h => exact .rests (.inl h)
  · next h => exact .rests (.inr (.inl h))

variable {b : Batch} {l r : List Task} {t : Task}

theorem move_split (h : b.tasks = l ++ t :: r) :
    b.move (.proceed l.length) = ⟨b.jobs, l ++ b.advance l.length t :: r,
      b.cancelled || (b.advance l.length t).state == .refused⟩ := by
  simp [move, h]

theorem move_proceed_cases (b : Batch) (i : Nat) :
    b.move (.proceed i) = b ∨
    ∃ (l : List Task) (t t' : Task) (r : List Task), b.tasks = l ++ t :: r ∧ b.Advances i t t' ∧
      b.move (.proceed i) = ⟨b.jobs, l ++ t' :: r, b.cancelled || t'.state == .refused⟩ := by
  cases hi : b.tasks[i]? with
  | none => exact .inl (by simp [move, hi])
  | some t =>
      obtain ⟨hlt, rfl⟩ := List.getElem?_eq_some_iff.mp hi
      have hsplit : b.tasks = b.tasks.take i ++ b.tasks[i] :: b.tasks.drop (i + 1) := by simp
      have hlength : (b.tasks.take i).length = i := by simp; omega
      have hmove := move_split hsplit
      rw [hlength] at hmove
      exact .inr ⟨_, _, _, _, hsplit, advances_advance .., hmove⟩

def inFlight (b : Batch) : Nat := (b.tasks.filter (·.state.isInFlight)).length

-- What is true of a batch for `cases` at every moment.
structure Sound (jobs : Nat) (cases : List Case) (b : Batch) : Prop where
  limit : b.jobs = jobs
  tasks : b.tasks.map Task.case = cases
  verdict : ∀ t ∈ b.tasks, t.verdict = if t.state = .done then some t.case.verdict else none
  refused : ∀ t ∈ b.tasks, t.state = .refused → b.cancelled = true
  crowd : b.inFlight ≤ jobs

theorem sound_ofCases (jobs : Nat) (cases : List Case) : (ofCases jobs cases).Sound jobs cases where
  limit := rfl
  tasks := by simp [ofCases, Function.comp_def]
  verdict := by simp [ofCases]
  refused := by simp [ofCases]
  crowd := by
    have hnone : (ofCases jobs cases).tasks.filter (·.state.isInFlight) = [] := by
      simp [ofCases, List.filter_eq_nil_iff, TaskState.isInFlight]
    simp [inFlight, hnone]

variable {jobs : Nat} {cases : List Case}

theorem Sound.cancel (h : b.Sound jobs cases) : (b.move .cancel).Sound jobs cases :=
  ⟨h.limit, h.tasks, h.verdict, fun _ _ _ => rfl, h.crowd⟩

namespace Advances

variable {i : Nat} {t' : Task}

theorem case_eq (h : b.Advances i t t') : t'.case = t.case := by
  cases h <;> rfl

-- A task is refused only in a batch that has been cancelled before.
theorem cancelled (h : b.Advances i t t') (ht : t.state = .refused → b.cancelled = true) :
    t'.state = .refused → b.cancelled = true := by
  cases h with
  | rests => exact ht
  | begins | starts | ends => simp
  | withdraws _ stopped => exact fun _ => stopped

theorem verdict (h : b.Advances i t t')
    (ht : t.verdict = if t.state = .done then some t.case.verdict else none) :
    t'.verdict = if t'.state = .done then some t'.case.verdict else none := by
  cases h with
  | rests => exact ht
  | begins hs | starts hs | withdraws hs => simpa [hs] using ht
  | ends => simp

theorem crowd (h : b.Advances i t t') (htasks : b.tasks = l ++ t :: r) (hb : b.inFlight ≤ b.jobs) :
    ((l ++ t' :: r).filter (·.state.isInFlight)).length ≤ b.jobs := by
  rw [inFlight, htasks] at hb
  cases h with
  | rests => exact hb
  | begins hs may =>
      simp only [mayBegin, Bool.and_eq_true, decide_eq_true_eq, htasks] at may
      have hroom := may.2
      simp [hs, TaskState.isInFlight] at hroom ⊢
      omega
  | starts hs | withdraws hs | ends hs =>
      simp [hs, TaskState.isInFlight] at hb ⊢
      omega

theorem remaining (h : b.Advances i t t') : t' = t ∨ t'.state.remaining < t.state.remaining := by
  cases h with
  | rests => exact .inl rfl
  | begins h | starts h | withdraws h | ends h => exact .inr (by simp [h, TaskState.remaining])

end Advances

theorem forall_mem_replace {P : Task → Prop} {t' : Task} (h : ∀ x ∈ l ++ t :: r, P x) (hnew : P t') :
    ∀ x ∈ l ++ t' :: r, P x := by
  simp only [List.mem_append, List.mem_cons] at h ⊢
  rintro x (hx | rfl | hx)
  · exact h x (.inl hx)
  · exact hnew
  · exact h x (.inr (.inr hx))

theorem Sound.proceed (h : b.Sound jobs cases) (i : Nat) :
    (b.move (.proceed i)).Sound jobs cases ∧ (b.move (.proceed i)).cancelled = b.cancelled := by
  rcases b.move_proceed_cases i with hmove | ⟨l, t, t', r, htasks, hadvance, hmove⟩
  · rw [hmove]
    exact ⟨h, rfl⟩
  · obtain ⟨rfl, hcases, hverdict, hrefused, hcrowd⟩ := h
    have hcrowd' := hadvance.crowd htasks hcrowd
    rw [htasks] at hcases hverdict hrefused
    have hstopped := hadvance.cancelled (hrefused t (by simp))
    have hcancelled : (b.cancelled || t'.state == .refused) = b.cancelled := by
      by_cases hs : t'.state = .refused
      · simp [hstopped hs]
      · simp [hs]
    rw [hmove, hcancelled]
    exact ⟨⟨rfl, by simpa [hadvance.case_eq] using hcases,
      forall_mem_replace hverdict (hadvance.verdict (hverdict t (by simp))),
      forall_mem_replace hrefused hstopped, hcrowd'⟩, rfl⟩

theorem Sound.moves {b : Batch} (h : b.Sound jobs cases) (ms : List Move) :
    (b.moves ms).Sound jobs cases ∧
      ((b.moves ms).cancelled = true → b.cancelled = true ∨ .cancel ∈ ms) := by
  induction ms generalizing b with
  | nil => exact ⟨h, .inl⟩
  | cons m ms ih =>
      cases m with
      | cancel => exact ⟨(ih h.cancel).1, fun _ => .inr (by simp)⟩
      | proceed i =>
          obtain ⟨hnext, hcancelled⟩ := h.proceed i
          obtain ⟨hsound, hcancel⟩ := ih hnext
          refine ⟨hsound, fun hend => ?_⟩
          rcases hcancel hend with hb | hm
          · exact .inl (hcancelled ▸ hb)
          · exact .inr (List.mem_cons_of_mem _ hm)

theorem Sound.verdicts_getElem? (h : b.Sound jobs cases) {i : Nat} {c : Case} (hc : cases[i]? = some c) :
    ∃ t ∈ b.tasks, t.case = c ∧ b.verdicts[i]? = some t.verdict := by
  rw [← h.tasks, List.getElem?_map, Option.map_eq_some_iff] at hc
  obtain ⟨t, ht, rfl⟩ := hc
  exact ⟨t, List.mem_of_getElem? ht, rfl, by simp [verdicts, ht]⟩

theorem Sound.length_verdicts (h : b.Sound jobs cases) : b.verdicts.length = cases.length := by
  simp [verdicts, ← h.tasks]

theorem Sound.verdicts_of_done (h : b.Sound jobs cases) (hdone : ∀ t ∈ b.tasks, t.state = .done) :
    b.verdicts = cases.map fun c => some c.verdict := by
  rw [← h.tasks, List.map_map]
  refine List.map_congr_left fun t ht => ?_
  simp [h.verdict t ht, hdone t ht]

theorem error?_eq_none_iff : b.error? = none ↔ ∀ t ∈ b.tasks, t.state ≠ .refused := by
  simp [error?, failed]

theorem error?_eq_none_iff_done (h : b.isComplete = true) :
    b.error? = none ↔ ∀ t ∈ b.tasks, t.state = .done := by
  simp only [isComplete, List.all_eq_true, Bool.or_eq_true, beq_iff_eq] at h
  rw [error?_eq_none_iff]
  refine forall₂_congr fun t ht => ?_
  rcases h t ht with hs | hs <;> simp [hs]

theorem Sound.verdict_cases (h : b.Sound jobs cases) {i : Nat} {c : Case} (hc : cases[i]? = some c) :
    b.verdicts[i]? = some none ∨ b.verdicts[i]? = some (some c.verdict) := by
  obtain ⟨t, ht, rfl, hv⟩ := h.verdicts_getElem? hc
  rw [hv, h.verdict t ht]
  split
  · exact .inr rfl
  · exact .inl rfl

theorem Sound.error?_iff_verdicts (h : b.Sound jobs cases) (hc : b.isComplete = true) :
    b.error? = none ↔
      ∀ (i : Nat) (c : Case), cases[i]? = some c → b.verdicts[i]? = some (some c.verdict) := by
  rw [error?_eq_none_iff_done hc]
  constructor
  · intro hdone i c hi
    obtain ⟨t, ht, rfl, hv⟩ := h.verdicts_getElem? hi
    rw [hv, h.verdict t ht, if_pos (hdone t ht)]
  · intro hall t ht
    obtain ⟨i, hi⟩ := List.mem_iff_getElem?.mp ht
    have hv := hall i t.case (by simp [← h.tasks, hi])
    have hverdict : t.verdict = some t.case.verdict := by simpa [verdicts, hi] using hv
    rw [h.verdict t ht] at hverdict
    by_cases hs : t.state = .done
    · exact hs
    · simp [hs] at hverdict

theorem remaining_move (b : Batch) (m : Move) :
    remainingSteps (b.move m).tasks ≤ remainingSteps b.tasks := by
  cases m with
  | cancel => exact Nat.le_refl _
  | proceed i =>
      rcases b.move_proceed_cases i with hmove | ⟨l, t, t', r, htasks, hadvance, hmove⟩
      · exact Nat.le_of_eq (by rw [hmove])
      · simp only [hmove, htasks, remainingSteps_append, remainingSteps]
        rcases hadvance.remaining with rfl | hless <;> omega

theorem remaining_proceed (htasks : b.tasks = l ++ t :: r) (hmore : b.advance l.length t ≠ t) :
    remainingSteps (b.move (.proceed l.length)).tasks < remainingSteps b.tasks := by
  rw [move_split htasks, htasks]
  simp only [remainingSteps_append, remainingSteps]
  rcases (b.advances_advance l.length t).remaining with heq | hless
  · exact absurd heq hmore
  · omega

theorem mayBegin_of_idle (hjobs : 0 < b.jobs) (hidle : b.tasks.filter (·.state.isInFlight) = [])
    (htasks : b.tasks = l ++ r) (hl : ∀ x ∈ l, x.state ≠ .waiting) : b.mayBegin l.length = true := by
  simp only [mayBegin, hidle, Bool.and_eq_true, List.all_eq_true]
  exact ⟨by simpa [htasks] using hl, by simpa using hjobs⟩

theorem exists_proceed (hjobs : 0 < b.jobs) (h : b.isComplete = false) :
    ∃ i, remainingSteps (b.move (.proceed i)).tasks < remainingSteps b.tasks := by
  by_cases hflight : ∃ t ∈ b.tasks, t.state.isInFlight = true
  · obtain ⟨t, ht, hs⟩ := hflight
    obtain ⟨l, r, htasks⟩ := List.append_of_mem ht
    refine ⟨l.length, remaining_proceed htasks fun heq => ?_⟩
    have hstate := congrArg Task.state heq
    cases hcase : t.state with
    | begun => cases hc : b.cancelled <;> simp [advance, hcase, hc] at hstate
    | running => simp [advance, hcase] at hstate
    | waiting | done | refused => simp [hcase, TaskState.isInFlight] at hs
  · -- Nothing is under way, so the first task that waits may begin.
    have hidle : b.tasks.filter (·.state.isInFlight) = [] := by
      simpa [List.filter_eq_nil_iff] using hflight
    have hwaits : ∃ t ∈ b.tasks, (t.state == .waiting) = true := by
      simp only [isComplete, List.all_eq_false] at h
      obtain ⟨t, ht, hs⟩ := h
      refine ⟨t, ht, ?_⟩
      have hrest : t.state.isInFlight = false := by
        simpa using fun hf => hflight ⟨t, ht, hf⟩
      cases hcase : t.state <;> simp [hcase, TaskState.isInFlight] at hs hrest ⊢
    obtain ⟨t, hfind⟩ := Option.isSome_iff_exists.mp (List.find?_isSome.mpr hwaits)
    obtain ⟨hs, l, r, htasks, hbefore⟩ := List.find?_eq_some_iff_append.mp hfind
    have hmay := mayBegin_of_idle hjobs hidle htasks (by simpa using hbefore)
    refine ⟨l.length, remaining_proceed htasks fun heq => ?_⟩
    have hwaiting : t.state = .waiting := by simpa using hs
    have hstate := congrArg Task.state heq
    simp [advance, hwaiting, hmay] at hstate

theorem moves_append (b : Batch) (ms ns : List Move) : b.moves (ms ++ ns) = (b.moves ms).moves ns :=
  List.foldl_append

theorem moves_turn (hjobs : 0 < b.jobs) (hgoing : b.cancelled = false) (htasks : b.tasks = l ++ t :: r)
    (hl : ∀ x ∈ l, x.state = .done) (ht : t.state = .waiting) (hr : ∀ x ∈ r, x.state = .waiting) :
    b.moves [.proceed l.length, .proceed l.length, .proceed l.length] =
      ⟨b.jobs, l ++ { t with state := .done, verdict := some t.case.verdict } :: r, false⟩ := by
  have hidle : b.tasks.filter (·.state.isInFlight) = [] := by
    rw [htasks, List.filter_eq_nil_iff]
    intro x hx
    rcases List.mem_append.mp hx with hx | hx
    · simp [hl x hx, TaskState.isInFlight]
    · rcases List.mem_cons.mp hx with rfl | hx
      · simp [ht, TaskState.isInFlight]
      · simp [hr x hx, TaskState.isInFlight]
  have hmay := mayBegin_of_idle hjobs hidle htasks fun x hx => by simp [hl x hx]
  have hbegin : b.move (.proceed l.length) = ⟨b.jobs, l ++ { t with state := .begun } :: r, false⟩ := by
    simp [move_split htasks, advance, ht, hmay, hgoing]
  have hstart : (Batch.mk b.jobs (l ++ { t with state := .begun } :: r) false).move (.proceed l.length) =
      ⟨b.jobs, l ++ { t with state := .running } :: r, false⟩ := by
    simp [move, advance]
  have hend : (Batch.mk b.jobs (l ++ { t with state := .running } :: r) false).move (.proceed l.length) =
      ⟨b.jobs, l ++ { t with state := .done, verdict := some t.case.verdict } :: r, false⟩ := by
    simp [move, advance]
  simp only [moves, List.foldl_cons, List.foldl_nil, hbegin, hstart, hend]

theorem moves_inTurn {b : Batch} (hjobs : 0 < b.jobs) (hgoing : b.cancelled = false)
    (l r : List Task) (htasks : b.tasks = l ++ r) (hl : ∀ x ∈ l, x.state = .done)
    (hr : ∀ x ∈ r, x.state = .waiting) :
    ∀ x ∈ (b.moves ((List.range' l.length r.length).flatMap
      fun i => [.proceed i, .proceed i, .proceed i])).tasks, x.state = .done := by
  induction r generalizing b l with
  | nil => simpa [moves, htasks] using hl
  | cons t r ih =>
      obtain ⟨ht, hr⟩ := List.forall_mem_cons.mp hr
      let t' : Task := { t with state := .done, verdict := some t.case.verdict }
      have hdone : ∀ x ∈ l ++ [t'], x.state = .done := by
        intro x hx
        rcases List.mem_append.mp hx with hx | hx
        · exact hl x hx
        · rw [List.mem_singleton.mp hx]
      have hnext := ih (b := ⟨b.jobs, l ++ t' :: r, false⟩) hjobs rfl (l ++ [t']) (by simp) hdone hr
      rw [List.length_cons, List.range'_succ, List.flatMap_cons, moves_append,
        moves_turn hjobs hgoing htasks hl ht hr]
      simpa using hnext

end Batch

theorem judgeAll_eq (cases : List Case) :
    judgeAll cases false = (false, cases.map fun c => some c.verdict) := by
  have hdone : ∀ t ∈ ((Batch.ofCases 1 cases).moves (Batch.inTurn cases.length)).tasks,
      t.state = .done := by
    have hturn := Batch.moves_inTurn (b := Batch.ofCases 1 cases) (by simp [Batch.ofCases]) rfl []
      (cases.map ({ case := · })) rfl (by simp) (by simp)
    rwa [List.length_map, List.length_nil, ← List.range_eq_range'] at hturn
  obtain ⟨hsound, _⟩ := (Batch.sound_ofCases 1 cases).moves (Batch.inTurn cases.length)
  have hfailed : ((Batch.ofCases 1 cases).moves (Batch.inTurn cases.length)).failed = false := by
    simp only [Batch.failed, List.any_eq_false]
    intro t ht
    simp [hdone t ht]
  simp [judgeAll, hfailed, hsound.verdicts_of_done hdone]

namespace Summary

def total (s : Summary) : Nat := s.passed + s.failed + s.skipped

theorem total_add (s : Summary) (v : Option Verdict) : (s.add v).total = s.total + 1 := by
  unfold add
  split
  · simp only [total]
    omega
  · split <;> simp only [total] <;> omega

theorem total_foldl (vs : List (Option Verdict)) (s : Summary) :
    (vs.foldl add s).total = s.total + vs.length := by
  induction vs generalizing s with
  | nil => rfl
  | cons v vs ih =>
      rw [List.foldl_cons, ih, total_add, List.length_cons]
      omega

theorem total_ofVerdicts (vs : List (Option Verdict)) : (ofVerdicts vs).total = vs.length := by
  rw [ofVerdicts, total_foldl]
  simp [total]

end Summary

theorem schedules_agree {processors : Nat} (hprocessors : 0 < processors) (jobs : Int)
    (cases : List Case) (ms : List Move) :
    let b := (Batch.ofCases (Batch.limit processors jobs) cases).moves ms
    b.verdicts.length = cases.length ∧
    (∀ (i : Nat) (c : Case), cases[i]? = some c →
      b.verdicts[i]? = some none ∨ b.verdicts[i]? = some (some c.verdict)) ∧
    (b.isComplete = true →
      (b.error? = none ↔
        ∀ (i : Nat) (c : Case), cases[i]? = some c → b.verdicts[i]? = some (some c.verdict)) ∧
      (b.error? = none → b.verdicts = cases.map fun c => some c.verdict)) ∧
    (Move.cancel ∉ ms → b.error? = none ∧
      (b.isComplete = true → (b.failed, b.verdicts) = judgeAll cases false)) ∧
    (Summary.ofVerdicts b.verdicts).total = cases.length ∧
    b.inFlight ≤ Batch.limit processors jobs ∧
    remainingSteps b.tasks ≤ 3 * cases.length ∧
    (∀ m, remainingSteps (b.move m).tasks ≤ remainingSteps b.tasks) ∧
    (b.isComplete = false →
      ∃ i, remainingSteps (b.move (.proceed i)).tasks < remainingSteps b.tasks) := by
  intro b
  have hmoves := (Batch.sound_ofCases (Batch.limit processors jobs) cases).moves ms
  have hsound : b.Sound (Batch.limit processors jobs) cases := hmoves.1
  have hquiet (hm : Move.cancel ∉ ms) : b.error? = none := by
    refine Batch.error?_eq_none_iff.mpr fun t ht hs => ?_
    rcases hmoves.2 (hsound.refused t ht hs) with hstart | hmem
    · cases hstart
    · exact hm hmem
  have hlimit : 0 < b.jobs := by
    rw [hsound.limit, Batch.limit]
    split <;> omega
  have hall (hc : b.isComplete = true) (he : b.error? = none) :
      b.verdicts = cases.map fun c => some c.verdict :=
    hsound.verdicts_of_done ((Batch.error?_eq_none_iff_done hc).mp he)
  refine ⟨hsound.length_verdicts, fun i c => hsound.verdict_cases,
    fun hc => ⟨hsound.error?_iff_verdicts hc, hall hc⟩, fun hm => ⟨hquiet hm, fun hc => ?_⟩, ?_,
    hsound.crowd, ?_, b.remaining_move, Batch.exists_proceed hlimit⟩
  · have hfailed : b.failed = false := by simpa [Batch.error?] using hquiet hm
    rw [judgeAll_eq, hfailed, hall hc (hquiet hm)]
  · rw [Summary.total_ofVerdicts, hsound.length_verdicts]
  · rw [← hsound.tasks, List.length_map]
    exact remainingSteps_le b.tasks

-- The batch is cancelled when the first task has looked and has not ended yet.
def lateCancel : List Move :=
  [.proceed 0, .proceed 0, .cancel, .proceed 0, .proceed 1, .proceed 1]

theorem schedules_agree_lateCancel :
    let cases : List Case := [{ name := "first", skip := .reason "later" }, { name := "second" }]
    let b := (Batch.ofCases (Batch.limit 1 (-2)) cases).moves lateCancel
    0 < 1 ∧ b.isComplete = true ∧ b.error? = some cancellation ∧
    b.verdicts =
      [some { case := { name := "first", skip := .reason "later" }, skipped := true, reason := "later" },
        none] ∧
    (¬ ∀ (i : Nat) (c : Case), cases[i]? = some c → b.verdicts[i]? = some (some c.verdict)) ∧
    (Summary.ofVerdicts b.verdicts).total = 2 := by
  intro cases b
  obtain ⟨_, _, hends, _, htotal, _⟩ := schedules_agree (by decide : 0 < 1) (-2) cases lateCancel
  have hcomplete : b.isComplete = true := by decide
  have herror : b.error? = some cancellation := by decide
  refine ⟨by decide, hcomplete, herror, by decide, fun hall => ?_, htotal⟩
  rw [(hends hcomplete).1.mpr hall] at herror
  cases herror

end PlZero.Suite
