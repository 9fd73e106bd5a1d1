import JobFlow.Runs.Ownership

/-!
# The retry budget is exact

`MarkRunning` counts, `MarkFailed` compares and `Requeue` does not reset. The
invariant fixes, for each status, how many executions have been started given
how often the job was revived. A retry is counted when its `Requeue` takes
effect: from then on the job can be started again. Every run is covered, also
those in which commands fail or goroutines stop.
-/

namespace JobFlow.Runs.Budget

open JobFlow.Model
open JobFlow.Model.JobRepository
open JobFlow.Lib.Transition
open Steps History Ownership

/-- Executions before the first retry: one at least, whatever is stored. -/
def budget (maxAttempts : Int) : Int := max 1 maxAttempts

theorem budget_cases (n : Int) :
    1 ≤ budget n ∧ n ≤ budget n ∧ (budget n = 1 ∨ budget n = n) := by
  unfold budget
  exact ⟨le_max_left 1 n, le_max_right 1 n, max_choice 1 n⟩

/-- The attempts a row shows at each status after so many retries, `since` of
them after the last one. -/
def Spent (r : Job) (retries since : Nat) : Prop :=
  match r.status with
  | .queued => (retries = 0 → r.attempts = 0) ∧
      (0 < retries → since = 0 ∧ (r.attempts : Int) + 1 = budget r.maxAttempts + retries)
  | .scheduled => retries = 0 ∧ r.attempts = 0
  | .retrying => retries = 0 ∧ 1 ≤ r.attempts ∧ (r.attempts : Int) < r.maxAttempts
  | .running => 1 ≤ r.attempts ∧ (retries = 0 → (r.attempts : Int) ≤ budget r.maxAttempts) ∧
      (0 < retries → since = 1 ∧ (r.attempts : Int) = budget r.maxAttempts + retries)
  | .completed | .cancelled => (retries = 0 → (r.attempts : Int) ≤ budget r.maxAttempts) ∧
      (0 < retries → since ≤ 1 ∧ (r.attempts : Int) ≤ budget r.maxAttempts + retries)
  | .deadLetter => (r.attempts : Int) = budget r.maxAttempts + retries ∧ (0 < retries → since ≤ 1)
  | .failed => False

/-- The row and the history of one job agree. -/
def Accounted (id : String) (tr : List Act) : Option Job → Prop
  | none => starts id tr = 0 ∧ requeues id tr = 0
  | some r => r.attempts = starts id tr ∧ Spent r (requeues id tr) (startsSince id tr)

theorem isStart_of_not_touches {id : String} {a : Act} (h : ¬ touches id a) :
    isStart id a = false := by
  cases a <;> simp_all [isStart, touches]

theorem isRequeue_of_not_touches {id : String} {a : Act} (h : ¬ touches id a) :
    isRequeue id a = false := by
  cases a <;> simp_all [isRequeue, touches]

/-- A step that starts and revives nothing keeps the counts. -/
theorem accounted_quiet {id : String} {tr : List Act} {a : Act} (hs : isStart id a = false)
    (hq : isRequeue id a = false) (row : Option Job) :
    Accounted id (tr ++ [a]) row ↔ Accounted id tr row := by
  cases row <;> simp [Accounted, hs, hq]

theorem accounted_step {tr : List Act} {s s' : State} {l : Label} {a : Act} (ho : Owned tr s)
    (h : step s l = some (s', a)) {id : String} (hacc : Accounted id tr (row s id)) :
    Accounted id (tr ++ [a]) (row s' id) := by
  have hstep := step_row h id
  generalize hr : row s id = row₀ at hstep hacc
  generalize row s' id = row' at hstep
  cases hstep with
  | same ht =>
    exact (accounted_quiet (isStart_of_not_touches ht) (isRequeue_of_not_touches ht) _).mpr hacc
  | created hl hpc hnew =>
    rw [accounted_quiet rfl rfl]
    obtain ⟨-, -, -, -, hatt, -⟩ := newRow_fields hnew
    obtain ⟨hs, hq⟩ := hacc
    refine ⟨hatt.trans hs.symm, ?_⟩
    obtain ⟨hst, -⟩ | ⟨hst, -⟩ := newRow_status hnew <;>
      simp [Spent, hst, hatt, hq]
  | @cancelled _ _ r hpc hw =>
    rw [accounted_quiet rfl rfl]
    have hb := budget_cases r.maxAttempts
    refine ⟨hacc.1, ?_⟩
    have hspent := hacc.2
    simp only [cancelWhere, Bool.and_eq_true, Bool.or_eq_true, decide_eq_true_eq] at hw
    obtain ⟨-, (hst | hst) | hst⟩ := hw <;>
      simp only [Spent, hst, cancelSet] at hspent ⊢ <;> omega
  | requeued hpc hw =>
    obtain ⟨hatt, hspent⟩ := hacc
    simp only [requeueWhere, Bool.and_eq_true, Bool.or_eq_true, decide_eq_true_eq] at hw
    refine ⟨by simpa [isStart, requeueSet] using hatt, ?_⟩
    obtain ⟨-, hst | hst⟩ := hw <;>
      simp only [Spent, hst, requeueSet, requeues_snoc, startsSince_snoc, isRequeue,
        decide_true, if_true, true_and] at hspent ⊢
    omega
  | promoted hpc hid hd =>
    rw [accounted_quiet rfl rfl]
    refine ⟨hacc.1, ?_⟩
    have hspent := hacc.2
    simp only [isDue, Bool.and_eq_true, decide_eq_true_eq] at hd
    simp only [Spent, hd.1, promotedSet] at hspent ⊢
    omega
  | @running _ _ r hpc hw =>
    have hb := budget_cases r.maxAttempts
    obtain ⟨hatt, hspent⟩ := hacc
    simp only [runningWhere, Bool.and_eq_true, Bool.or_eq_true, decide_eq_true_eq] at hw
    refine ⟨by simp [isStart, runningSet, hatt], ?_⟩
    obtain ⟨-, hst | hst⟩ := hw <;>
      simp only [Spent, hst, runningSet, requeues_snoc, startsSince_snoc, isRequeue,
        isStart, decide_true, if_true, Bool.false_eq_true, if_false, Nat.add_zero] at hspent ⊢ <;>
      omega
  | completed hpc hid =>
    rw [accounted_quiet rfl rfl]
    refine ⟨hacc.1, ?_⟩
    have hspent := hacc.2
    have hst := ho.row_running (by rw [hpc]; exact hid) hr
    simp only [Spent, hst, completedSet] at hspent ⊢
    omega
  | @failed _ _ _ r _ hpc hid =>
    rw [accounted_quiet rfl rfl]
    have hb := budget_cases r.maxAttempts
    refine ⟨hacc.1, ?_⟩
    have hspent := hacc.2
    have hst := ho.row_running (by rw [hpc]; exact hid) hr
    by_cases hlt : (r.attempts : Int) < r.maxAttempts
    · simp only [Spent, hst, failedSet, if_pos hlt] at hspent ⊢
      omega
    · simp only [Spent, hst, failedSet, if_neg hlt] at hspent ⊢
      omega

theorem accounted_run {ok : State → Label → Prop} {tr : List Act} {s : State}
    (h : Run step ok State.initial tr s) (id : String) : Accounted id tr (row s id) := by
  refine h.invariant (I := fun tr s => Accounted id tr (row s id)) ⟨rfl, rfl⟩ ?_
  intro tr s s' l a hrun hacc _ hs
  exact accounted_step (owned_run hrun) hs hacc

/-- What the counts allow before and after the first retry. -/
theorem accounted_bounds {id : String} {tr : List Act} {r : Job}
    (h : Accounted id tr (some r)) :
    (requeues id tr = 0 → (starts id tr : Int) ≤ budget r.maxAttempts) ∧
    (0 < requeues id tr → startsSince id tr ≤ 1) ∧
    (r.attempts : Int) ≤ budget r.maxAttempts + requeues id tr := by
  have hb := budget_cases r.maxAttempts
  obtain ⟨hatt, hspent⟩ := h
  rw [← hatt]
  unfold Spent at hspent
  split at hspent
  case h_8 => exact hspent.elim
  all_goals omega

/-- The execution a goroutine fails is the last of those the budget allows
exactly when the row goes to `dead_letter`. -/
theorem failed_status {tr : List Act} {s s' : State} {l : Label} {p : Pid} {id : String}
    {st : Status} {n : Nat} {now : Time} (h : Run step anyStep State.initial tr s)
    (hs : step s l = some (s', .markedFailed p id st n now)) :
    ∃ r, row s id = some r ∧
      (requeues id tr = 0 →
        st = if (starts id tr : Int) = budget r.maxAttempts then .deadLetter else .retrying) ∧
      (0 < requeues id tr → st = .deadLetter) := by
  have hacc := accounted_run h id
  have ho := owned_run h
  have hstep := step_row hs id
  generalize hr : row s id = row₀ at hstep hacc
  generalize row s' id = row' at hstep
  cases hstep with
  | same ht => exact absurd rfl ht
  | @failed _ w job r message hpc hid =>
    have hst := ho.row_running (by rw [hpc]; exact hid) hr
    obtain ⟨hatt, hspent⟩ := hacc
    have hb := budget_cases r.maxAttempts
    simp only [Spent, hst, hatt] at hspent
    refine ⟨r, rfl, fun hq => ?_, fun hq => ?_⟩ <;>
      simp only [failedSet, hatt]
    · split <;> split <;> first | rfl | omega
    · rw [if_neg (by omega)]

/-- Before the first retry a job is started at most `max 1 maxAttempts` times, and
the execution that fails leads to `dead_letter` exactly when it is the last of
these. Each retry buys one more execution, whose failure leads straight back. -/
theorem retry_budget {tr : List Act} {s : State} (h : Run step anyStep State.initial tr s)
    {id : String} {r : Job} (hr : row s id = some r) :
    (∀ before after, tr = before ++ after →
      (requeues id before = 0 → (starts id before : Int) ≤ max 1 r.maxAttempts) ∧
      (0 < requeues id before → startsSince id before ≤ 1)) ∧
    (∀ before after p st n now, tr = before ++ .markedFailed p id st n now :: after →
      (requeues id before = 0 →
        st = if (starts id before : Int) = max 1 r.maxAttempts then .deadLetter
          else .retrying) ∧
      (0 < requeues id before → st = .deadLetter)) ∧
    (r.attempts : Int) ≤ max 1 r.maxAttempts + requeues id tr := by
  refine ⟨?_, ?_, ?_⟩
  · rintro before after rfl
    obtain ⟨m, hm, hafter⟩ := h.split
    have hacc := accounted_run hm id
    cases hrow : row m id with
    | none =>
      rw [hrow] at hacc
      obtain ⟨hs, hq⟩ := hacc
      have hpos := le_max_left 1 r.maxAttempts
      omega
    | some r₁ =>
      rw [hrow] at hacc
      obtain ⟨r', hr', hsame⟩ := run_sameJob hafter hrow
      obtain rfl : r = r' := Option.some.inj (hr.symm.trans hr')
      obtain ⟨hfirst, hsince, -⟩ := accounted_bounds hacc
      rw [hsame.maxAttempts]
      exact ⟨hfirst, hsince⟩
  · rintro before after p st n now rfl
    obtain ⟨m, l, m', hm, _, hs, hafter⟩ := h.observed
    obtain ⟨r₁, hrow, hfirst, hlater⟩ := failed_status hm hs
    obtain ⟨r', hr', hsame⟩ := run_sameJob ((Run.single trivial hs).trans hafter) hrow
    obtain rfl : r = r' := Option.some.inj (hr.symm.trans hr')
    rw [hsame.maxAttempts]
    exact ⟨hfirst, hlater⟩
  · have hacc := accounted_run h id
    rw [hr] at hacc
    exact (accounted_bounds hacc).2.2

/-- A job stored with `max_attempts = -5` fails (1), is retried (2) and fails again. -/
def failedTwice : List Label :=
  [.start 0 (.request (.create ⟨"u1", "default", "send_email", none, 0, -5, none⟩)),
    .run 0 .ok { freshID := "j1" }, .run 0 .ok {},
    .start 1 (.worker ⟨"w1", "host", ["default"]⟩),
    .run 1 .ok {}, .run 1 .ok {}, .run 1 .ok {}, .finish 1 (.error "boom"), .run 1 .ok {},
    .run 1 .ok {}, .run 1 .ok {}, .run 1 .ok {},
    .start 2 (.request (.retry "j1" "u1")), .run 2 .ok {}, .run 2 .ok {},
    .run 1 .ok {}, .run 1 .ok {}, .run 1 .ok {}, .finish 1 (.error "boom"), .run 1 .ok {}]

theorem failedTwice_runs : (execute step State.initial failedTwice).isSome := by decide

theorem failedTwice_row :
    (row (outcome step State.initial failedTwice failedTwice_runs).1 "j1").isSome := by decide

theorem retry_budget_failedTwice : ∃ tr s r, Run step anyStep State.initial tr s ∧
    row s "j1" = some r ∧ starts "j1" tr = 2 ∧ requeues "j1" tr = 1 ∧
    r.status = .deadLetter ∧ (r.attempts : Int) ≤ max 1 r.maxAttempts + requeues "j1" tr :=
  have hrun := Run.of_outcome failedTwice_runs (admitted_anyStep State.initial _)
  have hrow := (Option.some_get failedTwice_row).symm
  ⟨_, _, _, hrun, hrow, by decide, by decide, by decide, (retry_budget hrun hrow).2.2⟩

end JobFlow.Runs.Budget
