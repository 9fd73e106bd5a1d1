import JobFlow.Runs.Coherence

/-!
# No scheduled job runs early

`MarkRunning` does not look at `scheduled_at`. What keeps a job from running
early is that a row leaves the status `scheduled` for the queue only once its
time has come, and that a row which is queued at once was already due by the
reading of the API. The readings are those of one clock that does not step back.
-/

namespace JobFlow.Runs.ScheduledTime

open JobFlow.Model
open JobFlow.Model.JobRepository
open JobFlow.Lib.Transition
open Steps Coherence

/-- One clock for all: a caller read it before its command takes effect. -/
def SharedClock (s : State) : Label → Prop
  | .tick now => s.world.clock ≤ now
  | .run _ _ e => e.reading ≤ s.world.clock
  | _ => True

instance (s : State) (l : Label) : Decidable (SharedClock s l) := by
  induction l using Label.casesOn <;> dsimp only [SharedClock] <;> infer_instance

theorem SharedClock.forward {s : State} {l : Label} (h : SharedClock s l) : Forward s l := by
  cases l <;> first | exact h | trivial

/-- The time of a row has come, unless the row still waits or was cancelled. -/
def Due (now : Time) (r : Job) : Prop :=
  r.status = .scheduled ∨ r.status = .cancelled ∨ ∀ t, r.scheduledAt = some t → t ≤ now

theorem Due.mono {now now' : Time} {r : Job} (h : Due now r) (hle : now ≤ now') : Due now' r :=
  h.imp_right fun h => h.imp_right fun h t ht => (h t ht).trans hle

/-- A statement that does not act on waiting or cancelled rows keeps a row due. -/
theorem Due.moved {now : Time} {r r' : Job} (h : Due now r)
    (hst : r.status ≠ .scheduled ∧ r.status ≠ .cancelled)
    (hsched : r'.scheduledAt = r.scheduledAt) : Due now r' :=
  .inr (.inr (hsched ▸ (h.resolve_left hst.1).resolve_left hst.2))

/-- The instant of the request, cut to microseconds, is not after the reading. -/
theorem due_newRow {now reading : Int} {id : String} {p : CreateJobParams} {r : Job}
    (h : newRow now reading id p = some r) (hle : reading ≤ now) : Due now r := by
  rcases newRow_status h with ⟨hst, -⟩ | ⟨-, hpast⟩
  · exact .inl hst
  · refine .inr (.inr fun t ht => ?_)
    obtain ⟨-, -, -, -, -, -, -, hsched, -⟩ := newRow_fields h
    rw [hsched] at ht
    obtain ⟨ns, hns, rfl⟩ := Option.map_eq_some_iff.mp ht
    have hns := hpast ns hns
    show ns / 1000 ≤ now
    omega

theorem due_step {tr : List Act} {s s' : State} {l : Label} {a : Act} {id : String}
    (ho : Ownership.Owned tr s) (hok : SharedClock s l) (h : step s l = some (s', a))
    (hd : ∀ r, row s id = some r → Due s.world.clock r) :
    ∀ r, row s' id = some r → Due s'.world.clock r := by
  have hstep := step_row h id
  generalize hr : row s id = row₀ at hstep hd
  generalize row s' id = row' at hstep
  intro r' hr'
  refine (show Due s.world.clock r' from ?_).mono (clock_le_of_forward hok.forward h)
  cases hstep with
  | same ht => exact hd r' hr'
  | created hl hpc hnew =>
    cases hr'
    subst hl
    exact due_newRow hnew hok
  | cancelled hpc hw =>
    cases hr'
    exact .inr (.inl rfl)
  | requeued hpc hw =>
    cases hr'
    refine (hd _ rfl).moved ?_ rfl
    simp only [requeueWhere, Bool.and_eq_true, Bool.or_eq_true, decide_eq_true_eq] at hw
    obtain ⟨-, hst | hst⟩ := hw <;> rw [hst] <;> decide
  | @promoted _ _ r hpc hid hdue =>
    cases hr'
    simp only [isDue, Bool.and_eq_true, decide_eq_true_eq] at hdue
    refine .inr (.inr fun t ht => ?_)
    have hsched : r.scheduledAt = some t := ht
    simpa [hsched] using hdue.2
  | running hpc hw =>
    cases hr'
    refine (hd _ rfl).moved ?_ rfl
    simp only [runningWhere, Bool.and_eq_true, Bool.or_eq_true, decide_eq_true_eq] at hw
    obtain ⟨-, hst | hst⟩ := hw <;> rw [hst] <;> decide
  | completed hpc hid | failed hpc hid =>
    cases hr'
    have hst := ho.row_running (by rw [hpc]; exact hid) hr
    exact (hd _ rfl).moved (by rw [hst]; decide) rfl

theorem due_run {tr : List Act} {s : State} (h : Run step SharedClock State.initial tr s)
    (id : String) : ∀ r, row s id = some r → Due s.world.clock r := by
  refine h.invariant (I := fun _ s => ∀ r, row s id = some r → Due s.world.clock r) ?_ ?_
  · intro r hr
    cases hr
  · intro tr s s' l a hrun hd ho hs
    exact due_step (Ownership.owned_run hrun) ho hs hd

/-- No `MarkRunning` of a job takes effect before its `scheduled_at`, whatever
promotions, failures, cancels and retries came before. -/
theorem never_early {tr : List Act} {s : State} (h : Run step SharedClock State.initial tr s)
    {id : String} {r : Job} {t : Time} (hr : row s id = some r) (ht : r.scheduledAt = some t)
    {p : Pid} {now : Time} (hm : .markedRunning p id now ∈ tr) : t ≤ now := by
  obtain ⟨before, after, rfl⟩ := List.append_of_mem hm
  obtain ⟨m, l, m', hrun, hok, hs, hafter⟩ := h.observed
  have hdue := due_run hrun id
  have hstep := step_row hs id
  generalize hrow : row m id = row₀ at hstep hdue
  generalize row m' id = row' at hstep
  cases hstep with
  | same ht => exact absurd rfl ht
  | running hpc hw =>
    obtain ⟨r', hr', hsame⟩ := run_sameJob ((Run.single hok hs).trans hafter) hrow
    obtain rfl : r = r' := Option.some.inj (hr.symm.trans hr')
    simp only [runningWhere, Bool.and_eq_true, Bool.or_eq_true, decide_eq_true_eq] at hw
    rcases hdue _ rfl with hst | hst | hpast
    · simp [hst] at hw
    · simp [hst] at hw
    · exact hpast t (hsame.scheduledAt.symm.trans ht)

/-- A job scheduled for time 5000 is promoted (1) and run (2) at time 6000. -/
def promotedRun : List Label :=
  [.tick 1000,
    .start 0 (.request (.create ⟨"u1", "default", "send_email", none, 0, 3, some 5000000⟩)),
    .run 0 .ok { freshID := "j1", reading := 1000 }, .tick 6000,
    .start 1 .scheduler, .run 1 .ok { batch := ["j1"] }, .run 1 .ok { reading := 6000 },
    .start 2 (.worker ⟨"w1", "host", ["default"]⟩), .run 2 .ok {}, .run 2 .ok {}]

theorem promotedRun_runs : (execute step State.initial promotedRun).isSome := by decide

theorem promotedRun_row :
    (row (outcome step State.initial promotedRun promotedRun_runs).1 "j1").isSome := by decide

theorem never_early_promotedRun : ∃ tr s r, Run step SharedClock State.initial tr s ∧
    row s "j1" = some r ∧ r.scheduledAt = some 5000 ∧ .markedRunning 2 "j1" 6000 ∈ tr ∧
    (5000 : Time) ≤ 6000 :=
  have hrun := Run.of_outcome promotedRun_runs (show Admitted step SharedClock _ _ by decide)
  have hrow := (Option.some_get promotedRun_row).symm
  ⟨_, _, _, hrun, hrow, by decide, by decide, never_early hrun hrow (by decide) (p := 2)
    (by decide)⟩

end JobFlow.Runs.ScheduledTime
