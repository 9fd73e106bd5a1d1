import JobFlow.Runs.Budget

/-!
# The columns of a row agree with its status

Each statement writes its own subset of the columns. With a clock that never
steps back the null columns, the counters and the order of the instants can be
read off the status of a row, in every state of every run.
-/

namespace JobFlow.Runs.Coherence

open JobFlow.Model
open JobFlow.Model.JobRepository
open JobFlow.Lib.Transition
open Steps History Ownership Budget

/-- The clock of the database does not step back. -/
def Forward (s : State) : Label → Prop
  | .tick now => s.world.clock ≤ now
  | _ => True

instance (s : State) (l : Label) : Decidable (Forward s l) := by
  induction l using Label.casesOn <;> dsimp only [Forward] <;> infer_instance

theorem clock_le_of_forward {s s' : State} {l : Label} {a : Act} (ho : Forward s l)
    (h : step s l = some (s', a)) : s.world.clock ≤ s'.world.clock := by
  rcases step_clock h with heq | ⟨now, rfl, heq⟩
  · rw [heq]
  · rw [heq]
    exact ho

/-- Which columns are null at each status, and the order of the instants. -/
structure Dated (now : Time) (r : Job) : Prop where
  finished : r.completedAt.isSome ↔ r.status = .completed
  started : r.startedAt.isSome ↔ 1 ≤ r.attempts
  waiting : r.status = .scheduled → r.scheduledAt.isSome
  clean : r.status = .queued ∨ r.status = .scheduled ∨ r.status = .completed →
    r.errorMessage = none
  blamed : r.status = .retrying ∨ r.status = .deadLetter → r.errorMessage.isSome
  created : r.createdAt ≤ now
  begun : ∀ t, r.startedAt = some t → r.createdAt ≤ t ∧ t ≤ now
  ended : ∀ t, r.completedAt = some t → ∃ u, r.startedAt = some u ∧ u ≤ t

namespace Dated

variable {now now' : Time} {r : Job}

theorem mono (h : Dated now r) (hle : now ≤ now') : Dated now' r where
  finished := h.finished
  started := h.started
  waiting := h.waiting
  clean := h.clean
  blamed := h.blamed
  created := h.created.trans hle
  begun t ht := ⟨(h.begun t ht).1, (h.begun t ht).2.trans hle⟩
  ended := h.ended

/-- No completion time stands in a row that is not completed. -/
theorem open_row (h : Dated now r) (hst : r.status ≠ .completed) : r.completedAt = none := by
  cases hc : r.completedAt with
  | none => rfl
  | some t => exact absurd (h.finished.mp (by rw [hc]; rfl)) hst

/-- A statement that keeps the instants and the counter of a row which is not
completed, and moves it to a status that is neither completed nor scheduled. -/
theorem moved {r' : Job} (h : Dated now r) (hst : r.status ≠ .completed)
    (hst' : r'.status ≠ .completed ∧ r'.status ≠ .scheduled) (hatt : r'.attempts = r.attempts)
    (hcreated : r'.createdAt = r.createdAt) (hstarted : r'.startedAt = r.startedAt)
    (hcompleted : r'.completedAt = r.completedAt)
    (hclean : r'.status = .queued → r'.errorMessage = none)
    (hblamed : r'.status = .retrying ∨ r'.status = .deadLetter → r'.errorMessage.isSome) :
    Dated now r' where
  finished := by
    rw [hcompleted, h.open_row hst]
    simp [hst'.1]
  started := by rw [hstarted, hatt]; exact h.started
  waiting hw := absurd hw hst'.2
  clean hc := hclean (hc.resolve_right fun ho => ho.elim hst'.2 hst'.1)
  blamed := hblamed
  created := hcreated ▸ h.created
  begun := by rw [hstarted, hcreated]; exact h.begun
  ended t ht := by
    rw [hcompleted, h.open_row hst] at ht
    cases ht

theorem newRow {reading : Time} {id : String} {p : CreateJobParams}
    (h : JobRepository.newRow now reading id p = some r) : Dated now r := by
  obtain ⟨-, -, -, -, hatt, -, herr, hsched, hstart, hcomp, hcreated⟩ := newRow_fields h
  constructor
  case finished => rcases newRow_status h with ⟨hst, -⟩ | ⟨hst, -⟩ <;> simp [hcomp, hst]
  case started => simp [hstart, hatt]
  case waiting =>
    intro hw
    rcases newRow_status h with ⟨-, t, ht, -⟩ | ⟨hst, -⟩
    · simp [hsched, ht]
    · rw [hst] at hw
      cases hw
  case clean => exact fun _ => herr
  case blamed => rcases newRow_status h with ⟨hst, -⟩ | ⟨hst, -⟩ <;> simp [hst]
  case created => rw [hcreated]
  case begun => simp [hstart]
  case ended => simp [hcomp]

theorem running (h : Dated now r) (hst : r.status ≠ .completed) :
    Dated now ((runningSet now).apply r) where
  finished := by simp [runningSet, h.open_row hst]
  started := by simp [runningSet]
  waiting hw := by cases hw
  clean hc := by simp [runningSet] at hc
  blamed hb := by simp [runningSet] at hb
  created := h.created
  begun t ht := by
    obtain rfl : now = t := by simpa [runningSet] using ht
    exact ⟨h.created, le_refl _⟩
  ended t ht := by simp [runningSet, h.open_row hst] at ht

theorem completed (h : Dated now r) (hatt : 1 ≤ r.attempts) :
    Dated now ((completedSet now).apply r) where
  finished := by simp [completedSet]
  started := h.started
  waiting hw := by cases hw
  clean _ := rfl
  blamed hb := by simp [completedSet] at hb
  created := h.created
  begun := h.begun
  ended t ht := by
    obtain rfl : now = t := by simpa [completedSet] using ht
    obtain ⟨u, hu⟩ := Option.isSome_iff_exists.mp (h.started.mpr hatt)
    exact ⟨u, hu, (h.begun u hu).2⟩

end Dated

theorem dated_step {tr : List Act} {s s' : State} {l : Label} {a : Act} {id : String}
    (ho : Owned tr s) (hacc : Accounted id tr (row s id)) (h : step s l = some (s', a))
    (hle : s.world.clock ≤ s'.world.clock)
    (hd : ∀ r, row s id = some r → Dated s.world.clock r) :
    ∀ r, row s' id = some r → Dated s'.world.clock r := by
  have hstep := step_row h id
  generalize hr : row s id = row₀ at hstep hacc hd
  generalize row s' id = row' at hstep
  intro r' hr'
  refine (show Dated s.world.clock r' from ?_).mono hle
  cases hstep with
  | same ht => exact hd r' hr'
  | created hl hpc hnew =>
    cases hr'
    exact .newRow hnew
  | cancelled hpc hw =>
    cases hr'
    simp only [cancelWhere, Bool.and_eq_true, Bool.or_eq_true, decide_eq_true_eq] at hw
    refine (hd _ rfl).moved ?_ (by simp [cancelSet]) rfl rfl rfl rfl ?_ ?_
    · intro hst
      simp [hst] at hw
    · simp [cancelSet]
    · simp [cancelSet]
  | requeued hpc hw =>
    cases hr'
    simp only [requeueWhere, Bool.and_eq_true, Bool.or_eq_true, decide_eq_true_eq] at hw
    refine (hd _ rfl).moved ?_ (by simp [requeueSet]) rfl rfl rfl rfl (fun _ => rfl) ?_
    · intro hst
      simp [hst] at hw
    · simp [requeueSet]
  | promoted hpc hid hdue =>
    cases hr'
    simp only [isDue, Bool.and_eq_true, decide_eq_true_eq] at hdue
    refine (hd _ rfl).moved ?_ (by simp [promotedSet]) rfl rfl rfl rfl ?_ ?_
    · rw [hdue.1]
      decide
    · exact fun _ => (hd _ rfl).clean (.inr (.inl hdue.1))
    · simp [promotedSet]
  | running hpc hw =>
    cases hr'
    simp only [runningWhere, Bool.and_eq_true, Bool.or_eq_true, decide_eq_true_eq] at hw
    refine (hd _ rfl).running ?_
    intro hst
    simp [hst] at hw
  | completed hpc hid =>
    cases hr'
    have hst := ho.row_running (by rw [hpc]; exact hid) hr
    have hspent := hacc.2
    simp only [Spent, hst] at hspent
    exact (hd _ rfl).completed hspent.1
  | failed hpc hid =>
    cases hr'
    have hst := ho.row_running (by rw [hpc]; exact hid) hr
    refine (hd _ rfl).moved (by rw [hst]; decide) ?_ rfl rfl rfl rfl ?_ (fun _ => rfl) <;>
      simp only [failedSet]
    · constructor <;> split <;> decide
    · split <;> simp

theorem dated_run {tr : List Act} {s : State} (h : Run step Forward State.initial tr s)
    (id : String) : ∀ r, row s id = some r → Dated s.world.clock r := by
  refine h.invariant (I := fun _ s => ∀ r, row s id = some r → Dated s.world.clock r) ?_ ?_
  · intro r hr
    cases hr
  · intro tr s s' l a hrun hd ho hs
    exact dated_step (owned_run hrun) (accounted_run hrun id) hs (clock_le_of_forward ho hs) hd

/-- In every reachable state the columns of a row agree with its status and its
attempts with the `MarkRunning` statements that took effect. -/
theorem row_coherence {tr : List Act} {s : State} (h : Run step Forward State.initial tr s)
    {id : String} {r : Job} (hr : row s id = some r) :
    (r.completedAt.isSome ↔ r.status = .completed) ∧
    (r.startedAt.isSome ↔ 1 ≤ r.attempts) ∧
    r.attempts = starts id tr ∧
    (r.status = .scheduled → r.scheduledAt.isSome ∧ r.attempts = 0) ∧
    (r.status = .retrying →
      r.errorMessage.isSome ∧ 1 ≤ r.attempts ∧ (r.attempts : Int) < r.maxAttempts) ∧
    (r.status = .deadLetter →
      r.errorMessage.isSome ∧ 1 ≤ r.attempts ∧ r.maxAttempts ≤ r.attempts) ∧
    (r.status = .queued ∨ r.status = .scheduled ∨ r.status = .completed →
      r.errorMessage = none) ∧
    (∀ t, r.startedAt = some t → r.createdAt ≤ t) ∧
    (∀ t, r.completedAt = some t → r.createdAt ≤ t ∧ ∀ u, r.startedAt = some u → u ≤ t) := by
  have hd := dated_run h id r hr
  have hacc := accounted_run h id
  rw [hr] at hacc
  obtain ⟨hatt, hspent⟩ := hacc
  refine ⟨hd.finished, hd.started, hatt, ?_, ?_, ?_, hd.clean, ?_, ?_⟩
  · intro hst
    simp only [Spent, hst] at hspent
    exact ⟨hd.waiting hst, hspent.2⟩
  · intro hst
    simp only [Spent, hst] at hspent
    exact ⟨hd.blamed (.inl hst), hspent.2⟩
  · intro hst
    simp only [Spent, hst] at hspent
    have hb := budget_cases r.maxAttempts
    exact ⟨hd.blamed (.inr hst), by omega, by omega⟩
  · exact fun t ht => (hd.begun t ht).1
  · intro t ht
    obtain ⟨u, hu, hle⟩ := hd.ended t ht
    refine ⟨(hd.begun u hu).1.trans hle, fun v hv => ?_⟩
    obtain rfl : u = v := Option.some.inj (hu.symm.trans hv)
    exact hle

/-- A job runs from time 1000 and is completed at time 2000. -/
def completedRun : List Label :=
  [.tick 500, .start 0 (.request (.create ⟨"u1", "default", "send_email", none, 0, 3, none⟩)),
    .run 0 .ok { freshID := "j1" }, .run 0 .ok {},
    .start 1 (.worker ⟨"w1", "host", ["default"]⟩), .run 1 .ok {}, .tick 1000, .run 1 .ok {},
    .run 1 .ok {}, .finish 1 (.ok ()), .tick 2000, .run 1 .ok {}]

theorem completedRun_runs : (execute step State.initial completedRun).isSome := by decide

theorem completedRun_row :
    (row (outcome step State.initial completedRun completedRun_runs).1 "j1").isSome := by decide

theorem row_coherence_completedRun : ∃ tr s r, Run step Forward State.initial tr s ∧
    row s "j1" = some r ∧ r.status = .completed ∧ r.startedAt = some 1000 ∧
    (r.completedAt.isSome ↔ r.status = .completed) :=
  have hrun := Run.of_outcome completedRun_runs (show Admitted step Forward _ _ by decide)
  have hrow := (Option.some_get completedRun_row).symm
  ⟨_, _, _, hrun, hrow, by decide, by decide, (row_coherence hrun hrow).1⟩

end JobFlow.Runs.Coherence
