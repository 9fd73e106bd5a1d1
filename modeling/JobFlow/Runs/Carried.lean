import JobFlow.Runs.Steps

/-!
# The jobs goroutines carry are rows of the table

A goroutine works on the copy of a row that a statement once returned to it.
The copy may show an old status, but the row is still there, and the columns
that no statement writes are the same. This holds in every run.
-/

namespace JobFlow.Runs.Carried

open JobFlow.Model
open JobFlow.Model.JobRepository
open JobFlow.Lib.Transition
open ControlFlow Steps

/-- The jobs a program point still uses. -/
def carries : Pc → List Job
  | .createEnqueue job | .createPublish job | .retryEnqueue job | .retryPublish job
  | .retriesEnqueue job _ _ | .publishRunning _ job | .process _ job | .markCompleted _ job
  | .countCompleted _ job | .publishCompleted _ job | .markFailed _ job _ | .countFailed _ job
  | .enqueueAfter _ job | .publishRetrying _ job | .deadLetter _ job
  | .publishDeadLetter _ job => [job]
  | .promoteEnqueue job jobs | .promotePublish job jobs => job :: jobs
  | _ => []

def Reply.rows : Reply → List Job
  | .job job => [job]
  | .jobs jobs => jobs
  | _ => []

theorem carries_entry {pc : Pc} (h : EntryPoint pc) : carries pc = [] := by
  cases h <;> rfl

/-- A job is carried on from the point before or comes with the reply. -/
theorem carries_next {pc pc' : Pc} {cmd : Cmd} {r : Reply} (hf : Follows pc cmd r pc') :
    ∀ job ∈ carries pc', job ∈ carries pc ∨ job ∈ Reply.rows r := by
  intro job hj
  cases hf <;> simp_all [carries, Reply.rows]

/-- A goroutine enqueues a job it carries. -/
theorem carries_enqueue {pc pc' : Pc} {job : Job} {r : Reply}
    (hf : Follows pc (.enqueue job) r pc') : job ∈ carries pc := by
  cases hf <;> exact List.mem_cons_self

theorem rows_onRedis (w : World) (x : Except Err Redis) : Reply.rows (onRedis w x).2 = [] := by
  cases x <;> rfl

theorem rows_onWorkers (w : World) (x : Except Err WorkerRepository.WorkerTable) :
    Reply.rows (onWorkers w x).2 = [] := by
  cases x <;> rfl

/-- Every row a statement returns is the row of the table after the statement. -/
theorem exec_rows {w w' : World} {e : Env} {cmd : Cmd} {r : Reply}
    (h : exec w e cmd = some (w', r)) : ∀ job ∈ Reply.rows r, w'.jobs.find job.id = some job := by
  have hone : ∀ {matching : Job → Bool} {set : JobTable.Assignment} (id : String),
      (∀ r, matching r → r.id = id) → ∀ job ∈ Reply.rows
        (ofRow (scanRow (w.jobs.update matching set).2)),
        (w.jobs.update matching set).1.find job.id = some job := by
    intro matching set id hm job hj
    rcases JobTable.update_one w.jobs set hm with ⟨r, hr, -, hret, hfind⟩ | ⟨-, hret, -⟩ <;>
      rw [hret] at hj
    · obtain rfl : job = set.apply r := by simpa [scanRow, ofRow, Reply.rows] using hj
      rw [hfind, if_pos ((set.keepsID r).trans (JobTable.find_id hr))]
    · cases hj
  intro job hj
  cases cmd <;> simp only [exec, Option.some.injEq] at h
  case insertJob p =>
    obtain ⟨rfl, rfl⟩ := Prod.mk.inj h
    rcases create_cases w.jobs w.clock e.reading e.freshID p with
      ⟨row, hrow, -, hok, hfind⟩ | herr
    · simp only [hok, ofRow, Reply.rows, List.mem_singleton] at hj
      subst hj
      simp only [hfind, (newRow_fields hrow).1, if_true]
    · simp [herr, ofRow, Reply.rows] at hj
  case readyScheduled limit =>
    obtain ⟨⟨t, rows⟩, hready, heq⟩ := Option.map_eq_some_iff.mp h
    obtain ⟨rfl, rfl⟩ := Prod.mk.inj heq
    unfold readyScheduled at hready
    split at hready <;> cases hready
    obtain ⟨id, -, hid⟩ := List.mem_filterMap.mp hj
    rwa [JobTable.find_id hid]
  case requeueJob id userID =>
    obtain ⟨rfl, rfl⟩ := Prod.mk.inj h
    exact hone id (by simp [requeueWhere]; tauto) job hj
  case markRunning id =>
    obtain ⟨rfl, rfl⟩ := Prod.mk.inj h
    exact hone id (by simp [runningWhere]; tauto) job hj
  case markFailed id message =>
    obtain ⟨rfl, rfl⟩ := Prod.mk.inj h
    exact hone id (by simp) job hj
  case findJob id =>
    obtain ⟨rfl, rfl⟩ := Prod.mk.inj h
    cases hf : w.jobs.find id with
    | none => simp [findJob, hf, scanRow, ofRow, Reply.rows] at hj
    | some row =>
      obtain rfl : job = row := by simpa [findJob, hf, scanRow, ofRow, Reply.rows] using hj
      rwa [JobTable.find_id hf]
  case pop name => split at h <;> cases h <;> cases hj
  case dueRetries =>
    obtain ⟨-, rfl⟩ := Prod.mk.inj h
    split at hj <;> cases hj
  case incrementProcessed | heartbeat =>
    rw [show r = _ from (congrArg Prod.snd h).symm, rows_onWorkers] at hj
    cases hj
  case cancelJob | markCompleted | publish | sleep =>
    obtain ⟨-, rfl⟩ := Prod.mk.inj h
    cases hj
  case enqueue | enqueueAfter | removeRetry | deadLetter =>
    rw [show r = _ from (congrArg Prod.snd h).symm, rows_onRedis] at hj
    cases hj

/-- `FindJob` returns the row of its id, or reports that there is none. -/
theorem exec_findJob {w w' : World} {e : Env} {id : String} {r : Reply}
    (h : exec w e (.findJob id) = some (w', r)) :
    (∃ job, r = .job job ∧ w.jobs.find id = some job ∧ job.id = id) ∨
    (r = .err .noRows ∧ w.jobs.find id = none) := by
  obtain ⟨-, rfl⟩ := Prod.mk.inj (Option.some.inj h)
  cases hf : w.jobs.find id with
  | none => exact .inr ⟨by simp [findJob, hf, scanRow, ofRow], rfl⟩
  | some job => exact .inl ⟨job, by simp [findJob, hf, scanRow, ofRow], rfl, JobTable.find_id hf⟩

/-- A `MarkCompleted` of a job that has a row completes it. -/
theorem exec_markCompleted_reply {w w' : World} {e : Env} {id : String} {r : Reply} {row : Job}
    (hrow : w.jobs.find id = some row)
    (h : exec w e (.markCompleted id) = some (w', r)) : r = .affected 1 := by
  simp only [exec, markCompleted, Option.some.injEq] at h
  obtain ⟨-, rfl⟩ := Prod.mk.inj h
  have hm : ∀ r : Job, decide (r.id = id) → r.id = id := fun _ h => of_decide_eq_true h
  rcases JobTable.update_one w.jobs (completedSet w.clock) hm with ⟨_, -, -, hret, -⟩ | ⟨hno, -⟩
  · simp [hret]
  · exact absurd (by simpa using JobTable.find_id hrow) (hno row hrow)

/-- What every goroutine carries is a row, up to the columns statements write. -/
def CarriesRows (s : State) : Prop :=
  ∀ p, ∀ job ∈ carries (s.procs p), ∃ r, row s job.id = some r ∧ SameJob r job

theorem rows_heard {m : Mode} {r : Reply} {job : Job} (h : job ∈ Reply.rows (heard m r)) :
    job ∈ Reply.rows r := by
  cases m
  · exact h
  · cases h
  · cases h

theorem carried_step {s s' : State} {l : Label} {a : Act} (hc : CarriesRows s)
    (h : step s l = some (s', a)) : CarriesRows s' := by
  intro p job hj
  have hold : job ∈ carries (s.procs p) → ∃ r, row s' job.id = some r ∧ SameJob r job := by
    intro hmem
    obtain ⟨r, hr, hsame⟩ := hc p job hmem
    obtain ⟨r', hr', hsame'⟩ := step_sameJob h hr
    exact ⟨r', hr', hsame'.symm.trans hsame⟩
  have hm := step_moves h p
  generalize s'.procs p = pc at hm hj
  cases hm with
  | stays ha => exact hold hj
  | starts => simp [carries_entry (entry_point _)] at hj
  | crashes | stops => cases hj
  | @finishes w job' outcome hl hpc ha =>
    rw [hpc] at hold
    cases outcome <;> exact hold hj
  | runs hl hran =>
    rcases carries_next (follows hran.code _) job hj with hmem | hmem
    · exact hold hmem
    · rcases hran.effect with ⟨-, hx⟩ | ⟨rfl, -, rfl⟩
      · exact ⟨job, exec_rows hx job (rows_heard hmem), .refl job⟩
      · cases hmem

theorem carried_run {ok : State → Label → Prop} {tr : List Act} {s : State}
    (h : Run step ok State.initial tr s) : CarriesRows s :=
  h.invariant (I := fun _ s => CarriesRows s) (fun _ _ hj => by cases hj)
    fun _ hc _ hs => carried_step hc hs

end JobFlow.Runs.Carried
