import JobFlow.Model.System

/-!
# `JobService.QueueStats` and `JobService.Dashboard`

What the two endpoints read from the stores. A row of `GROUP BY` that is absent
reads as zero, as the Go maps do.
-/

namespace JobFlow.Model

open JobFlow.Model.JobRepository (JobTable)
open JobFlow.Model.RedisQueue (QueueStats)
open JobFlow.Model.WorkerRepository (WorkerTable)

/-- `byStatus[status]` of `JobRepository.Stats`. -/
def JobRepository.countByStatus (t : JobTable) (status : Status) : Nat :=
  t.rows.countP fun r => r.status = status

/-- `byType` of `JobRepository.Stats`: the types that occur, with their counts. -/
def JobRepository.countByType (t : JobTable) : List (String × Nat) :=
  (t.rows.map Job.jobType).dedup.map fun type => (type, t.rows.countP fun r => r.jobType = type)

/-- `model.DashboardStats`. The workers are the rows of their table, by id. -/
structure DashboardStats where
  totalJobs : Nat
  queued : Nat
  running : Nat
  completed : Nat
  failed : Nat
  retrying : Nat
  dlq : Nat
  queues : List QueueStats
  workers : WorkerTable
  byType : List (String × Nat)

namespace JobService

def queueStats (w : World) (queues : List String) : Except Err (List QueueStats) :=
  RedisQueue.stats w.redis queues

def dashboard (w : World) (queues : List String) : Except Err DashboardStats := do
  let stats ← RedisQueue.stats w.redis queues
  let count := JobRepository.countByStatus w.jobs
  return {
    totalJobs := w.jobs.rows.length
    queued := count .queued, running := count .running, completed := count .completed
    failed := count .failed, retrying := count .retrying, dlq := count .deadLetter
    queues := stats, workers := w.workers, byType := JobRepository.countByType w.jobs }

end JobService

namespace RedisQueue

/-- The dead-letter list, empty where the key holds none. -/
def deadLetters (r : Redis) : List String := (r.listAt deadLetterKey).toOption.getD []

theorem llen_deadLetters (r : Redis) :
    (r.llen deadLetterKey).toOption.getD 0 = (deadLetters r).length := by
  unfold Redis.llen deadLetters
  cases r.listAt deadLetterKey <;> rfl

theorem deadLetters_ok {r : Redis} {items : List String}
    (h : r.listAt deadLetterKey = .ok items) : deadLetters r = items := by
  rw [deadLetters, h]
  rfl

/-- Under any key but one with a list there are no dead letters. -/
theorem deadLetters_eq_nil {r : Redis} (h : ∀ items, r deadLetterKey ≠ some (.list items)) :
    deadLetters r = [] := by
  unfold deadLetters Redis.listAt
  split
  · rfl
  · next items hl => exact absurd hl (h items)
  · rfl

theorem stats_cons (r : Redis) (name : String) (queues : List String) :
    RedisQueue.stats r (name :: queues) = do
      let waiting ← r.zcard (queueKey name)
      let rest ← RedisQueue.stats r queues
      return ⟨name, waiting, (deadLetters r).length⟩ :: rest := by
  simp only [RedisQueue.stats, llen_deadLetters, List.mapM_cons]
  cases r.zcard (queueKey name) <;> rfl

/-- Each queue that was asked about is reported in its turn, with the number of its
entries and with the length of the dead-letter list. -/
theorem stats_ok {r : Redis} {queues : List String} {stats : List QueueStats}
    (h : RedisQueue.stats r queues = .ok stats) : ∀ q ∈ stats,
      r.zcard (queueKey q.name) = .ok q.waiting ∧ q.dlq = (deadLetters r).length := by
  induction queues generalizing stats with
  | nil =>
    cases h
    intro q hq
    cases hq
  | cons name queues ih =>
    rw [stats_cons] at h
    cases hz : r.zcard (queueKey name) with
    | error x =>
      rw [hz] at h
      cases h
    | ok waiting =>
      cases hrest : RedisQueue.stats r queues with
      | error x =>
        rw [hz, hrest] at h
        cases h
      | ok rest =>
        rw [hz, hrest] at h
        cases h
        intro q hq
        rcases List.mem_cons.mp hq with rfl | hq
        · exact ⟨hz, rfl⟩
        · exact ih hrest q hq

end RedisQueue

/-- The dashboard shows the counts of the table beside what `Stats` reports. -/
theorem JobService.dashboard_ok {w : World} {queues : List String} {d : DashboardStats}
    (h : dashboard w queues = .ok d) :
    queueStats w queues = .ok d.queues ∧ d.dlq = JobRepository.countByStatus w.jobs .deadLetter := by
  unfold dashboard at h
  cases hs : RedisQueue.stats w.redis queues with
  | error x =>
    rw [hs] at h
    cases h
  | ok stats =>
    rw [hs] at h
    cases h
    exact ⟨hs, rfl⟩

end JobFlow.Model
