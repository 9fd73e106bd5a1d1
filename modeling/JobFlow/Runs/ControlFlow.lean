import JobFlow.Model.Process

/-!
# The control flow of a goroutine

`Follows` lists, once, every command a program point can issue, every kind of
reply and the point it leads to. What a goroutine may do next is read off from it
and never from the code function itself.
-/

namespace JobFlow.Runs.ControlFlow

open JobFlow.Model

/-- Where a goroutine starts. -/
inductive EntryPoint : Pc → Prop
  | returned (result : Except Err (Option Job)) : EntryPoint (.returned result)
  | createInsert (params : CreateJobParams) : EntryPoint (.createInsert params)
  | cancelUpdate (id userID : String) : EntryPoint (.cancelUpdate id userID)
  | retryUpdate (id userID : String) : EntryPoint (.retryUpdate id userID)
  | schedulerTick : EntryPoint .schedulerTick
  | dequeue (w : Pool) : EntryPoint (.dequeue w w.queues)
  | heartbeat (w : Pool) : EntryPoint (.heartbeat w)

theorem entry_point (role : Role) : EntryPoint (Pc.entry role) := by
  cases role with
  | request r =>
    cases r with
    | create input =>
      simp only [Pc.entry, Pc.request, Pc.create]
      split
      · exact .returned _
      · exact .createInsert _
    | cancel id userID => exact .cancelUpdate id userID
    | retry id userID => exact .retryUpdate id userID
  | scheduler => exact .schedulerTick
  | worker w => exact .dequeue w
  | heartbeat w => exact .heartbeat w

/-- At the first point the command is issued, and the reply leads to the second. The
cases stand in the order of the points; of one point the reply that goes on comes
first and the one that gives up last. -/
inductive Follows : Pc → Cmd → Reply → Pc → Prop
  | inserted {p : CreateJobParams} {job : Job} (hst : job.status = .queued) :
      Follows (.createInsert p) (.insertJob p) (.job job) (.createEnqueue job)
  | insertedLater {p : CreateJobParams} {job : Job} (hst : job.status ≠ .queued) :
      Follows (.createInsert p) (.insertJob p) (.job job) (.createPublish job)
  | insertFailed {p : CreateJobParams} {r : Reply} (hr : ∀ job, r ≠ .job job) :
      Follows (.createInsert p) (.insertJob p) r (.returned (.error r.error))
  | createEnqueued {job : Job} :
      Follows (.createEnqueue job) (.enqueue job) .done (.createPublish job)
  | createEnqueueFailed {job : Job} {r : Reply} (hr : r ≠ .done) :
      Follows (.createEnqueue job) (.enqueue job) r (.returned (.error r.error))
  | createPublished {job : Job} {event : Event} {r : Reply} :
      Follows (.createPublish job) (.publish event) r (.returned (.ok (some job)))
  | cancelUpdated {id userID : String} {rows : Nat} :
      Follows (.cancelUpdate id userID) (.cancelJob id userID) (.affected (rows + 1))
        (.cancelPublish id)
  | cancelFailed {id userID : String} {r : Reply} {x : Err}
      (hr : ∀ rows, r ≠ .affected (rows + 1)) :
      Follows (.cancelUpdate id userID) (.cancelJob id userID) r (.returned (.error x))
  | cancelPublished {id : String} {event : Event} {r : Reply} :
      Follows (.cancelPublish id) (.publish event) r (.returned (.ok none))
  | retryUpdated {id userID : String} {job : Job} :
      Follows (.retryUpdate id userID) (.requeueJob id userID) (.job job) (.retryEnqueue job)
  | retryFailed {id userID : String} {r : Reply} (hr : ∀ job, r ≠ .job job) :
      Follows (.retryUpdate id userID) (.requeueJob id userID) r (.returned (.error r.error))
  | retryEnqueued {job : Job} : Follows (.retryEnqueue job) (.enqueue job) .done (.retryPublish job)
  | retryEnqueueFailed {job : Job} {r : Reply} (hr : r ≠ .done) :
      Follows (.retryEnqueue job) (.enqueue job) r (.returned (.error r.error))
  | retryPublished {job : Job} {event : Event} {r : Reply} :
      Follows (.retryPublish job) (.publish event) r (.returned (.ok (some job)))
  | ready {limit : Nat} {job : Job} {jobs : List Job} :
      Follows .schedulerTick (.readyScheduled limit) (.jobs (job :: jobs))
        (.promoteEnqueue job jobs)
  | noneReady {limit : Nat} :
      Follows .schedulerTick (.readyScheduled limit) (.jobs []) .retriesRange
  | readyFailed {limit : Nat} {r : Reply} (hr : ∀ jobs, r ≠ .jobs jobs) :
      Follows .schedulerTick (.readyScheduled limit) r .schedulerTick
  | promoteEnqueued {job : Job} {jobs : List Job} :
      Follows (.promoteEnqueue job jobs) (.enqueue job) .done (.promotePublish job jobs)
  | promoteFailed {job : Job} {jobs : List Job} {r : Reply} (hr : r ≠ .done) :
      Follows (.promoteEnqueue job jobs) (.enqueue job) r .schedulerTick
  | promotePublished {job job' : Job} {jobs : List Job} {event : Event} {r : Reply} :
      Follows (.promotePublish job (job' :: jobs)) (.publish event) r (.promoteEnqueue job' jobs)
  | promotedLast {job : Job} {event : Event} {r : Reply} :
      Follows (.promotePublish job []) (.publish event) r .retriesRange
  | due {id : String} {ids : List String} :
      Follows .retriesRange .dueRetries (.members (id :: ids)) (.retriesFind id ids)
  | noneDue : Follows .retriesRange .dueRetries (.members []) .schedulerTick
  | rangeFailed {r : Reply} (hr : ∀ ids, r ≠ .members ids) :
      Follows .retriesRange .dueRetries r .schedulerTick
  | found {id : String} {ids : List String} {job : Job} :
      Follows (.retriesFind id ids) (.findJob id) (.job job) (.retriesEnqueue job id ids)
  | notFound {id : String} {ids : List String} {r : Reply} (hr : ∀ job, r ≠ .job job) :
      Follows (.retriesFind id ids) (.findJob id) r (.retriesRemove id ids)
  | retriesEnqueued {job : Job} {id : String} {ids : List String} {r : Reply} :
      Follows (.retriesEnqueue job id ids) (.enqueue job) r (.retriesRemove id ids)
  | removed {id id' : String} {ids : List String} {r : Reply} :
      Follows (.retriesRemove id (id' :: ids)) (.removeRetry id) r (.retriesFind id' ids)
  | removedLast {id : String} {r : Reply} :
      Follows (.retriesRemove id []) (.removeRetry id) r .schedulerTick
  | popped {w : Pool} {name id : String} {queues : List String} :
      Follows (.dequeue w (name :: queues)) (.pop name) (.popped (some id)) (.markRunning w id)
  | empty {w : Pool} {name : String} {queues : List String} :
      Follows (.dequeue w (name :: queues)) (.pop name) (.popped none) (.dequeue w queues)
  | popFailed {w : Pool} {name : String} {queues : List String} {r : Reply}
      (hr : ∀ id, r ≠ .popped id) :
      Follows (.dequeue w (name :: queues)) (.pop name) r (.dequeue w w.queues)
  | slept {w : Pool} {r : Reply} : Follows (.dequeue w []) .sleep r (.dequeue w w.queues)
  | started {w : Pool} {id : String} {job : Job} :
      Follows (.markRunning w id) (.markRunning id) (.job job) (.publishRunning w job)
  | notStarted {w : Pool} {id : String} {r : Reply} (hr : ∀ job, r ≠ .job job) :
      Follows (.markRunning w id) (.markRunning id) r (.dequeue w w.queues)
  | runningPublished {w : Pool} {job : Job} {event : Event} {r : Reply} :
      Follows (.publishRunning w job) (.publish event) r (.process w job)
  | completed {w : Pool} {job : Job} {r : Reply} :
      Follows (.markCompleted w job) (.markCompleted job.id) r (.countCompleted w job)
  | completedCounted {w : Pool} {job : Job} {r : Reply} :
      Follows (.countCompleted w job) (.incrementProcessed w.id false) r (.publishCompleted w job)
  | completedPublished {w : Pool} {job : Job} {event : Event} {r : Reply} :
      Follows (.publishCompleted w job) (.publish event) r (.dequeue w w.queues)
  | failed {w : Pool} {job failedJob : Job} {message : String} :
      Follows (.markFailed w job message) (.markFailed job.id message) (.job failedJob)
        (.countFailed w failedJob)
  | notFailed {w : Pool} {job : Job} {message : String} {r : Reply} (hr : ∀ job, r ≠ .job job) :
      Follows (.markFailed w job message) (.markFailed job.id message) r (.dequeue w w.queues)
  | failedCounted {w : Pool} {failedJob : Job} {r : Reply} (hst : failedJob.status = .retrying) :
      Follows (.countFailed w failedJob) (.incrementProcessed w.id true) r
        (.enqueueAfter w failedJob)
  | lastCounted {w : Pool} {failedJob : Job} {r : Reply} (hst : failedJob.status ≠ .retrying) :
      Follows (.countFailed w failedJob) (.incrementProcessed w.id true) r (.deadLetter w failedJob)
  | delayed {w : Pool} {failedJob : Job} {r : Reply} :
      Follows (.enqueueAfter w failedJob)
        (.enqueueAfter failedJob (retryDelay failedJob.attempts)) r (.publishRetrying w failedJob)
  | retryingPublished {w : Pool} {failedJob : Job} {event : Event} {r : Reply} :
      Follows (.publishRetrying w failedJob) (.publish event) r (.dequeue w w.queues)
  | deadLettered {w : Pool} {failedJob : Job} {r : Reply} :
      Follows (.deadLetter w failedJob) (.deadLetter failedJob) r (.publishDeadLetter w failedJob)
  | deadLetterPublished {w : Pool} {failedJob : Job} {event : Event} {r : Reply} :
      Follows (.publishDeadLetter w failedJob) (.publish event) r (.dequeue w w.queues)
  | beat {w : Pool} {r : Reply} :
      Follows (.heartbeat w) (.heartbeat w.id w.hostname "online") r (.heartbeat w)
  | offline {w : Pool} {r : Reply} :
      Follows (.offline w) (.heartbeat w.id w.hostname "offline") r .stopped

theorem follows {pc : Pc} {cmd : Cmd} {next : Reply → Pc} (hc : pc.code = some (cmd, next))
    (r : Reply) : Follows pc cmd r (next r) := by
  cases pc <;> simp only [Pc.code, Option.some.injEq, Prod.mk.injEq, reduceCtorEq] at hc
  case dequeue w queues =>
    cases queues <;> simp only [Pc.tryQueue, Prod.mk.injEq] at hc <;> obtain ⟨rfl, rfl⟩ := hc
    · exact .slept
    · dsimp only
      split
      · exact .popped
      · exact .empty
      · next hsome hnone =>
        refine .popFailed fun id hr => ?_
        cases id with
        | none => exact hnone hr
        | some id => exact hsome id hr
  all_goals
    obtain ⟨rfl, rfl⟩ := hc
    dsimp only
  case createInsert p =>
    split
    · split
      · next hst => exact .inserted hst
      · next hst => exact .insertedLater hst
    · next hr => exact .insertFailed hr
  case cancelUpdate id userID =>
    split
    · exact .cancelFailed (by simp)
    · next rows hrows =>
      cases rows with
      | zero => exact absurd rfl hrows
      | succ rows => exact .cancelUpdated
    · next hr => exact .cancelFailed fun rows => hr (rows + 1)
  case schedulerTick =>
    split
    · next jobs => cases jobs <;> constructor
    · next hr => exact .readyFailed hr
  case promotePublish job jobs => cases jobs <;> constructor
  case retriesRange =>
    split
    · next ids => cases ids <;> constructor
    · next hr => exact .rangeFailed hr
  case retriesFind id ids =>
    split
    · exact .found
    · next hr => exact .notFound hr
  case retriesRemove id ids => cases ids <;> constructor
  case countFailed w failedJob =>
    split
    · next hst => exact .failedCounted hst
    · next hst => exact .lastCounted hst
  case createEnqueue | retryUpdate | retryEnqueue | promoteEnqueue | markRunning | markFailed =>
    split <;> constructor
    assumption
  all_goals constructor

end JobFlow.Runs.ControlFlow
