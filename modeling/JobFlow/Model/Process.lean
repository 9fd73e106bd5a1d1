import JobFlow.Model.Job
import Mathlib.Data.Int.ModEq

/-!
# Program points of the service, the scheduler and the worker

Each goroutine is at one program point. A point either issues one command to a
store and continues according to the reply, or waits. The points of one Go
function stand together, in the order of its statements.
-/

namespace JobFlow.Model

/-- Commands of the repositories, the queue and the publisher, each atomic. -/
inductive Cmd where
  | insertJob (p : CreateJobParams)
  | cancelJob (id userID : String)
  | requeueJob (id userID : String)
  | readyScheduled (limit : Nat)
  | findJob (id : String)
  | markRunning (id : String)
  | markCompleted (id : String)
  | markFailed (id message : String)
  | enqueue (job : Job)
  | enqueueAfter (job : Job) (delay : Int)
  | dueRetries
  | removeRetry (id : String)
  | pop (queue : String)
  | deadLetter (job : Job)
  | incrementProcessed (worker : String) (failed : Bool)
  | heartbeat (worker hostname status : String)
  | publish (event : Event)
  | sleep

inductive Reply where
  | done
  | job (job : Job)
  | jobs (jobs : List Job)
  | affected (rows : Nat)
  | members (ids : List String)
  | popped (id : Option String)
  | err (e : Err)

def Reply.error : Reply → Err
  | .err e => e
  | _ => .unavailable

/-- The store refused or could not run the command. -/
def Reply.commandFailed : Reply → Bool
  | .err e => e.commandFailed
  | _ => false

/-- `int64(x)` for the float `2^k`; out of range the target's conversion
instruction gives the least value. -/
def powToInt64 (k : Nat) : Int := if k < 63 then 2 ^ k else -2 ^ 63

/-- `time.Duration(math.Pow(2, float64(attempts-1))) * time.Second`, in 64 bits. -/
def retryDelay (attempts : Nat) : Int :=
  if attempts = 0 then 0 else (powToInt64 (attempts - 1) * 1000000000).bmod (2 ^ 64)

/-- What an HTTP handler passes to the service. -/
inductive Request where
  | create (input : CreateJobInput)
  | cancel (id userID : String)
  | retry (id userID : String)

/-- What a goroutine is started for. -/
inductive Role where
  | request (r : Request)
  | scheduler
  | worker (w : Pool)
  | heartbeat (w : Pool)

inductive Pc where
  | idle
  | stopped
  | returned (result : Except Err (Option Job))
  -- JobService.Create
  | createInsert (p : CreateJobParams)
  | createEnqueue (job : Job)
  | createPublish (job : Job)
  -- JobService.Cancel
  | cancelUpdate (id userID : String)
  | cancelPublish (id : String)
  -- JobService.Retry
  | retryUpdate (id userID : String)
  | retryEnqueue (job : Job)
  | retryPublish (job : Job)
  -- JobService.PromoteScheduled; `jobs` are still to be enqueued
  | schedulerTick
  | promoteEnqueue (job : Job) (jobs : List Job)
  | promotePublish (job : Job) (jobs : List Job)
  -- RedisQueue.PromoteRetries; `ids` are still to be fetched
  | retriesRange
  | retriesFind (id : String) (ids : List String)
  | retriesEnqueue (job : Job) (id : String) (ids : List String)
  | retriesRemove (id : String) (ids : List String)
  -- Pool.loop and RedisQueue.Dequeue; `queues` are still to be tried
  | dequeue (w : Pool) (queues : List String)
  -- Pool.handle
  | markRunning (w : Pool) (id : String)
  | publishRunning (w : Pool) (job : Job)
  | process (w : Pool) (job : Job)
  | markCompleted (w : Pool) (job : Job)
  | countCompleted (w : Pool) (job : Job)
  | publishCompleted (w : Pool) (job : Job)
  | markFailed (w : Pool) (job : Job) (message : String)
  | countFailed (w : Pool) (failedJob : Job)
  | enqueueAfter (w : Pool) (failedJob : Job)
  | publishRetrying (w : Pool) (failedJob : Job)
  | deadLetter (w : Pool) (failedJob : Job)
  | publishDeadLetter (w : Pool) (failedJob : Job)
  -- Pool.Start
  | heartbeat (w : Pool)
  | offline (w : Pool)

namespace Pc

/-- The first statements of `JobService.Create`: defaults and the type check. -/
def create (input : CreateJobInput) : Pc :=
  if input.jobType = "" then .returned (.error .typeRequired)
  else .createInsert {
    userID := input.userID
    queueName := if input.queue = "" then "default" else input.queue
    jobType := input.jobType
    payload := input.payload.getD (.object [])
    priority := input.priority
    maxAttempts := if input.maxAttempts = 0 then 3 else input.maxAttempts
    scheduledAt := input.scheduledAt }

def request : Request → Pc
  | .create input => create input
  | .cancel id userID => .cancelUpdate id userID
  | .retry id userID => .retryUpdate id userID

/-- `for _, job := range jobs` of `PromoteScheduled`. -/
def promoteNext : List Job → Pc
  | [] => .retriesRange
  | job :: jobs => .promoteEnqueue job jobs

/-- `for _, id := range ids` of `PromoteRetries`. -/
def retryNext : List String → Pc
  | [] => .schedulerTick
  | id :: ids => .retriesFind id ids

/-- `loop` calls `Dequeue` again. -/
def loop (w : Pool) : Pc := .dequeue w w.queues

def entry : Role → Pc
  | .request r => request r
  | .scheduler => .schedulerTick
  | .worker w => loop w
  | .heartbeat w => .heartbeat w

/-- One round of the loop in `Dequeue`; after the last queue it sleeps and starts over. -/
def tryQueue (w : Pool) : List String → Cmd × (Reply → Pc)
  | [] => (.sleep, fun _ => loop w)
  | name :: queues => (.pop name, fun
      | .popped (some id) => .markRunning w id
      | .popped none => .dequeue w queues
      | _ => loop w)

/-- The command a program point issues and the point each reply leads to. -/
def code : Pc → Option (Cmd × (Reply → Pc))
  | .idle | .stopped | .returned _ | .process _ _ => none
  | .createInsert p => some (.insertJob p, fun
      | .job job => if job.status = .queued then .createEnqueue job else .createPublish job
      | r => .returned (.error r.error))
  | .createEnqueue job => some (.enqueue job, fun
      | .done => .createPublish job
      | r => .returned (.error r.error))
  | .createPublish job => some (.publish ⟨"job.created", .job job⟩, fun _ =>
      .returned (.ok (some job)))
  | .cancelUpdate id userID => some (.cancelJob id userID, fun
      | .affected 0 => .returned (.error .noRows)
      | .affected _ => .cancelPublish id
      | r => .returned (.error r.error))
  | .cancelPublish id => some (.publish ⟨"job.cancelled", .id id⟩, fun _ => .returned (.ok none))
  | .retryUpdate id userID => some (.requeueJob id userID, fun
      | .job job => .retryEnqueue job
      | r => .returned (.error r.error))
  | .retryEnqueue job => some (.enqueue job, fun
      | .done => .retryPublish job
      | r => .returned (.error r.error))
  | .retryPublish job => some (.publish ⟨"job.retried", .job job⟩, fun _ =>
      .returned (.ok (some job)))
  | .schedulerTick => some (.readyScheduled 100, fun
      | .jobs jobs => promoteNext jobs
      | _ => .schedulerTick)
  | .promoteEnqueue job jobs => some (.enqueue job, fun
      | .done => .promotePublish job jobs
      | _ => .schedulerTick)
  | .promotePublish job jobs => some (.publish ⟨"job.queued", .job job⟩, fun _ => promoteNext jobs)
  | .retriesRange => some (.dueRetries, fun
      | .members ids => retryNext ids
      | _ => .schedulerTick)
  | .retriesFind id ids => some (.findJob id, fun
      | .job job => .retriesEnqueue job id ids
      | _ => .retriesRemove id ids)
  -- the errors of Enqueue and ZRem are dropped
  | .retriesEnqueue job id ids => some (.enqueue job, fun _ => .retriesRemove id ids)
  | .retriesRemove id ids => some (.removeRetry id, fun _ => retryNext ids)
  | .dequeue w queues => some (tryQueue w queues)
  | .markRunning w id => some (.markRunning id, fun
      | .job job => .publishRunning w job
      | _ => loop w)
  | .publishRunning w job => some (.publish ⟨"job.running", .job job⟩, fun _ => .process w job)
  -- the errors of MarkCompleted and IncrementProcessed are dropped
  | .markCompleted w job => some (.markCompleted job.id, fun _ => .countCompleted w job)
  | .countCompleted w job => some (.incrementProcessed w.id false, fun _ => .publishCompleted w job)
  | .publishCompleted w job => some (.publish ⟨"job.completed", .id job.id⟩, fun _ => loop w)
  | .markFailed w job message => some (.markFailed job.id message, fun
      | .job failedJob => .countFailed w failedJob
      | _ => loop w)
  | .countFailed w failedJob => some (.incrementProcessed w.id true, fun _ =>
      if failedJob.status = .retrying then .enqueueAfter w failedJob else .deadLetter w failedJob)
  -- the errors of EnqueueAfter and DeadLetter are dropped
  | .enqueueAfter w failedJob =>
      some (.enqueueAfter failedJob (retryDelay failedJob.attempts), fun _ =>
        .publishRetrying w failedJob)
  | .publishRetrying w failedJob =>
    some (.publish ⟨"job.retrying", .job failedJob⟩, fun _ => loop w)
  | .deadLetter w failedJob => some (.deadLetter failedJob, fun _ => .publishDeadLetter w failedJob)
  | .publishDeadLetter w failedJob =>
      some (.publish ⟨"job.dead_letter", .job failedJob⟩, fun _ => loop w)
  | .heartbeat w => some (.heartbeat w.id w.hostname "online", fun _ => .heartbeat w)
  | .offline w => some (.heartbeat w.id w.hostname "offline", fun _ => .stopped)

/-- What `Process` leads to in `handle`. -/
def processed (w : Pool) (job : Job) : Except String Unit → Pc
  | .ok () => .markCompleted w job
  | .error message => .markFailed w job message

end Pc

end JobFlow.Model
