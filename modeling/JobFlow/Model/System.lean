import JobFlow.Lib.Transition
import JobFlow.Model.JobRepository
import JobFlow.Model.Process
import JobFlow.Model.RedisQueue
import JobFlow.Model.WorkerRepository

/-!
# API processes, schedulers and workers over the two stores

Any number of goroutines interleave at the granularity of one command. A
command may succeed, fail without effect, or take effect while its caller sees
an error; a goroutine may stop anywhere. What the environment chooses (clock
readings, fresh ids, the order of unordered rows, the outcome of a job) is part
of the label of the step.
-/

namespace JobFlow.Model

open JobFlow.Model.JobRepository (JobTable)
open JobFlow.Model.WorkerRepository (WorkerTable)

structure World where
  jobs : JobTable
  redis : Redis
  workers : WorkerTable
  /-- Messages on the events channel, oldest first. -/
  events : List Event
  /-- The clock `NOW()` reads. -/
  clock : Time

/-- The choices of the environment in one command. -/
structure Env where
  /-- What `time.Now()` returned to the caller. -/
  reading : Time := 0
  /-- `gen_random_uuid()`. -/
  freshID : String := ""
  /-- The rows the inner select of `ReadyScheduled` picks, as returned. -/
  batch : List String := []

/-- How a command ends for its caller. -/
inductive Mode where
  | ok
  | lost
  | failed
  deriving DecidableEq

def ofRow : Except Err Job → Reply
  | .ok job => .job job
  | .error e => .err e

def onJobs (w : World) (x : JobTable × Reply) : World × Reply := ({ w with jobs := x.1 }, x.2)

def onRedis (w : World) : Except Err Redis → World × Reply
  | .ok r => ({ w with redis := r }, .done)
  | .error e => (w, .err e)

def onWorkers (w : World) : Except Err WorkerTable → World × Reply
  | .ok t => ({ w with workers := t }, .done)
  | .error e => (w, .err e)

/-- The effect of a command that reaches its store; `none` when the choice of
the environment is not one SQL allows. -/
def exec (w : World) (e : Env) : Cmd → Option (World × Reply)
  | .insertJob p =>
    let (t, r) := JobRepository.create w.jobs w.clock e.reading e.freshID p
    some (onJobs w (t, ofRow r))
  | .cancelJob id userID =>
    let (t, n) := JobRepository.cancel w.jobs w.clock id userID
    some (onJobs w (t, .affected n))
  | .requeueJob id userID =>
    let (t, r) := JobRepository.requeue w.jobs w.clock id userID
    some (onJobs w (t, ofRow r))
  | .readyScheduled limit =>
    (JobRepository.readyScheduled w.jobs w.clock limit e.batch).map fun (t, rows) =>
      onJobs w (t, .jobs rows)
  | .findJob id => some (w, ofRow (JobRepository.findJob w.jobs id))
  | .markRunning id =>
    let (t, r) := JobRepository.markRunning w.jobs w.clock id
    some (onJobs w (t, ofRow r))
  | .markCompleted id =>
    let (t, n) := JobRepository.markCompleted w.jobs w.clock id
    some (onJobs w (t, .affected n))
  | .markFailed id message =>
    let (t, r) := JobRepository.markFailed w.jobs w.clock id message
    some (onJobs w (t, ofRow r))
  | .enqueue job => some (onRedis w (RedisQueue.enqueue w.redis e.reading job))
  | .enqueueAfter job delay =>
    some (onRedis w (RedisQueue.enqueueAfter w.redis e.reading job delay))
  | .dueRetries =>
    some (w, match RedisQueue.dueRetries w.redis e.reading with
      | .ok ids => .members ids
      | .error x => .err x)
  | .removeRetry id => some (onRedis w (RedisQueue.removeRetry w.redis id))
  | .pop name =>
    some (match RedisQueue.pop w.redis name with
      | .ok (r, popped) => ({ w with redis := r }, .popped popped)
      | .error x => (w, .err x))
  | .deadLetter job => some (onRedis w (RedisQueue.deadLetter w.redis job))
  | .incrementProcessed worker failed =>
    some (onWorkers w (WorkerRepository.incrementProcessed w.workers w.clock worker failed))
  | .heartbeat worker hostname status =>
    some (onWorkers w (WorkerRepository.heartbeat w.workers w.clock worker hostname status))
  | .publish event => some ({ w with events := w.events ++ [event] }, .done)
  | .sleep => some (w, .done)

/-- One command of one goroutine: the world after it, the program point its
caller continues at, and the reply the store gave. -/
def advance (w : World) (pc : Pc) (m : Mode) (e : Env) : Option (World × Pc × Reply) :=
  match pc.code with
  | none => none
  | some (cmd, next) =>
    match m with
    | .ok => (exec w e cmd).map fun (w', r) => (w', next r, r)
    | .lost => (exec w e cmd).map fun (w', r) => (w', next (.err .unavailable), r)
    | .failed => some (w, next (.err .unavailable), .err .unavailable)

abbrev Pid := Nat

structure State where
  world : World
  procs : Pid → Pc

def World.initial : World where
  jobs := .empty
  redis := .empty
  workers := fun _ => none
  events := []
  clock := 0

/-- Empty stores and no goroutine started. -/
def State.initial : State := ⟨.initial, fun _ => .idle⟩

inductive Label where
  | tick (now : Time)
  | start (p : Pid) (role : Role)
  | signal (p : Pid)
  | crash (p : Pid)
  | finish (p : Pid) (outcome : Except String Unit)
  | run (p : Pid) (m : Mode) (e : Env)

/-- What a step did, for the history of a run. The job statements are recorded
when they take effect, whether or not their caller learns of it. -/
inductive Act where
  | silent
  | created (id : String)
  | cancelled (id : String)
  | requeued (id : String)
  | promoted (ids : List String)
  | markedRunning (p : Pid) (id : String) (now : Time)
  | processStarted (p : Pid) (id : String)
  | processReturned (p : Pid) (id : String) (success : Bool)
  | markedCompleted (p : Pid) (id : String)
  | markedFailed (p : Pid) (id : String) (status : Status) (attempts : Nat) (now : Time)
  deriving DecidableEq

/-- The record of a command at a program point, from the reply of the store. -/
def observe (p : Pid) (pc : Pc) (now : Time) (r : Reply) : Act :=
  match pc, r with
  | .createInsert _, .job job => .created job.id
  | .cancelUpdate id _, .affected (_ + 1) => .cancelled id
  | .retryUpdate _ _, .job job => .requeued job.id
  | .schedulerTick, .jobs jobs => .promoted (jobs.map Job.id)
  | .markRunning _ _, .job job => .markedRunning p job.id now
  | .publishRunning _ job, _ => .processStarted p job.id
  | .markCompleted _ job, .affected (_ + 1) => .markedCompleted p job.id
  | .markFailed _ _ _, .job job => .markedFailed p job.id job.status job.attempts now
  | _, _ => .silent

def State.moveTo (s : State) (p : Pid) (pc : Pc) : State :=
  { s with procs := Function.update s.procs p pc }

def step : Lib.Transition.Machine State Label Act := fun s l =>
  match l with
  | .tick now => some ({ s with world := { s.world with clock := now } }, .silent)
  | .start p role =>
    match s.procs p with
    | .idle => some (s.moveTo p (Pc.entry role), .silent)
    | _ => none
  | .signal p =>
    match s.procs p with
    | .heartbeat w => some (s.moveTo p (.offline w), .silent)
    | _ => none
  | .crash p => some (s.moveTo p .stopped, .silent)
  | .finish p outcome =>
    match s.procs p with
    | .process w job => some (s.moveTo p (Pc.processed w job outcome),
        .processReturned p job.id outcome.isOk)
    | _ => none
  | .run p m e =>
    (advance s.world (s.procs p) m e).map fun (w, pc, r) =>
      (⟨w, Function.update s.procs p pc⟩, observe p (s.procs p) s.world.clock r)

end JobFlow.Model
