import JobFlow.Model.System

/-!
# No step looks at a payload

Blotting out the payloads of one user's jobs commutes with every step of the system: the
stores, the program points and the commands carry payloads along and decide nothing by
them. So two runs of the same operations differ in no more than what their requests
differed in.
-/

namespace JobFlow.Runs.Payloads

open JobFlow.Model
open JobFlow.Model.JobRepository (JobTable)

/-- The payload as seen with those of `u` blotted out. -/
def blot (u : String) (owner : Option String) (payload : Json) : Json :=
  if owner = some u then .null else payload

def blotJob (u : String) (job : Job) : Job :=
  { job with payload := blot u job.userID job.payload }

def blotParams (u : String) (p : CreateJobParams) : CreateJobParams :=
  { p with payload := blot u (some p.userID) p.payload }

/-- A payload that is missing or not valid is read as an empty object. -/
def blotInput (u : String) (input : CreateJobInput) : CreateJobInput :=
  { input with payload := some (blot u (some input.userID) (input.payload.getD (.object []))) }

def blotEvent (u : String) (e : Event) : Event where
  event := e.event
  data := match e.data with
    | .job job => .job (blotJob u job)
    | .id id => .id id

def blotTable (u : String) (t : JobTable) : JobTable where
  rows := t.rows.map (blotJob u)
  key := by
    rw [List.map_map]
    exact t.key

def blotCmd (u : String) : Cmd → Cmd
  | .insertJob p => .insertJob (blotParams u p)
  | .enqueue job => .enqueue (blotJob u job)
  | .enqueueAfter job delay => .enqueueAfter (blotJob u job) delay
  | .deadLetter job => .deadLetter (blotJob u job)
  | .publish event => .publish (blotEvent u event)
  | cmd => cmd

def blotReply (u : String) : Reply → Reply
  | .job job => .job (blotJob u job)
  | .jobs jobs => .jobs (jobs.map (blotJob u))
  | r => r

def blotRole (u : String) : Role → Role
  | .request (.create input) => .request (.create (blotInput u input))
  | role => role

def blotPc (u : String) : Pc → Pc
  | .returned result => .returned (result.map fun job => job.map (blotJob u))
  | .createInsert p => .createInsert (blotParams u p)
  | .createEnqueue job => .createEnqueue (blotJob u job)
  | .createPublish job => .createPublish (blotJob u job)
  | .retryEnqueue job => .retryEnqueue (blotJob u job)
  | .retryPublish job => .retryPublish (blotJob u job)
  | .promoteEnqueue job jobs => .promoteEnqueue (blotJob u job) (jobs.map (blotJob u))
  | .promotePublish job jobs => .promotePublish (blotJob u job) (jobs.map (blotJob u))
  | .retriesEnqueue job id ids => .retriesEnqueue (blotJob u job) id ids
  | .publishRunning w job => .publishRunning w (blotJob u job)
  | .process w job => .process w (blotJob u job)
  | .markCompleted w job => .markCompleted w (blotJob u job)
  | .countCompleted w job => .countCompleted w (blotJob u job)
  | .publishCompleted w job => .publishCompleted w (blotJob u job)
  | .markFailed w job message => .markFailed w (blotJob u job) message
  | .countFailed w job => .countFailed w (blotJob u job)
  | .enqueueAfter w job => .enqueueAfter w (blotJob u job)
  | .publishRetrying w job => .publishRetrying w (blotJob u job)
  | .deadLetter w job => .deadLetter w (blotJob u job)
  | .publishDeadLetter w job => .publishDeadLetter w (blotJob u job)
  | pc => pc

def blotWorld (u : String) (w : World) : World :=
  { w with jobs := blotTable u w.jobs, events := w.events.map (blotEvent u) }

def blotState (u : String) (s : State) : State where
  world := blotWorld u s.world
  procs p := blotPc u (s.procs p)

def blotLabel (u : String) : Label → Label
  | .start p role => .start p (blotRole u role)
  | l => l

variable (u : String)

@[simp] theorem blotJob_id (job : Job) : (blotJob u job).id = job.id := rfl

/-! ## The statements -/

theorem find_blot (t : JobTable) (id : String) :
    (blotTable u t).find id = (t.find id).map (blotJob u) := by
  simp only [JobTable.find, blotTable, List.find?_map]
  rfl

/-- A statement whose condition and assignment leave the payload alone. -/
theorem update_blot (t : JobTable) {matching : Job → Bool} {set : JobTable.Assignment}
    (hm : ∀ r, matching (blotJob u r) = matching r)
    (hs : ∀ r, set.apply (blotJob u r) = blotJob u (set.apply r)) :
    (blotTable u t).update matching set =
      (blotTable u (t.update matching set).1, (t.update matching set).2.map (blotJob u)) := by
  have hrows : ((t.rows.map (blotJob u)).map fun r => if matching r then set.apply r else r) =
      (t.rows.map fun r => if matching r then set.apply r else r).map (blotJob u) := by
    rw [List.map_map, List.map_map]
    refine List.map_congr_left fun r _ => ?_
    simp only [Function.comp_apply, hm, hs, apply_ite (blotJob u)]
  have hret : ((t.rows.map (blotJob u)).filter matching).map set.apply =
      ((t.rows.filter matching).map set.apply).map (blotJob u) := by
    rw [List.filter_map, List.map_map, List.map_map]
    have hfilter : matching ∘ blotJob u = matching := funext hm
    rw [hfilter]
    exact List.map_congr_left fun r _ => hs r
  unfold JobTable.update blotTable
  simp only [hrows, hret]

theorem scanRow_blot (rows : List Job) :
    JobRepository.scanRow (rows.map (blotJob u)) =
      (JobRepository.scanRow rows).map (blotJob u) := by
  cases rows <;> rfl

theorem newRow_blot (now reading : Time) (id : String) (p : CreateJobParams) :
    JobRepository.newRow now reading id (blotParams u p) =
      (JobRepository.newRow now reading id p).map (blotJob u) := by
  simp only [JobRepository.newRow, blotParams]
  cases JobRepository.varchar 100 p.queueName with
  | none => rfl
  | some queueName =>
    cases JobRepository.varchar 100 p.jobType with
    | none => rfl
    | some jobType =>
      by_cases hfits : JobRepository.int4 p.priority && JobRepository.int4 p.maxAttempts
      · simp only [hfits, guard, if_true]
        rfl
      · simp only [hfits, guard]
        rfl

theorem create_blot (t : JobTable) (now reading : Time) (id : String) (p : CreateJobParams) :
    JobRepository.create (blotTable u t) now reading id (blotParams u p) =
      (blotTable u (JobRepository.create t now reading id p).1,
        (JobRepository.create t now reading id p).2.map (blotJob u)) := by
  unfold JobRepository.create
  rw [newRow_blot]
  cases JobRepository.newRow now reading id p with
  | none => rfl
  | some row =>
    have hids : (blotTable u t).rows.map Job.id = t.rows.map Job.id := List.map_map
    simp only [Option.map_some]
    by_cases hmem : row.id ∈ t.rows.map Job.id
    · rw [dif_pos hmem, dif_pos (hids ▸ hmem)]
      rfl
    · rw [dif_neg hmem, dif_neg (hids ▸ hmem)]
      simp only [JobTable.insert, blotTable, List.map_append, List.map_singleton]
      rfl

theorem isBatch_blot (t : JobTable) (now : Time) (limit : Nat) (batch : List String) :
    JobRepository.IsBatch (blotTable u t) now limit batch ↔
      JobRepository.IsBatch t now limit batch := by
  have hdue : (blotTable u t).rows.filter (JobRepository.isDue now) =
      (t.rows.filter (JobRepository.isDue now)).map (blotJob u) := List.filter_map
  have hids : ((t.rows.filter (JobRepository.isDue now)).map (blotJob u)).map Job.id =
      (t.rows.filter (JobRepository.isDue now)).map Job.id := List.map_map
  simp only [JobRepository.IsBatch, hdue, hids, List.length_map, List.forall_mem_map, blotJob_id]
  rfl

theorem readyScheduled_blot (t : JobTable) (now : Time) (limit : Nat) (batch : List String) :
    JobRepository.readyScheduled (blotTable u t) now limit batch =
      (JobRepository.readyScheduled t now limit batch).map
        fun x => (blotTable u x.1, x.2.map (blotJob u)) := by
  simp only [JobRepository.readyScheduled, isBatch_blot]
  split
  · rw [update_blot u t (fun _ => rfl) (fun _ => rfl), Option.map_some]
    simp only [find_blot, List.map_filterMap]
  · rfl

/-! ## The commands -/

theorem ofRow_blot (x : Except Err Job) :
    ofRow (x.map (blotJob u)) = blotReply u (ofRow x) := by
  cases x <;> rfl

/-- What a command makes of the world and answers. -/
abbrev blotResult (u : String) (x : World × Reply) : World × Reply :=
  (blotWorld u x.1, blotReply u x.2)

theorem onJobs_blot (w : World) (t : JobTable) (r : Reply) :
    onJobs (blotWorld u w) (blotTable u t, blotReply u r) = blotResult u (onJobs w (t, r)) := rfl

theorem onRedis_blot (w : World) (x : Except Err Redis) :
    onRedis (blotWorld u w) x = blotResult u (onRedis w x) := by
  cases x <;> rfl

theorem onWorkers_blot (w : World) (x : Except Err WorkerRepository.WorkerTable) :
    onWorkers (blotWorld u w) x = blotResult u (onWorkers w x) := by
  cases x <;> rfl

/-- An update of the table whose first row is the answer. -/
theorem update_scan_blot (w : World) {matching : Job → Bool} {set : JobTable.Assignment}
    (hm : ∀ r, matching (blotJob u r) = matching r)
    (hs : ∀ r, set.apply (blotJob u r) = blotJob u (set.apply r)) :
    onJobs (blotWorld u w) (((blotTable u w.jobs).update matching set).1,
        ofRow (JobRepository.scanRow ((blotTable u w.jobs).update matching set).2)) =
      blotResult u (onJobs w ((w.jobs.update matching set).1,
        ofRow (JobRepository.scanRow (w.jobs.update matching set).2))) := by
  rw [update_blot u w.jobs hm hs, scanRow_blot, ofRow_blot, onJobs_blot]

/-- An update of the table whose number of rows is the answer. -/
theorem update_count_blot (w : World) {matching : Job → Bool} {set : JobTable.Assignment}
    (hm : ∀ r, matching (blotJob u r) = matching r)
    (hs : ∀ r, set.apply (blotJob u r) = blotJob u (set.apply r)) :
    onJobs (blotWorld u w) (((blotTable u w.jobs).update matching set).1,
        .affected ((blotTable u w.jobs).update matching set).2.length) =
      blotResult u (onJobs w ((w.jobs.update matching set).1,
        .affected (w.jobs.update matching set).2.length)) := by
  rw [update_blot u w.jobs hm hs, List.length_map]
  rfl

theorem exec_blot (w : World) (e : Env) (cmd : Cmd) :
    exec (blotWorld u w) e (blotCmd u cmd) = (exec w e cmd).map (blotResult u) := by
  cases cmd with
  | insertJob p =>
    have h : onJobs (blotWorld u w) ((JobRepository.create (blotTable u w.jobs) w.clock e.reading
          e.freshID (blotParams u p)).1, ofRow (JobRepository.create (blotTable u w.jobs) w.clock
          e.reading e.freshID (blotParams u p)).2) =
        blotResult u (onJobs w ((JobRepository.create w.jobs w.clock e.reading e.freshID p).1,
          ofRow (JobRepository.create w.jobs w.clock e.reading e.freshID p).2)) := by
      rw [create_blot, ofRow_blot, onJobs_blot]
    exact congrArg some h
  | readyScheduled limit =>
    simp only [exec, blotCmd, blotWorld, readyScheduled_blot, Option.map_map]
    rfl
  | findJob id =>
    refine congrArg some (Prod.ext rfl ?_)
    simp only [JobRepository.findJob, blotWorld, find_blot]
    rw [Option.toList_map, scanRow_blot, ofRow_blot]
  | cancelJob id userID =>
    exact congrArg some (update_count_blot u w (fun _ => rfl) fun _ => rfl)
  | markCompleted id => exact congrArg some (update_count_blot u w (fun _ => rfl) fun _ => rfl)
  | requeueJob id userID =>
    exact congrArg some (update_scan_blot u w (fun _ => rfl) fun _ => rfl)
  | markRunning id => exact congrArg some (update_scan_blot u w (fun _ => rfl) fun _ => rfl)
  | markFailed id message =>
    exact congrArg some (update_scan_blot u w (fun _ => rfl) fun _ => rfl)
  | enqueue job => exact congrArg some (onRedis_blot u w _)
  | enqueueAfter job delay => exact congrArg some (onRedis_blot u w _)
  | removeRetry id => exact congrArg some (onRedis_blot u w _)
  | deadLetter job => exact congrArg some (onRedis_blot u w _)
  | incrementProcessed worker failed => exact congrArg some (onWorkers_blot u w _)
  | heartbeat worker hostname status => exact congrArg some (onWorkers_blot u w _)
  | dueRetries =>
    simp only [exec, blotCmd, blotWorld]
    cases RedisQueue.dueRetries w.redis e.reading <;> rfl
  | pop name =>
    refine congrArg some ?_
    simp only [blotWorld]
    cases RedisQueue.pop w.redis name <;> rfl
  | publish event =>
    refine congrArg some (Prod.ext ?_ rfl)
    simp [blotWorld]
  | sleep => rfl

/-! ## The program points -/

/-- What each reply leads to is not changed by the blots. -/
def Follows (u : String) (next next' : Reply → Pc) : Prop :=
  ∀ r, next' (blotReply u r) = blotPc u (next r)

theorem promoteNext_blot (jobs : List Job) :
    Pc.promoteNext (jobs.map (blotJob u)) = blotPc u (Pc.promoteNext jobs) := by
  cases jobs <;> rfl

theorem retryNext_blot (ids : List String) :
    Pc.retryNext ids = blotPc u (Pc.retryNext ids) := by
  cases ids <;> rfl

theorem code_blot (pc : Pc) :
    match pc.code with
    | none => (blotPc u pc).code = none
    | some (cmd, next) => ∃ next', (blotPc u pc).code = some (blotCmd u cmd, next') ∧
        Follows u next next' := by
  cases pc with
  | idle | stopped | process w job => rfl
  | returned result => rfl
  | createInsert p =>
    refine ⟨_, rfl, fun r => ?_⟩
    cases r with
    | job job =>
      show (if job.status = .queued then Pc.createEnqueue (blotJob u job)
        else .createPublish (blotJob u job)) =
          blotPc u (if job.status = .queued then .createEnqueue job else .createPublish job)
      rw [apply_ite (blotPc u)]
      rfl
    | _ => rfl
  | schedulerTick =>
    refine ⟨_, rfl, fun r => ?_⟩
    cases r with
    | jobs jobs => exact promoteNext_blot u jobs
    | _ => rfl
  | promotePublish job jobs => exact ⟨_, rfl, fun r => promoteNext_blot u jobs⟩
  | retriesRange =>
    refine ⟨_, rfl, fun r => ?_⟩
    cases r with
    | members ids => exact retryNext_blot u ids
    | _ => rfl
  | retriesRemove id ids => exact ⟨_, rfl, fun r => retryNext_blot u ids⟩
  | cancelUpdate id userID =>
    refine ⟨_, rfl, fun r => ?_⟩
    cases r with
    | affected n => cases n <;> rfl
    | _ => rfl
  | dequeue w queues =>
    cases queues with
    | nil => exact ⟨_, rfl, fun r => rfl⟩
    | cons name queues =>
      refine ⟨_, rfl, fun r => ?_⟩
      cases r with
      | popped id => cases id <;> rfl
      | _ => rfl
  | countFailed w failedJob =>
    refine ⟨_, rfl, fun r => ?_⟩
    show (if failedJob.status = .retrying then Pc.enqueueAfter w (blotJob u failedJob)
      else .deadLetter w (blotJob u failedJob)) =
        blotPc u (if failedJob.status = .retrying then .enqueueAfter w failedJob
          else .deadLetter w failedJob)
    rw [apply_ite (blotPc u)]
    rfl
  | _ =>
    refine ⟨_, rfl, fun r => ?_⟩
    cases r <;> rfl

theorem advance_blot (w : World) (pc : Pc) (m : Mode) (e : Env) :
    advance (blotWorld u w) (blotPc u pc) m e =
      (advance w pc m e).map fun x => (blotWorld u x.1, blotPc u x.2.1, blotReply u x.2.2) := by
  have hcode := code_blot u pc
  unfold advance
  cases hpc : pc.code with
  | none =>
    rw [hpc] at hcode
    rw [hcode]
    rfl
  | some x =>
    obtain ⟨cmd, next⟩ := x
    rw [hpc] at hcode
    obtain ⟨next', hcode', hnext⟩ := hcode
    have hlost := hnext (.err .unavailable)
    simp only [blotReply] at hlost
    rw [hcode']
    cases m with
    | ok =>
      simp only [exec_blot, Option.map_map]
      exact Option.map_congr fun x _ => Prod.ext rfl (Prod.ext (hnext x.2) rfl)
    | lost =>
      simp only [exec_blot, Option.map_map]
      exact Option.map_congr fun x _ => Prod.ext rfl (Prod.ext hlost rfl)
    | failed => exact congrArg some (Prod.ext rfl (Prod.ext hlost rfl))

theorem observe_blot (p : Pid) (pc : Pc) (now : Time) (r : Reply) :
    observe p (blotPc u pc) now (blotReply u r) = observe p pc now r := by
  cases pc with
  | cancelUpdate id userID =>
    cases r with
    | affected n => cases n <;> rfl
    | _ => rfl
  | markCompleted w job =>
    cases r with
    | affected n => cases n <;> rfl
    | _ => rfl
  | schedulerTick =>
    cases r with
    | jobs jobs => simp [blotPc, blotReply, observe, Function.comp_def]
    | _ => rfl
  | _ => cases r <;> rfl

theorem entry_blot (role : Role) : Pc.entry (blotRole u role) = blotPc u (Pc.entry role) := by
  cases role with
  | request r =>
    cases r with
    | create input =>
      simp only [blotRole, Pc.entry, Pc.request, Pc.create, blotInput]
      split <;> rfl
    | cancel id userID => rfl
    | retry id userID => rfl
  | scheduler | worker w | heartbeat w => rfl

/-- Blotting out before a step and after it is the same, and the history does not tell. -/
theorem step_blot (s : State) (l : Label) :
    step (blotState u s) (blotLabel u l) =
      (step s l).map fun x => (blotState u x.1, x.2) := by
  have hmove : ∀ p pc, (blotState u s).moveTo p (blotPc u pc) = blotState u (s.moveTo p pc) := by
    intro p pc
    simp only [State.moveTo, blotState, State.mk.injEq, true_and]
    funext q
    by_cases hq : q = p
    · subst hq
      simp
    · simp [Function.update_of_ne hq]
  have hproc : ∀ p, (blotState u s).procs p = blotPc u (s.procs p) := fun _ => rfl
  cases l with
  | tick now => rfl
  | crash p => exact congrArg some (Prod.ext (hmove p .stopped) rfl)
  | start p role =>
    simp only [step, blotLabel, hproc, entry_blot, hmove]
    cases hpc : s.procs p <;> rfl
  | signal p =>
    simp only [step, blotLabel, hproc]
    cases hpc : s.procs p with
    | heartbeat w => exact congrArg some (Prod.ext (hmove p (.offline w)) rfl)
    | _ => rfl
  | finish p outcome =>
    simp only [step, blotLabel, hproc]
    cases hpc : s.procs p with
    | process w job =>
      refine congrArg some (Prod.ext ?_ rfl)
      have hafter : Pc.processed w (blotJob u job) outcome =
          blotPc u (Pc.processed w job outcome) := by
        rcases outcome with message | ⟨⟩ <;> rfl
      show (blotState u s).moveTo p (Pc.processed w (blotJob u job) outcome) = _
      rw [hafter, hmove]
    | _ => rfl
  | run p m e =>
    simp only [step, blotLabel, hproc]
    have hadvance := advance_blot u s.world (s.procs p) m e
    simp only [blotState] at hadvance ⊢
    rw [hadvance, Option.map_map, Option.map_map]
    refine Option.map_congr fun x _ => ?_
    have hself := hmove p x.2.1
    simp only [State.moveTo, blotState, State.mk.injEq] at hself
    simp only [Function.comp_apply, observe_blot, hself.2, blotWorld]

end JobFlow.Runs.Payloads
