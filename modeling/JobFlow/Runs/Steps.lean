import JobFlow.Model.System
import JobFlow.Runs.ControlFlow

/-!
# What one step can do

The inversion lemmas of the step function. `step_run` opens a command, and
`step_row` says what any step may do to the row of any one job: keep it, or
change it by exactly one of the statements of the repository, issued by a
goroutine at the program point of that statement. Every invariant of the table
is derived from `step_row` and never from the step function itself.
-/

namespace JobFlow.Runs.Steps

open JobFlow.Model
open JobFlow.Model.JobRepository
open JobFlow.Lib.Transition
open ControlFlow

/-- The row of a job, `none` when there is none. -/
def row (s : State) (id : String) : Option Job := s.world.jobs.find id

/-- What the caller of a command hears. -/
def heard : Mode → Reply → Reply
  | .ok, r => r
  | .lost, _ => .err .unavailable
  | .failed, _ => .err .unavailable

/-- A caller that hears no error hears what the store replied. -/
theorem heard_ok {m : Mode} {r r' : Reply} (h : heard m r = r') (hr : ∀ e, r' ≠ .err e) :
    m = .ok ∧ r = r' := by
  cases m
  · exact ⟨rfl, h⟩
  · exact absurd h.symm (hr _)
  · exact absurd h.symm (hr _)

theorem heard_eq {m : Mode} {r r' : Reply} (h : heard m r = r') (hr : ∀ e, r' ≠ .err e) :
    r = r' := (heard_ok h hr).2

theorem heard_job {m : Mode} {r : Reply} {job : Job} (h : heard m r = .job job) :
    r = .job job := heard_eq h (by simp)

/-- Goroutine `p` issued `cmd` and the store replied `r`. -/
structure Ran (s : State) (p : Pid) (m : Mode) (e : Env) (s' : State) (a : Act)
    (cmd : Cmd) (next : Reply → Pc) (r : Reply) : Prop where
  code : (s.procs p).code = some (cmd, next)
  effect : (m ≠ .failed ∧ exec s.world e cmd = some (s'.world, r)) ∨
    (m = .failed ∧ s'.world = s.world ∧ r = .err .unavailable)
  procs : s'.procs = Function.update s.procs p (next (heard m r))
  act : a = observe p (s.procs p) s.world.clock r

section

variable {s s' : State} {p q : Pid} {m : Mode} {e : Env} {a : Act} {cmd : Cmd} {next : Reply → Pc}
  {r : Reply}

theorem Ran.effect_ok (h : Ran s p .ok e s' a cmd next r) :
    exec s.world e cmd = some (s'.world, r) := by
  simpa using h.effect

/-- The goroutine continues with what it hears. -/
theorem Ran.procs_self (h : Ran s p m e s' a cmd next r) : s'.procs p = next (heard m r) := by
  rw [h.procs, Function.update_self]

/-- The others stay where they are. -/
theorem Ran.procs_other (h : Ran s p m e s' a cmd next r) (hq : q ≠ p) :
    s'.procs q = s.procs q := by
  rw [h.procs, Function.update_of_ne hq]

end

theorem step_run {s s' : State} {p : Pid} {m : Mode} {e : Env} {a : Act}
    (h : step s (.run p m e) = some (s', a)) : ∃ cmd next r, Ran s p m e s' a cmd next r := by
  simp only [step, Option.map_eq_some_iff, Prod.exists, Prod.mk.injEq] at h
  obtain ⟨w, pc, r, hadv, rfl, rfl⟩ := h
  unfold advance at hadv
  cases hc : (s.procs p).code with
  | none => simp [hc] at hadv
  | some c =>
    obtain ⟨cmd, next⟩ := c
    simp only [hc] at hadv
    cases m with
    | ok =>
      simp only [Option.map_eq_some_iff, Prod.exists, Prod.mk.injEq] at hadv
      obtain ⟨_, _, hx, rfl, rfl, rfl⟩ := hadv
      exact ⟨cmd, next, _, hc, .inl ⟨by decide, hx⟩, rfl, rfl⟩
    | lost =>
      simp only [Option.map_eq_some_iff, Prod.exists, Prod.mk.injEq] at hadv
      obtain ⟨_, _, hx, rfl, rfl, rfl⟩ := hadv
      exact ⟨cmd, next, _, hc, .inl ⟨by decide, hx⟩, rfl, rfl⟩
    | failed =>
      simp only [Option.some.injEq, Prod.mk.injEq] at hadv
      obtain ⟨rfl, rfl, rfl⟩ := hadv
      exact ⟨cmd, next, _, hc, .inr ⟨rfl, rfl, rfl⟩, rfl, rfl⟩

theorem step_run_or_not {s s' : State} {l : Label} {a : Act} (h : step s l = some (s', a)) :
    (∃ p m e cmd next r, l = .run p m e ∧ Ran s p m e s' a cmd next r) ∨
      ∀ p m e, l ≠ .run p m e := by
  by_cases hl : ∃ p m e, l = .run p m e
  · obtain ⟨p, m, e, rfl⟩ := hl
    obtain ⟨cmd, next, r, hran⟩ := step_run h
    exact .inl ⟨p, m, e, cmd, next, r, rfl, hran⟩
  · simp only [not_exists] at hl
    exact .inr hl

/-- A step that issues no command moves at most one goroutine or the clock. -/
theorem step_local {s s' : State} {l : Label} {a : Act} (h : step s l = some (s', a))
    (hl : ∀ p m e, l ≠ .run p m e) :
    (s'.world = s.world ∨ ∃ now, l = .tick now ∧ s'.world = { s.world with clock := now }) ∧
    (a = .silent ∨ ∃ p id success, a = .processReturned p id success) := by
  cases l with
  | tick now =>
    cases h
    exact ⟨.inr ⟨now, rfl, rfl⟩, .inl rfl⟩
  | start p role =>
    simp only [step] at h
    split at h <;> cases h
    exact ⟨.inl rfl, .inl rfl⟩
  | signal p =>
    simp only [step] at h
    split at h <;> cases h
    exact ⟨.inl rfl, .inl rfl⟩
  | crash p =>
    cases h
    exact ⟨.inl rfl, .inl rfl⟩
  | finish p outcome =>
    simp only [step] at h
    split at h <;> cases h
    exact ⟨.inl rfl, .inr ⟨_, _, _, rfl⟩⟩
  | run p m e => exact absurd rfl (hl p m e)

/-- The statements that may change the `jobs` table. -/
def Cmd.writesJobs : Cmd → Bool
  | .insertJob _ | .cancelJob _ _ | .requeueJob _ _ | .readyScheduled _ | .markRunning _
  | .markCompleted _ | .markFailed _ _ => true
  | _ => false

theorem onRedis_frame (w : World) (x : Except Err Redis) :
    (onRedis w x).1.jobs = w.jobs ∧ (onRedis w x).1.clock = w.clock ∧
      (onRedis w x).1.events = w.events := by
  cases x <;> exact ⟨rfl, rfl, rfl⟩

theorem onWorkers_frame (w : World) (x : Except Err WorkerRepository.WorkerTable) :
    (onWorkers w x).1.jobs = w.jobs ∧ (onWorkers w x).1.clock = w.clock ∧
      (onWorkers w x).1.redis = w.redis ∧ (onWorkers w x).1.events = w.events := by
  cases x <;> exact ⟨rfl, rfl, rfl, rfl⟩

/-- The commands of `RedisQueue`. -/
def Cmd.usesQueue : Cmd → Bool
  | .enqueue _ | .enqueueAfter _ _ | .dueRetries | .removeRetry _ | .pop _ | .deadLetter _ => true
  | _ => false

/-- The statements on the table of workers. -/
def Cmd.usesWorkers : Cmd → Bool
  | .incrementProcessed _ _ | .heartbeat _ _ _ => true
  | _ => false

/-- What a command of `RedisQueue` may do to the keys: replace a sorted set, or push a dead
letter. -/
inductive KeyChange (r : Redis) : Cmd → Redis → Prop
  | same {cmd : Cmd} : KeyChange r cmd r
  | sorted {cmd : Cmd} {key : String} {z z' : Lib.SortedSet String Int}
      (hz : r.sortedAt key = .ok z) : KeyChange r cmd (r.putSorted key z')
  | pushed {job : Job} {items : List String}
      (hitems : r.listAt RedisQueue.deadLetterKey = .ok items) :
      KeyChange r (.deadLetter job)
        (Function.update r RedisQueue.deadLetterKey (some (.list (job.id :: items))))

/-- What a command may do to the world. Every frame fact is read off here. -/
inductive Change (w : World) : Cmd → World → Prop
  | jobs {cmd : Cmd} (hcmd : Cmd.writesJobs cmd) (t : JobTable) : Change w cmd { w with jobs := t }
  | redis {cmd : Cmd} (hcmd : Cmd.usesQueue cmd) {r : Redis} (hr : KeyChange w.redis cmd r) :
      Change w cmd { w with redis := r }
  | workers {cmd : Cmd} (hcmd : Cmd.usesWorkers cmd) (t : WorkerRepository.WorkerTable) :
      Change w cmd { w with workers := t }
  | publish (event : Event) : Change w (.publish event) { w with events := w.events ++ [event] }
  | findJob (id : String) : Change w (.findJob id) w
  | sleep : Change w .sleep w

theorem change_onRedis {w : World} {cmd : Cmd} {x : Except Err Redis}
    (hcmd : Cmd.usesQueue cmd) (hx : ∀ r, x = .ok r → KeyChange w.redis cmd r) :
    Change w cmd (onRedis w x).1 := by
  cases x with
  | error e => exact .redis hcmd .same
  | ok r => exact .redis hcmd (hx r rfl)

theorem change_onWorkers {w : World} {cmd : Cmd} (hcmd : Cmd.usesWorkers cmd)
    (x : Except Err WorkerRepository.WorkerTable) : Change w cmd (onWorkers w x).1 := by
  cases x with
  | error e => exact .workers hcmd w.workers
  | ok t => exact .workers hcmd t

theorem exec_change {w w' : World} {e : Env} {cmd : Cmd} {r : Reply}
    (h : exec w e cmd = some (w', r)) : Change w cmd w' := by
  cases cmd with
  | readyScheduled limit =>
    obtain ⟨⟨t, rows⟩, -, heq⟩ := Option.map_eq_some_iff.mp h
    cases heq
    exact .jobs rfl t
  | insertJob | cancelJob | requeueJob | markRunning | markCompleted | markFailed =>
    cases h
    exact .jobs rfl _
  | findJob id =>
    cases h
    exact .findJob id
  | enqueue job =>
    obtain rfl := congrArg Prod.fst (Option.some.inj h)
    refine change_onRedis rfl fun r hr => ?_
    obtain ⟨z, hz, rfl⟩ := Redis.zadd_ok hr
    exact .sorted hz
  | enqueueAfter job delay =>
    obtain rfl := congrArg Prod.fst (Option.some.inj h)
    refine change_onRedis rfl fun r hr => ?_
    obtain ⟨z, hz, rfl⟩ := Redis.zadd_ok hr
    exact .sorted hz
  | removeRetry id =>
    obtain rfl := congrArg Prod.fst (Option.some.inj h)
    refine change_onRedis rfl fun r hr => ?_
    obtain ⟨z, hz, rfl⟩ := Redis.zrem_ok hr
    exact .sorted hz
  | deadLetter job =>
    obtain rfl := congrArg Prod.fst (Option.some.inj h)
    refine change_onRedis rfl fun r hr => ?_
    obtain ⟨items, hitems, rfl⟩ := Redis.lpush_ok hr
    exact .pushed hitems
  | dueRetries =>
    cases h
    exact .redis rfl .same
  | pop name =>
    have hfst := congrArg Prod.fst (Option.some.inj h)
    split at hfst <;> subst hfst
    · next hr =>
      obtain ⟨z, hz, ⟨-, -, rfl⟩ | ⟨e, z', -, -, rfl⟩⟩ := Redis.zpopmin_ok hr
      · exact .redis rfl .same
      · exact .redis rfl (.sorted hz)
    · exact .redis rfl .same
  | incrementProcessed worker failed =>
    obtain rfl := congrArg Prod.fst (Option.some.inj h)
    exact change_onWorkers rfl _
  | heartbeat worker hostname status =>
    obtain rfl := congrArg Prod.fst (Option.some.inj h)
    exact change_onWorkers rfl _
  | publish event =>
    cases h
    exact .publish event
  | sleep =>
    cases h
    exact .sleep

section Frame

variable {w w' : World} {e : Env} {cmd : Cmd} {r : Reply}

/-- Every other command leaves the table as it is. -/
theorem exec_jobs (h : exec w e cmd = some (w', r)) (hc : Cmd.writesJobs cmd = false) :
    w'.jobs = w.jobs := by
  cases exec_change h with
  | jobs hcmd => exact absurd (hc ▸ hcmd) Bool.false_ne_true
  | _ => rfl

/-- Every other command leaves the keys of Redis as they are. -/
theorem exec_redis (h : exec w e cmd = some (w', r)) (hc : Cmd.usesQueue cmd = false) :
    w'.redis = w.redis := by
  cases exec_change h with
  | redis hcmd => exact absurd (hc ▸ hcmd) Bool.false_ne_true
  | _ => rfl

/-- Only heartbeats and increments change the table of workers. -/
theorem exec_workers (h : exec w e cmd = some (w', r)) (hc : Cmd.usesWorkers cmd = false) :
    w'.workers = w.workers := by
  cases exec_change h with
  | workers hcmd => exact absurd (hc ▸ hcmd) Bool.false_ne_true
  | _ => rfl

/-- What a command leaves of the keys of Redis. -/
theorem exec_keys (h : exec w e cmd = some (w', r)) : KeyChange w.redis cmd w'.redis := by
  cases exec_change h with
  | redis _ hr => exact hr
  | _ => exact .same

/-- No command moves the clock. -/
theorem exec_clock (h : exec w e cmd = some (w', r)) : w'.clock = w.clock := by
  cases exec_change h <;> rfl

end Frame

/-- The world changes by a command of one goroutine or by the clock. -/
theorem step_world {s s' : State} {l : Label} {a : Act} (h : step s l = some (s', a)) :
    s'.world = s.world ∨ (∃ now, l = .tick now ∧ s'.world = { s.world with clock := now }) ∨
    ∃ p m e cmd next r, l = .run p m e ∧ (s.procs p).code = some (cmd, next) ∧
      exec s.world e cmd = some (s'.world, r) := by
  rcases step_run_or_not h with ⟨p, m, e, cmd, next, r, rfl, hran⟩ | hl
  · rcases hran.effect with ⟨_, hx⟩ | ⟨_, hw, _⟩
    · exact .inr (.inr ⟨p, m, e, cmd, next, r, rfl, hran.code, hx⟩)
    · exact .inl hw
  · rcases (step_local h hl).1 with hw | hw
    · exact .inl hw
    · exact .inr (.inl hw)

/-- The clock moves in its own steps only. -/
theorem step_clock {s s' : State} {l : Label} {a : Act} (h : step s l = some (s', a)) :
    s'.world.clock = s.world.clock ∨ ∃ now, l = .tick now ∧ s'.world.clock = now := by
  rcases step_world h with hw | ⟨now, rfl, hw⟩ | ⟨_, _, _, _, _, _, _, _, hx⟩
  · exact .inl (by rw [hw])
  · exact .inr ⟨now, rfl, by rw [hw]⟩
  · exact .inl (exec_clock hx)

/-- The history records something about the row of `id`. -/
def touches (id : String) : Act → Prop
  | .created i | .cancelled i | .requeued i | .markedRunning _ i _ | .markedCompleted _ i
  | .markedFailed _ i _ _ _ => i = id
  | .promoted ids => id ∈ ids
  | _ => False

/-- What a step may do to the row of `id`, and what it records. -/
inductive RowStep (s : State) (l : Label) (id : String) : Act → Option Job → Option Job → Prop
  | same {a : Act} {row : Option Job} (h : ¬ touches id a) : RowStep s l id a row row
  | created {p : Pid} {m : Mode} {e : Env} {params : CreateJobParams} {r : Job}
      (hl : l = .run p m e) (hpc : s.procs p = .createInsert params)
      (hrow : newRow s.world.clock e.reading id params = some r) :
      RowStep s l id (.created id) none (some r)
  | cancelled {p : Pid} {userID : String} {r : Job} (hpc : s.procs p = .cancelUpdate id userID)
      (hw : cancelWhere id userID r) :
      RowStep s l id (.cancelled id) (some r) (some ((cancelSet s.world.clock).apply r))
  | requeued {p : Pid} {userID : String} {r : Job} (hpc : s.procs p = .retryUpdate id userID)
      (hw : requeueWhere id userID r) :
      RowStep s l id (.requeued id) (some r) (some ((requeueSet s.world.clock).apply r))
  | promoted {p : Pid} {ids : List String} {r : Job} (hpc : s.procs p = .schedulerTick)
      (hid : id ∈ ids) (hd : isDue s.world.clock r) :
      RowStep s l id (.promoted ids) (some r) (some ((promotedSet s.world.clock).apply r))
  | running {p : Pid} {w : Pool} {r : Job} (hpc : s.procs p = .markRunning w id)
      (hw : runningWhere id r) :
      RowStep s l id (.markedRunning p id s.world.clock) (some r)
        (some ((runningSet s.world.clock).apply r))
  | completed {p : Pid} {w : Pool} {job r : Job} (hpc : s.procs p = .markCompleted w job)
      (hid : job.id = id) :
      RowStep s l id (.markedCompleted p id) (some r)
        (some ((completedSet s.world.clock).apply r))
  | failed {p : Pid} {w : Pool} {job r : Job} {message : String}
      (hpc : s.procs p = .markFailed w job message) (hid : job.id = id) :
      RowStep s l id
        (.markedFailed p id ((failedSet s.world.clock message).apply r).status r.attempts
          s.world.clock)
        (some r) (some ((failedSet s.world.clock message).apply r))

/-- A program point whose command leaves the table alone records nothing about a row. -/
theorem observe_touches {p : Pid} {pc : Pc} {now : Time} {r : Reply} {cmd : Cmd}
    {next : Reply → Pc} {id : String} (hc : pc.code = some (cmd, next))
    (hw : Cmd.writesJobs cmd = false) : ¬ touches id (observe p pc now r) := by
  cases pc <;> simp only [Pc.code, Option.some.injEq, Prod.mk.injEq, reduceCtorEq] at hc <;>
    first
    | (obtain ⟨rfl, -⟩ := hc; simp [Cmd.writesJobs] at hw; done)
    | simp [observe, touches]

/-- Which statement an act records. -/
theorem observe_created {p : Pid} {pc : Pc} {now : Time} {r : Reply} {id : String}
    (h : observe p pc now r = .created id) :
    ∃ params job, pc = .createInsert params ∧ r = .job job ∧ job.id = id := by
  unfold observe at h
  split at h <;> cases h
  exact ⟨_, _, rfl, rfl, rfl⟩

theorem observe_requeued {p : Pid} {pc : Pc} {now : Time} {r : Reply} {id : String}
    (h : observe p pc now r = .requeued id) :
    ∃ i userID job, pc = .retryUpdate i userID ∧ r = .job job ∧ job.id = id := by
  unfold observe at h
  split at h <;> cases h
  exact ⟨_, _, _, rfl, rfl, rfl⟩

theorem observe_promoted {p : Pid} {pc : Pc} {now : Time} {r : Reply} {ids : List String}
    (h : observe p pc now r = .promoted ids) :
    ∃ jobs, pc = .schedulerTick ∧ r = .jobs jobs ∧ ids = jobs.map Job.id := by
  unfold observe at h
  split at h <;> cases h
  exact ⟨_, rfl, rfl, rfl⟩

theorem observe_markedFailed {p q : Pid} {pc : Pc} {now t : Time} {r : Reply} {id : String}
    {st : Status} {n : Nat} (h : observe p pc now r = .markedFailed q id st n t) :
    ∃ w i message job, pc = .markFailed w i message ∧ r = .job job ∧ job.id = id ∧
      job.status = st := by
  unfold observe at h
  split at h <;> cases h
  exact ⟨_, _, _, _, rfl, rfl, rfl, rfl⟩

/-- A command that failed, or matched no row, records nothing about a row. -/
theorem observe_err {p : Pid} {pc : Pc} {now : Time} {x : Err} {id : String} :
    ¬ touches id (observe p pc now (.err x)) := by
  cases pc <;> simp [observe, touches]

/-- The statements on one row. Such a statement matches at most the row of `j`; if
it matches none the step records nothing, and otherwise it changes that row as
`RowStep` allows and records nothing about another one. -/
theorem rowStep_update {s s' : State} {l : Label} {a : Act} (matching : Job → Bool)
    {set : JobTable.Assignment} {j : String} (hm : ∀ r, matching r → r.id = j)
    (hjobs : s'.world.jobs = (s.world.jobs.update matching set).1)
    (hnone : (s.world.jobs.update matching set).2 = [] → ∀ i, ¬ touches i a)
    (hsome : ∀ r, matching r → (s.world.jobs.update matching set).2 = [set.apply r] →
      (∀ i, touches i a → i = j) ∧ RowStep s l j a (some r) (some (set.apply r)))
    (id : String) : RowStep s l id a (row s id) (row s' id) := by
  unfold row
  rw [hjobs]
  rcases JobTable.update_one s.world.jobs set hm with ⟨r, hr, hmr, hret, hfind⟩ | ⟨-, hret, hfind⟩
  · obtain ⟨ha, hstep⟩ := hsome r hmr hret
    rw [hfind]
    split
    · next hid =>
      subst hid
      rwa [hr]
    · next hid => exact .same fun ht => hid (ha id ht)
  · rw [hfind]
    exact .same (hnone hret id)

/-- The insert makes the row of the id it was given, or fails and changes nothing. -/
theorem rowStep_create {s s' : State} {p : Pid} {m : Mode} {e : Env} {params : CreateJobParams}
    {r : Reply} (hpc : s.procs p = .createInsert params)
    (hx : exec s.world e (.insertJob params) = some (s'.world, r)) (id : String) :
    RowStep s (.run p m e) id (observe p (.createInsert params) s.world.clock r)
      (row s id) (row s' id) := by
  simp only [exec, Option.some.injEq, Prod.mk.injEq, onJobs] at hx
  obtain ⟨hworld, rfl⟩ := hx
  rcases create_cases s.world.jobs s.world.clock e.reading e.freshID params with
    ⟨r, hnew, hnone, hok, hfind⟩ | herr
  · have hid := (newRow_fields hnew).1
    have hrow : ∀ i, row s' i = if i = e.freshID then some r else row s i := by
      intro i
      simp only [row, ← hworld]
      exact hfind i
    rw [hok, hrow]
    simp only [ofRow, observe, hid]
    split
    · next heq =>
      subst heq
      rw [show row s e.freshID = none from hnone]
      exact .created rfl hpc hnew
    · next hne => exact .same (by simpa [touches] using Ne.symm hne)
  · have hrow : row s' id = row s id := by simp [row, ← hworld, herr]
    rw [hrow, herr]
    exact .same observe_err

/-- The scheduler's statement changes the rows of its batch, which are due. -/
theorem rowStep_promote {s s' : State} {l : Label} {p : Pid} {e : Env} {limit : Nat} {r : Reply}
    (hpc : s.procs p = .schedulerTick)
    (hx : exec s.world e (.readyScheduled limit) = some (s'.world, r)) (id : String) :
    RowStep s l id (observe p .schedulerTick s.world.clock r) (row s id) (row s' id) := by
  simp only [exec] at hx
  obtain ⟨⟨t, rows⟩, hready, heq⟩ := Option.map_eq_some_iff.mp hx
  obtain ⟨hworld, rfl⟩ := Prod.mk.inj heq
  obtain ⟨hids, hin, hout⟩ := readyScheduled_rows hready
  have ht : s'.world.jobs = t := (congrArg World.jobs hworld).symm
  simp only [observe, hids, row, ht]
  by_cases hmem : id ∈ e.batch
  · obtain ⟨r, hr, hd, hr'⟩ := hin id hmem
    rw [hr, hr']
    exact .promoted hpc hmem hd
  · rw [hout id hmem]
    exact .same hmem

theorem step_row {s s' : State} {l : Label} {a : Act} (h : step s l = some (s', a))
    (id : String) : RowStep s l id a (row s id) (row s' id) := by
  rcases step_run_or_not h with ⟨p, m, e, cmd, next, r, rfl, hran⟩ | hl
  case inr =>
    obtain ⟨hw, ha⟩ := step_local h hl
    have hrow : row s' id = row s id := by
      rcases hw with hw | ⟨now, _, hw⟩ <;> simp [row, hw]
    rw [hrow]
    rcases ha with rfl | ⟨_, _, _, rfl⟩ <;> exact .same (by simp [touches])
  case inl =>
  obtain ⟨hcode, heffect, _, rfl⟩ := hran
  rcases heffect with ⟨_, hx⟩ | ⟨_, hw, rfl⟩
  case inr =>
    have hrow : row s' id = row s id := by simp [row, hw]
    rw [hrow]
    exact .same observe_err
  case inl =>
  cases hwr : Cmd.writesJobs cmd with
  | false =>
    have hrow : row s' id = row s id := by simp [row, exec_jobs hx hwr]
    rw [hrow]
    exact .same (observe_touches hcode hwr)
  | true =>
  cases hpc : s.procs p <;> rw [hpc] at hcode <;>
    simp only [Pc.code, Option.some.injEq, Prod.mk.injEq, reduceCtorEq] at hcode
  case createInsert params =>
    obtain ⟨rfl, -⟩ := hcode
    exact rowStep_create hpc hx id
  case cancelUpdate j userID =>
    obtain ⟨rfl, -⟩ := hcode
    simp only [exec, cancel, Option.some.injEq, Prod.mk.injEq, onJobs] at hx
    obtain ⟨hworld, rfl⟩ := hx
    refine rowStep_update (cancelWhere j userID) (by simp [cancelWhere]; tauto)
      (congrArg World.jobs hworld).symm ?_ ?_ id
    · intro hret
      simp [hret, observe, touches]
    · intro r hr hret
      simp only [hret, List.length_singleton, observe, touches]
      exact ⟨fun i hi => hi.symm, .cancelled hpc hr⟩
  case retryUpdate j userID =>
    obtain ⟨rfl, -⟩ := hcode
    simp only [exec, requeue, Option.some.injEq, Prod.mk.injEq, onJobs] at hx
    obtain ⟨hworld, rfl⟩ := hx
    refine rowStep_update (requeueWhere j userID) (by simp [requeueWhere]; tauto)
      (congrArg World.jobs hworld).symm ?_ ?_ id
    · intro hret
      simp [hret, scanRow, ofRow, observe, touches]
    · intro r hr hret
      have hid : r.id = j := by simp [requeueWhere] at hr; tauto
      simp only [hret, scanRow, ofRow, observe, touches, (requeueSet _).keepsID, hid]
      exact ⟨fun i hi => hi.symm, .requeued hpc hr⟩
  case schedulerTick =>
    obtain ⟨rfl, -⟩ := hcode
    exact rowStep_promote hpc hx id
  case markRunning w j =>
    obtain ⟨rfl, -⟩ := hcode
    simp only [exec, markRunning, Option.some.injEq, Prod.mk.injEq, onJobs] at hx
    obtain ⟨hworld, rfl⟩ := hx
    refine rowStep_update (runningWhere j) (by simp [runningWhere]; tauto)
      (congrArg World.jobs hworld).symm ?_ ?_ id
    · intro hret
      simp [hret, scanRow, ofRow, observe, touches]
    · intro r hr hret
      have hid : r.id = j := by simp [runningWhere] at hr; tauto
      simp only [hret, scanRow, ofRow, observe, touches, (runningSet _).keepsID, hid]
      exact ⟨fun i hi => hi.symm, .running hpc hr⟩
  case markCompleted w job =>
    obtain ⟨rfl, -⟩ := hcode
    simp only [exec, markCompleted, Option.some.injEq, Prod.mk.injEq, onJobs] at hx
    obtain ⟨hworld, rfl⟩ := hx
    refine rowStep_update (fun r => r.id = job.id) (j := job.id) (by simp)
      (congrArg World.jobs hworld).symm ?_ ?_ id
    · intro hret
      simp [hret, observe, touches]
    · intro r _ hret
      simp only [hret, List.length_singleton, observe, touches]
      exact ⟨fun i hi => hi.symm, .completed hpc rfl⟩
  case markFailed w job message =>
    obtain ⟨rfl, -⟩ := hcode
    simp only [exec, markFailed, Option.some.injEq, Prod.mk.injEq, onJobs] at hx
    obtain ⟨hworld, rfl⟩ := hx
    refine rowStep_update (fun r => r.id = job.id) (j := job.id) (by simp)
      (congrArg World.jobs hworld).symm ?_ ?_ id
    · intro hret
      simp [hret, scanRow, ofRow, observe, touches]
    · intro r hr hret
      have hid : r.id = job.id := by simpa using hr
      simp only [hret, scanRow, ofRow, observe, touches, (failedSet _ _).keepsID, hid]
      exact ⟨fun i hi => hi.symm, .failed hpc rfl⟩
  case dequeue w queues =>
    cases queues <;> cases hcode <;> cases hwr
  all_goals
    obtain ⟨rfl, -⟩ := hcode
    cases hwr

/-- A step that records nothing about a row leaves it as it is. -/
theorem row_of_not_touches {s s' : State} {l : Label} {a : Act} {id : String}
    (h : step s l = some (s', a)) (ht : ¬ touches id a) : row s' id = row s id := by
  have hstep := step_row h id
  generalize row s id = row₀ at hstep ⊢
  generalize row s' id = row' at hstep ⊢
  cases hstep
  case same => rfl
  case promoted hid _ => exact absurd hid ht
  all_goals exact absurd rfl ht

/-- The columns that no statement writes after the insert. -/
structure SameJob (r r' : Job) : Prop where
  id : r'.id = r.id
  userID : r'.userID = r.userID
  queueName : r'.queueName = r.queueName
  jobType : r'.jobType = r.jobType
  payload : r'.payload = r.payload
  priority : r'.priority = r.priority
  maxAttempts : r'.maxAttempts = r.maxAttempts
  scheduledAt : r'.scheduledAt = r.scheduledAt
  createdAt : r'.createdAt = r.createdAt

theorem SameJob.refl (r : Job) : SameJob r r := ⟨rfl, rfl, rfl, rfl, rfl, rfl, rfl, rfl, rfl⟩

theorem SameJob.symm {r r' : Job} (h : SameJob r r') : SameJob r' r :=
  ⟨h.id.symm, h.userID.symm, h.queueName.symm, h.jobType.symm, h.payload.symm, h.priority.symm,
    h.maxAttempts.symm, h.scheduledAt.symm, h.createdAt.symm⟩

theorem SameJob.trans {r r' r'' : Job} (h : SameJob r r') (h' : SameJob r' r'') :
    SameJob r r'' where
  id := h'.id.trans h.id
  userID := h'.userID.trans h.userID
  queueName := h'.queueName.trans h.queueName
  jobType := h'.jobType.trans h.jobType
  payload := h'.payload.trans h.payload
  priority := h'.priority.trans h.priority
  maxAttempts := h'.maxAttempts.trans h.maxAttempts
  scheduledAt := h'.scheduledAt.trans h.scheduledAt
  createdAt := h'.createdAt.trans h.createdAt

theorem step_sameJob {s s' : State} {l : Label} {a : Act} (h : step s l = some (s', a))
    {id : String} {r : Job} (hr : row s id = some r) :
    ∃ r', row s' id = some r' ∧ SameJob r r' := by
  have hstep := step_row h id
  rw [hr] at hstep
  generalize row s' id = row' at hstep
  cases hstep <;> exact ⟨_, rfl, rfl, rfl, rfl, rfl, rfl, rfl, rfl, rfl, rfl⟩

/-- Rows are never deleted and keep what they were created with. -/
theorem run_sameJob {ok : State → Label → Prop} {tr : List Act} {s s' : State}
    (h : Run step ok s tr s') {id : String} {r : Job} (hr : row s id = some r) :
    ∃ r', row s' id = some r' ∧ SameJob r r' := by
  refine h.invariant (I := fun _ s' => ∃ r', row s' id = some r' ∧ SameJob r r')
    ⟨r, hr, .refl r⟩ ?_
  rintro tr m m' l a - ⟨r₁, hr₁, hsame⟩ - hs
  obtain ⟨r₂, hr₂, hsame'⟩ := step_sameJob hs hr₁
  exact ⟨r₂, hr₂, hsame.trans hsame'⟩

/-- The goroutine a step is about. -/
def Label.pid : Label → Option Pid
  | .tick _ => none
  | .start p _ | .signal p | .crash p | .finish p _ | .run p _ _ => some p

theorem step_procs {s s' : State} {l : Label} {a : Act} {q : Pid} (h : step s l = some (s', a))
    (hq : Label.pid l ≠ some q) : s'.procs q = s.procs q := by
  cases l with
  | tick now =>
    cases h
    rfl
  | run p m e =>
    obtain ⟨cmd, next, r, hran⟩ := step_run h
    exact hran.procs_other (by simpa [Label.pid, eq_comm] using hq)
  | crash p =>
    cases h
    exact Function.update_of_ne (by simpa [Label.pid, eq_comm] using hq) _ _
  | start p role | signal p | finish p outcome =>
    simp only [step] at h
    split at h <;> cases h
    exact Function.update_of_ne (by simpa [Label.pid, eq_comm] using hq) _ _

/-- A goroutine that no step is about stays where it is. -/
theorem execute_procs {s s' : State} {ls : List Label} {tr : List Act} {q : Pid}
    (h : execute step s ls = some (s', tr)) (hq : ∀ l ∈ ls, Label.pid l ≠ some q) :
    s'.procs q = s.procs q := by
  induction ls generalizing s tr with
  | nil =>
    cases h
    rfl
  | cons l ls ih =>
    obtain ⟨s₁, a, tr', hs, he, -⟩ := execute_cons h
    rw [ih he fun l' hl' => hq l' (List.mem_cons_of_mem _ hl'),
      step_procs hs (hq l List.mem_cons_self)]

theorem outcome_procs {s : State} {ls : List Label} (h : (execute step s ls).isSome) {q : Pid}
    (hq : ∀ l ∈ ls, Label.pid l ≠ some q) : (outcome step s ls h).1.procs q = s.procs q :=
  execute_procs (Option.some_get h).symm hq

theorem run_procs {ok : State → Label → Prop} {s₀ s : State} {tr : List Act} {q : Pid}
    (hok : ∀ s l, ok s l → Label.pid l ≠ some q) (h : Run step ok s₀ tr s) :
    s.procs q = s₀.procs q := by
  refine h.invariant (I := fun _ s => s.procs q = s₀.procs q) rfl ?_
  intro tr s s' l a _ ih ho hs
  rw [step_procs hs (hok s l ho), ih]

/-- The goroutine an act is recorded for. -/
def actedBy (q : Pid) : Act → Prop
  | .markedRunning p _ _ | .processStarted p _ | .processReturned p _ _ | .markedCompleted p _
  | .markedFailed p _ _ _ _ => p = q
  | _ => False

theorem actedBy_observe {p q : Pid} {pc : Pc} {now : Time} {r : Reply}
    (h : actedBy q (observe p pc now r)) : p = q := by
  unfold observe at h
  split at h <;> first | exact h | exact h.elim

/-- A statement on a row that is recorded for a goroutine was issued by it. -/
theorem run_of_actedBy {s s' : State} {l : Label} {a : Act} {q : Pid} {id : String}
    (h : step s l = some (s', a)) (ht : touches id a) (hq : actedBy q a) :
    ∃ m e cmd next r, l = .run q m e ∧ Ran s q m e s' a cmd next r := by
  rcases step_run_or_not h with ⟨p, m, e, cmd, next, r, rfl, hran⟩ | hl
  · obtain rfl := actedBy_observe (hran.act ▸ hq)
    exact ⟨m, e, cmd, next, r, rfl, hran⟩
  · rcases (step_local h hl).2 with rfl | ⟨_, _, _, rfl⟩ <;> exact ht.elim

/-- Where a step leaves goroutine `q`. -/
inductive Moves (s : State) (l : Label) (s' : State) (a : Act) (q : Pid) : Pc → Prop
  | stays (ha : ¬ actedBy q a) : Moves s l s' a q (s.procs q)
  | starts {role : Role} (hl : l = .start q role) (hidle : s.procs q = .idle)
      (ha : a = .silent) : Moves s l s' a q (Pc.entry role)
  | crashes (hl : l = .crash q) (ha : a = .silent) : Moves s l s' a q .stopped
  | stops {w : Pool} (hl : l = .signal q) (hpc : s.procs q = .heartbeat w) (ha : a = .silent) :
      Moves s l s' a q (.offline w)
  | finishes {w : Pool} {job : Job} {outcome : Except String Unit}
      (hl : l = .finish q outcome) (hpc : s.procs q = .process w job)
      (ha : a = .processReturned q job.id outcome.isOk) :
      Moves s l s' a q (Pc.processed w job outcome)
  | runs {m : Mode} {e : Env} {cmd : Cmd} {next : Reply → Pc} {r : Reply}
      (hl : l = .run q m e) (hran : Ran s q m e s' a cmd next r) :
      Moves s l s' a q (next (heard m r))

theorem step_moves {s s' : State} {l : Label} {a : Act} (h : step s l = some (s', a))
    (q : Pid) : Moves s l s' a q (s'.procs q) := by
  cases l with
  | tick now =>
    cases h
    exact .stays id
  | start p role =>
    simp only [step] at h
    split at h <;> cases h
    next hp =>
    by_cases hq : q = p
    · subst hq
      simpa [State.moveTo] using Moves.starts rfl hp rfl
    · simpa [State.moveTo, hq] using Moves.stays id
  | signal p =>
    simp only [step] at h
    split at h <;> cases h
    next w hp =>
    by_cases hq : q = p
    · subst hq
      simpa [State.moveTo] using Moves.stops rfl hp rfl
    · simpa [State.moveTo, hq] using Moves.stays id
  | crash p =>
    cases h
    by_cases hq : q = p
    · subst hq
      simpa [State.moveTo] using Moves.crashes rfl rfl
    · simpa [State.moveTo, hq] using Moves.stays id
  | finish p outcome =>
    simp only [step] at h
    split at h <;> cases h
    next w job hp =>
    by_cases hq : q = p
    · subst hq
      simpa [State.moveTo] using Moves.finishes rfl hp rfl
    · have ha : ¬ actedBy q (.processReturned p job.id outcome.isOk) := Ne.symm hq
      simpa [State.moveTo, hq] using Moves.stays ha
  | run p m e =>
    obtain ⟨cmd, next, r, hran⟩ := step_run h
    by_cases hq : q = p
    · subst hq
      simpa [hran.procs_self] using Moves.runs rfl hran
    · have ha : ¬ actedBy q a := fun ha => hq (actedBy_observe (hran.act ▸ ha)).symm
      simpa [hran.procs_other hq] using Moves.stays ha

/-- A relation that holds for each way to move without a command holds for each goroutine. -/
theorem local_moves {R : Pc → Pc → Prop} {s s' : State} {l : Label} {a : Act}
    (h : step s l = some (s', a)) (hl : ∀ p m e, l ≠ .run p m e) (hstays : ∀ pc, R pc pc)
    (hstarts : ∀ pc, EntryPoint pc → R .idle pc)
    (hcrashes : ∀ q, l = .crash q → R (s.procs q) .stopped)
    (hstops : ∀ w, R (.heartbeat w) (.offline w))
    (hfinishes : ∀ w job outcome, R (.process w job) (Pc.processed w job outcome)) (q : Pid) :
    R (s.procs q) (s'.procs q) := by
  have hm := step_moves h q
  generalize s'.procs q = pc at hm
  cases hm with
  | stays => exact hstays _
  | starts _ hidle =>
    rw [hidle]
    exact hstarts _ (entry_point _)
  | crashes hcrash => exact hcrashes q hcrash
  | @stops w _ hpc =>
    rw [hpc]
    exact hstops w
  | @finishes w job outcome _ hpc =>
    rw [hpc]
    exact hfinishes w job outcome
  | runs hrun => exact absurd hrun (hl _ _ _)

end JobFlow.Runs.Steps
