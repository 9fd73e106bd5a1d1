import JobFlow.Runs.Entries

/-!
# No waiting job is lost

A row that says queued or retrying is of use only while its id stands in Redis or
some goroutine still owes it a step. `PromoteRetries` removes an id after it has
enqueued it, so an `EnqueueAfter` of the same id in between is undone. In runs
without that overlap, without failing commands and without stops, every waiting
job stays deliverable.
-/

namespace JobFlow.Runs.Delivery

open JobFlow.Model
open JobFlow.Model.JobRepository
open JobFlow.Model.RedisQueue
open JobFlow.Lib.Transition
open ControlFlow Steps Carried Entries

/-- The points that still owe the job an enqueue or a start. -/
def owes (id : String) : Pc → Prop
  | .createEnqueue job | .retryEnqueue job | .enqueueAfter _ job => job.id = id
  | .promoteEnqueue job jobs => ∃ j ∈ job :: jobs, j.id = id
  | .promotePublish _ jobs => ∃ j ∈ jobs, j.id = id
  | .countFailed _ job => job.id = id ∧ job.status = .retrying
  | .markRunning _ i => i = id
  | _ => False

instance (id : String) (pc : Pc) : Decidable (owes id pc) := by
  cases pc <;> unfold owes <;> infer_instance

/-- `PromoteRetries` has enqueued the id and not yet removed it. -/
def removing (id : String) : Pc → Prop
  | .retriesRemove i _ => i = id
  | _ => False

/-- Every command succeeds and no process stops. -/
def Calm (s : State) : Label → Prop
  | .run p m e => m = .ok ∧ (advance s.world (s.procs p) m e).all fun x => !x.2.2.commandFailed
  | .crash _ | .signal _ => False
  | _ => True

instance (s : State) (l : Label) : Decidable (Calm s l) := by
  unfold Calm
  split <;> infer_instance

/-- The goroutine is between two operations. -/
def atRest : Pc → Bool
  | .idle | .stopped | .returned _ | .schedulerTick | .dequeue _ _ | .heartbeat _
  | .offline _ => true
  | _ => false

/-- No operation is half done. -/
def Quiescent (s : State) : Prop := ∀ p, atRest (s.procs p)

/-- An execution about finitely many goroutines is quiescent if these are at rest. -/
theorem quiescent_outcome {ls : List Label} (h : (execute step State.initial ls).isSome) (n : Nat)
    (hpid : ∀ l ∈ ls, (Label.pid l).all (· < n))
    (hrest : ∀ p < n, atRest ((outcome step State.initial ls h).1.procs p)) :
    Quiescent (outcome step State.initial ls h).1 := by
  intro p
  by_cases hp : p < n
  · exact hrest p hp
  · rw [outcome_procs h]
    · rfl
    · intro l hl hlp
      exact hp (by simpa [hlp] using hpid l hl)

/-- Every command succeeds, and a process stops only between two operations. -/
def Steady (s : State) : Label → Prop
  | .run p m e => m = .ok ∧ (advance s.world (s.procs p) m e).all fun x => !x.2.2.commandFailed
  | .crash p => atRest (s.procs p)
  | _ => True

instance (s : State) (l : Label) : Decidable (Steady s l) := by
  unfold Steady
  split <;> infer_instance

/-- The same, except that PostgreSQL may refuse a statement about the workers. -/
def Available (s : State) : Label → Prop
  | .run p m e => m = .ok ∧ (advance s.world (s.procs p) m e).all fun x =>
      !x.2.2.commandFailed || (s.procs p).code.any fun c => Cmd.usesWorkers c.1
  | .crash p => atRest (s.procs p)
  | _ => True

instance (s : State) (l : Label) : Decidable (Available s l) := by
  unfold Available
  split <;> infer_instance

theorem Steady.available {s : State} {l : Label} (h : Steady s l) : Available s l := by
  cases l with
  | run p m e =>
    obtain ⟨hm, hok⟩ := h
    refine ⟨hm, ?_⟩
    rw [Option.all_eq_true] at hok ⊢
    exact fun x hx => by rw [hok x hx, Bool.true_or]
  | start | tick | finish | crash | signal => exact h

theorem Calm.steady {s : State} {l : Label} (h : Calm s l) : Steady s l := by
  cases l with
  | crash p => exact h.elim
  | signal p => trivial
  | tick | start | finish | run => exact h

/-- No goroutine but `k` is started as the scheduler. -/
def OneScheduler (k : Pid) : Label → Prop
  | .start p .scheduler => p = k
  | _ => True

instance (k : Pid) (l : Label) : Decidable (OneScheduler k l) := by
  unfold OneScheduler
  split <;> infer_instance

/-- No `EnqueueAfter` of a job runs while `PromoteRetries` is between its `Enqueue`
and its `ZREM` of the same job. -/
def Apart (s : State) : Label → Prop
  | .run p _ _ => ∀ pool job, s.procs p = .enqueueAfter pool job →
      ∀ q, ¬ removing job.id (s.procs q)
  | _ => True

/-- The caller of a command hears what the store replied, and the store refuses nothing but
statements about the workers. -/
theorem Available.command {s s' : State} {p : Pid} {m : Mode} {e : Env} {a : Act} {cmd : Cmd}
    {next : Reply → Pc} {r : Reply} (hc : Available s (.run p m e))
    (hran : Ran s p m e s' a cmd next r) :
    m = .ok ∧ exec s.world e cmd = some (s'.world, r) ∧
      (Cmd.usesWorkers cmd = false → r.commandFailed = false) := by
  obtain ⟨rfl, hok⟩ := hc
  have hx := hran.effect_ok
  refine ⟨rfl, hx, fun hno => ?_⟩
  simpa [advance, hran.code, hx, hno] using hok

/-- In a steady run it refuses nothing. -/
theorem Steady.command {s s' : State} {p : Pid} {m : Mode} {e : Env} {a : Act} {cmd : Cmd}
    {next : Reply → Pc} {r : Reply} (hc : Steady s (.run p m e))
    (hran : Ran s p m e s' a cmd next r) :
    m = .ok ∧ exec s.world e cmd = some (s'.world, r) ∧ r.commandFailed = false := by
  obtain ⟨rfl, hok⟩ := hc
  have hx := hran.effect_ok
  exact ⟨rfl, hx, by simpa [advance, hran.code, hx] using hok⟩

/-- The job can still be picked up. -/
def Deliverable (s : State) (id : String) (r : Job) : Prop :=
  s.world.redis.zscore (queueKey r.queueName) id ≠ none ∨
  s.world.redis.zscore retriesKey id ≠ none ∨ ∃ p, owes id (s.procs p)

/-- The same, not counting an entry that is about to be removed. -/
def Kept (s : State) (id : String) (r : Job) : Prop :=
  s.world.redis.zscore (queueKey r.queueName) id ≠ none ∨ (∃ p, owes id (s.procs p)) ∨
  (s.world.redis.zscore retriesKey id ≠ none ∧ ∀ p, ¬ removing id (s.procs p))

theorem Kept.deliverable {s : State} {id : String} {r : Job} (h : Kept s id r) :
    Deliverable s id r := by
  rcases h with h | h | ⟨h, -⟩
  · exact .inl h
  · exact .inr (.inr h)
  · exact .inr (.inl h)

/-- The row waits to be started. -/
def Waiting (r : Job) : Prop := r.status = .queued ∨ r.status = .retrying

/-- A statement that makes a row wait inserts it, revives it, promotes it or marks
it failed with attempts left. -/
theorem touched_waiting {s : State} {l : Label} {id : String} {a : Act} {old : Option Job} {r : Job}
    (h : RowStep s l id a old (some r)) (ht : touches id a) (hw : Waiting r) :
    (a = .created id ∧ r.status = .queued) ∨ a = .requeued id ∨
    (∃ ids, a = .promoted ids ∧ id ∈ ids) ∨
    ∃ p st n now, a = .markedFailed p id st n now ∧ r.status = .retrying := by
  cases h with
  | same hn => exact absurd ht hn
  | created hl hpc hnew =>
    rcases newRow_status hnew with ⟨hst, -⟩ | ⟨hst, -⟩
    · simp [Waiting, hst] at hw
    · exact .inl ⟨rfl, hst⟩
  | cancelled => simp [Waiting, cancelSet] at hw
  | requeued => exact .inr (.inl rfl)
  | promoted hpc hid => exact .inr (.inr (.inl ⟨_, rfl, hid⟩))
  | running => simp [Waiting, runningSet] at hw
  | completed => simp [Waiting, completedSet] at hw
  | failed hpc hid =>
    refine .inr (.inr (.inr ⟨_, _, _, _, rfl, hw.resolve_left ?_⟩))
    simp only [failedSet]
    split <;> simp

/-- Whoever makes a row wait owes it the next step. -/
theorem owes_of_act {w w' : World} {e : Env} {p : Pid} {pc pc' : Pc} {now : Time} {cmd : Cmd}
    {r : Reply} {id : String} {row : Job} (hf : Follows pc cmd r pc')
    (hx : exec w e cmd = some (w', r)) (hrow : w'.jobs.find id = some row)
    (h : (observe p pc now r = .created id ∧ row.status = .queued) ∨
      observe p pc now r = .requeued id ∨
      (∃ ids, observe p pc now r = .promoted ids ∧ id ∈ ids) ∨
      ∃ q st n t, observe p pc now r = .markedFailed q id st n t ∧ row.status = .retrying) :
    owes id pc' := by
  have hjob : ∀ job, r = .job job → job.id = id → row = job := by
    rintro job rfl rfl
    have hf := exec_rows hx job List.mem_cons_self
    exact Option.some.inj (hrow.symm.trans hf)
  rcases h with ⟨h, hst⟩ | h | ⟨ids, h, hid⟩ | ⟨q, st, n, t, h, hst⟩
  · obtain ⟨params, job, rfl, rfl, hid⟩ := observe_created h
    cases hf with
    | inserted => exact hid
    | insertedLater hne => exact absurd (hjob job rfl hid ▸ hst) hne
    | insertFailed hr => exact absurd rfl (hr _)
  · obtain ⟨i, userID, job, rfl, rfl, hid⟩ := observe_requeued h
    cases hf with
    | retryUpdated => exact hid
    | retryFailed hr => exact absurd rfl (hr _)
  · obtain ⟨jobs, rfl, rfl, rfl⟩ := observe_promoted h
    cases hf with
    | ready => exact List.mem_map.mp hid
    | noneReady => cases hid
    | readyFailed hr => exact absurd rfl (hr _)
  · obtain ⟨w, i, message, job, rfl, rfl, hid, -⟩ := observe_markedFailed h
    cases hf with
    | failed => exact ⟨hid, hjob job rfl hid ▸ hst⟩
    | notFailed hr => exact absurd rfl (hr _)

/-- A waiting row does not stay as it is when `MarkRunning` runs. -/
theorem markRunning_moves {w w' : World} {e : Env} {id : String} {r : Reply} {row : Job}
    (hx : exec w e (.markRunning id) = some (w', r)) (hrow : w.jobs.find id = some row)
    (hw : Waiting row) : w'.jobs.find id ≠ some row := by
  simp only [exec, Option.some.injEq] at hx
  obtain ⟨rfl, -⟩ := Prod.mk.inj hx
  rcases markRunning_cases w.jobs w.clock id with ⟨r₁, -, -, -, hset⟩ | ⟨hno, -⟩
  · intro hrow'
    cases hset.symm.trans hrow'
    simp [Waiting, runningSet] at hw
  · refine absurd ?_ (hno row hrow)
    simpa [runningWhere, JobTable.find_id hrow, Waiting] using hw

/-- A goroutine that owes the job a step and takes one has made the job deliverable
by it, or owes the next step, as long as the row still waits. -/
theorem owes_handedOn {s s' : State} {p : Pid} {e : Env} {a : Act} {cmd : Cmd}
    {next : Reply → Pc} {r : Reply} {id : String} {row' : Job} (hcar : CarriesRows s)
    (hran : Ran s p .ok e s' a cmd next r)
    (hok : Cmd.usesWorkers cmd = false → r.commandFailed = false)
    (ho : owes id (s.procs p)) (hrow : row s id = some row') (hrow' : row s' id = some row')
    (hw : Waiting row') :
    owes id (next r) ∨ s'.world.redis.zscore (queueKey row'.queueName) id ≠ none ∨
    (s'.world.redis.zscore retriesKey id ≠ none ∧
      ∃ w job, s.procs p = .enqueueAfter w job ∧ job.id = id) := by
  have hx := hran.effect_ok
  have hqueue : ∀ job ∈ carries (s.procs p), job.id = id → job.queueName = row'.queueName := by
    rintro job hj rfl
    obtain ⟨r₁, hr₁, hsame⟩ := hcar p job hj
    rw [hrow] at hr₁
    cases hr₁
    exact hsame.queueName
  have hput : ∀ job ∈ carries (s.procs p), job.id = id → cmd = .enqueue job →
      s'.world.redis.zscore (queueKey row'.queueName) id ≠ none := by
    rintro job hj rfl rfl
    cases exec_enqueue_reply hx (hok rfl)
    rw [← hqueue job hj rfl, exec_enqueue_done hx]
    simp
  have hf := follows hran.code r
  generalize next r = pc' at hf
  generalize hpc : s.procs p = pc at hf ho hput
  cases hf with
  | createEnqueued | retryEnqueued => exact .inr (.inl (hput _ List.mem_cons_self ho rfl))
  | createEnqueueFailed hr | retryEnqueueFailed hr | promoteFailed hr =>
    exact absurd (exec_enqueue_reply hx (hok rfl)) hr
  | promoteEnqueued =>
    obtain ⟨j, hj, hid⟩ := ho
    rcases List.mem_cons.mp hj with rfl | hj
    · exact .inr (.inl (hput j List.mem_cons_self hid rfl))
    · exact .inl ⟨j, hj, hid⟩
  | promotePublished => exact .inl ho
  | promotedLast =>
    obtain ⟨j, hj, -⟩ := ho
    cases hj
  | @delayed w job =>
    obtain rfl : job.id = id := ho
    cases exec_enqueueAfter_reply hx (hok rfl)
    exact .inr (.inr ⟨by simp [exec_enqueueAfter_done hx], w, job, rfl, rfl⟩)
  | failedCounted => exact .inl ho.1
  | lastCounted hst => exact absurd ho.2 hst
  | @started w i | @notStarted w i =>
    obtain rfl : i = id := ho
    exact absurd hrow' (markRunning_moves hx hrow hw)
  | _ => exact ho.elim

/-- `ZPOPMIN` hands the id to the goroutine that issued it. -/
theorem pop_owes {pc pc' : Pc} {name id : String}
    (hf : Follows pc (.pop name) (.popped (some id)) pc') : owes id pc' := by
  cases hf with
  | popped => rfl
  | popFailed hr => exact absurd rfl (hr _)

/-- `PromoteRetries` comes to remove an id after its `Enqueue`, or because it has
found no row. -/
theorem removing_next {pc pc' : Pc} {cmd : Cmd} {r : Reply} {id : String}
    (hf : Follows pc cmd r pc') (h : removing id pc') :
    (∃ job ids, pc = .retriesEnqueue job id ids) ∨
    ∃ ids, pc = .retriesFind id ids ∧ ∀ job, r ≠ .job job := by
  cases hf with
  | @notFound i ids _ hr =>
    obtain rfl : i = id := h
    exact .inr ⟨ids, rfl, hr⟩
  | @retriesEnqueued job i ids =>
    obtain rfl : i = id := h
    exact .inl ⟨job, ids, rfl⟩
  | _ => exact h.elim

/-- Only `PromoteRetries` removes entries from the retry set. -/
theorem removing_of_code {pc pc' : Pc} {id : String} {r : Reply}
    (hf : Follows pc (.removeRetry id) r pc') : removing id pc := by
  cases hf <;> rfl

/-- The job `PromoteRetries` is about to enqueue is the one it looked up. -/
def FoundByID (s : State) : Prop :=
  ∀ p job id ids, s.procs p = .retriesEnqueue job id ids → job.id = id

theorem found_next {pc : Pc} {cmd : Cmd} {r : Reply} {job : Job} {id : String} {ids : List String}
    (hf : Follows pc cmd r (.retriesEnqueue job id ids)) : cmd = .findJob id ∧ r = .job job := by
  cases hf
  exact ⟨rfl, rfl⟩

theorem foundByID_run {ok : State → Label → Prop} {tr : List Act} {s : State}
    (h : Run step ok State.initial tr s) : FoundByID s := by
  refine h.invariant (I := fun _ s => FoundByID s) (fun _ _ _ _ h => by cases h) ?_
  rintro tr s s' l a - ih - hs p job id ids hp
  have hm := step_moves hs p
  rw [hp] at hm
  generalize hpc : Pc.retriesEnqueue job id ids = pc at hm
  cases hm with
  | stays => exact ih p job id ids hpc.symm
  | @starts role =>
    have hno := carries_entry (entry_point role)
    rw [← hpc] at hno
    cases hno
  | crashes | stops => cases hpc
  | @finishes w job outcome => cases outcome <;> cases hpc
  | runs hl hran =>
    obtain ⟨rfl, hr⟩ := found_next (hpc ▸ follows hran.code _)
    rcases hran.effect with ⟨-, hx⟩ | ⟨-, -, rfl⟩
    · rcases exec_findJob hx with ⟨job', rfl, -, hid⟩ | ⟨rfl, -⟩
      · cases heard_job hr
        exact hid
      · cases heard_job hr
    · cases heard_job hr

/-- Every waiting row is kept. -/
def AllKept (s : State) : Prop := ∀ id r, row s id = some r → Waiting r → Kept s id r

theorem not_owes_of_atRest (id : String) {pc : Pc} (h : atRest pc) : ¬ owes id pc := by
  cases pc <;> first | exact fun ho => ho | exact absurd h (by simp [atRest])

theorem not_removing_entry (id : String) {pc : Pc} (h : EntryPoint pc) : ¬ removing id pc := by
  cases h <;> exact fun hr => hr

/-- A step that issues no command keeps what is owed. -/
theorem owes_local {s s' : State} {l : Label} {a : Act} {id : String} (havail : Available s l)
    (h : step s l = some (s', a)) (hno : ∀ p m e, l ≠ .run p m e) (q : Pid) :
    (owes id (s.procs q) → owes id (s'.procs q)) ∧
    (removing id (s'.procs q) → removing id (s.procs q)) := by
  refine local_moves (R := fun pc pc' => (owes id pc → owes id pc') ∧
    (removing id pc' → removing id pc)) h hno (fun _ => ⟨fun ho => ho, fun hr => hr⟩) ?_ ?_ ?_ ?_ q
  · exact fun pc hpc => ⟨False.elim, fun hr => absurd hr (not_removing_entry id hpc)⟩
  · intro p hp
    subst hp
    exact ⟨fun ho => absurd ho (not_owes_of_atRest id havail), False.elim⟩
  · exact fun w => ⟨False.elim, False.elim⟩
  · intro w job outcome
    cases outcome <;> exact ⟨False.elim, False.elim⟩

/-- A goroutine comes to remove a row from the delayed ones when it has enqueued it. -/
theorem removing_enqueued {s s' : State} {p : Pid} {e : Env} {a : Act} {cmd : Cmd}
    {next : Reply → Pc} {r : Reply} {id : String} {row' : Job} (hcar : CarriesRows s)
    (hfound : FoundByID s) (hran : Ran s p .ok e s' a cmd next r)
    (hok : Cmd.usesWorkers cmd = false → r.commandFailed = false)
    (hrow : row s id = some row') (hrem : removing id (next r)) :
    s'.world.redis.zscore (queueKey row'.queueName) id ≠ none := by
  have hx := hran.effect_ok
  have hcode := hran.code
  rcases removing_next (follows hran.code _) hrem with ⟨job, ids, hpc⟩ | ⟨ids, hpc, hnojob⟩
  · have hid := hfound p job id ids hpc
    rw [hpc] at hcode
    cases hcode
    cases exec_enqueue_reply hx (hok rfl)
    obtain ⟨r₁, hr₁, hsame⟩ := hcar p job (by simp [hpc, carries])
    rw [hid, hrow] at hr₁
    cases hr₁
    rw [← hid, ← hsame.queueName, exec_enqueue_done hx]
    simp
  · rw [hpc] at hcode
    cases hcode
    rcases exec_findJob hx with ⟨job, rfl, -⟩ | ⟨-, hnone⟩
    · exact absurd rfl (hnojob job)
    · cases hrow.symm.trans hnone

/-- One command keeps a row that it leaves as it is. -/
theorem kept_command {s s' : State} {p : Pid} {e : Env} {a : Act} {cmd : Cmd} {next : Reply → Pc}
    {r : Reply} {id : String} {row' : Job} (hcar : CarriesRows s) (hfound : FoundByID s)
    (hran : Ran s p .ok e s' a cmd next r)
    (hok : Cmd.usesWorkers cmd = false → r.commandFailed = false)
    (hapart : Apart s (.run p .ok e)) (hrow : row s id = some row')
    (hrow' : row s' id = some row') (hw : Waiting row') (hk : Kept s id row') :
    Kept s' id row' := by
  have hx := hran.effect_ok
  have hself : s'.procs p = next r := hran.procs_self
  have hother : ∀ q, q ≠ p → s'.procs q = s.procs q := fun q => hran.procs_other
  rcases hk with hq | ⟨q, ho⟩ | ⟨hret, hfree⟩
  · have hent := exec_entry hx (queueKey row'.queueName) id
    generalize hsc : s'.world.redis.zscore (queueKey row'.queueName) id = sc at hent
    cases hent with
    | same => exact .inl (by rwa [hsc])
    | enqueued => exact .inl (by simp [hsc])
    | delayed _ _ hk => exact absurd hk (queueKey_ne_retriesKey _)
    | removed _ _ hk => exact absurd hk (queueKey_ne_retriesKey _)
    | popped hcmd hr =>
      subst hcmd hr
      exact .inr (.inl ⟨p, hself ▸ pop_owes (follows hran.code _)⟩)
  · by_cases hqp : q = p
    · subst hqp
      rcases owes_handedOn hcar hran hok ho hrow hrow' hw with ho | hq | ⟨hret, w, job, hpc, hid⟩
      · exact .inr (.inl ⟨q, hself ▸ ho⟩)
      · exact .inl hq
      · refine .inr (.inr ⟨hret, fun q' hq' => ?_⟩)
        by_cases hqp' : q' = q
        · subst hqp'
          rcases removing_next (follows hran.code _) (hself ▸ hq') with
            ⟨_, _, hpc'⟩ | ⟨_, hpc', -⟩ <;> cases hpc.symm.trans hpc'
        · rw [hother q' hqp'] at hq'
          exact hapart w job hpc q' (hid ▸ hq')
    · exact .inr (.inl ⟨q, by rwa [hother q hqp]⟩)
  · have hent := exec_entry hx retriesKey id
    generalize hsc : s'.world.redis.zscore retriesKey id = sc at hent
    have hrest : sc ≠ none → Kept s' id row' := by
      intro hne
      by_cases hrem : removing id (s'.procs p)
      · exact .inl (removing_enqueued hcar hfound hran hok hrow (hself ▸ hrem))
      · refine .inr (.inr ⟨by rwa [hsc], fun q hq => ?_⟩)
        by_cases hqp : q = p
        · exact hrem (hqp ▸ hq)
        · exact hfree q (by rwa [hother q hqp] at hq)
    cases hent with
    | same => exact hrest hret
    | enqueued _ _ hk => exact absurd hk.symm (queueKey_ne_retriesKey _)
    | delayed => exact hrest (by simp)
    | removed hcmd =>
      subst hcmd
      exact absurd (removing_of_code (follows hran.code r)) (hfree p)
    | popped _ _ hk => exact absurd hk.symm (queueKey_ne_retriesKey _)

theorem allKept_step {s s' : State} {l : Label} {a : Act} (hcar : CarriesRows s)
    (hfound : FoundByID s) (havail : Available s l) (hapart : Apart s l) (hk : AllKept s)
    (h : step s l = some (s', a)) : AllKept s' := by
  intro id r' hr' hw
  by_cases ht : touches id a
  · rcases step_run_or_not h with ⟨p, m, e, cmd, next, r, rfl, hran⟩ | hl
    · obtain ⟨rfl, hx, -⟩ := havail.command hran
      have htouched := touched_waiting (hr' ▸ step_row h id) ht hw
      rw [hran.act] at htouched
      refine .inr (.inl ⟨p, ?_⟩)
      simpa [hran.procs_self, heard] using owes_of_act (follows hran.code r) hx hr' htouched
    · rcases (step_local h hl).2 with rfl | ⟨_, _, _, rfl⟩ <;> exact ht.elim
  · have hrow := row_of_not_touches h ht
    rw [hr'] at hrow
    have hkept := hk id r' hrow.symm hw
    rcases step_run_or_not h with ⟨p, m, e, cmd, next, r, rfl, hran⟩ | hl
    · obtain ⟨rfl, -, hok⟩ := havail.command hran
      exact kept_command hcar hfound hran hok hapart hrow.symm hr' hw hkept
    · have hloc : ∀ q, (owes id (s.procs q) → owes id (s'.procs q)) ∧
          (removing id (s'.procs q) → removing id (s.procs q)) := owes_local havail h hl
      have hred : s'.world.redis = s.world.redis := by
        rcases (step_local h hl).1 with hw' | ⟨_, -, hw'⟩ <;> rw [hw']
      unfold Kept at hkept ⊢
      rw [hred]
      rcases hkept with hq | ⟨q, ho⟩ | ⟨hret, hfree⟩
      · exact .inl hq
      · exact .inr (.inl ⟨q, (hloc q).1 ho⟩)
      · exact .inr (.inr ⟨hret, fun q hq => hfree q ((hloc q).2 hq)⟩)

theorem allKept_run {ok : State → Label → Prop} {tr : List Act} {s : State}
    (hok : ∀ s l, ok s l → Available s l ∧ Apart s l) (h : Run step ok State.initial tr s) :
    AllKept s := by
  refine h.invariant (I := fun _ s => AllKept s) (fun _ _ h => by cases h) ?_
  rintro tr s s' l a hrun ih ho hs
  obtain ⟨havail, hapart⟩ := hok s l ho
  exact allKept_step (carried_run hrun) (foundByID_run hrun) havail hapart ih hs

/-- In every run without failing commands and stops, with any number of requests,
schedulers and workers, in which no `EnqueueAfter` of a job falls between the
`Enqueue` and the `ZREM` of `PromoteRetries` for the same job, every job that is
queued or retrying can still be picked up. -/
theorem no_job_lost {tr : List Act} {s : State}
    (h : Run step (fun s l => Calm s l ∧ Apart s l) State.initial tr s) {id : String} {r : Job}
    (hr : row s id = some r) (hw : r.status = .queued ∨ r.status = .retrying) :
    Deliverable s id r := by
  have hk : AllKept s := allKept_run (fun _ _ ho => ⟨ho.1.steady.available, ho.2⟩) h
  exact (hk id r hr hw).deliverable

/-- The step is no `EnqueueAfter`. -/
def noDelay (s : State) : Label → Bool
  | .run p _ _ => match s.procs p with
    | .enqueueAfter _ _ => false
    | _ => true
  | _ => true

theorem apart_of_noDelay {s : State} {l : Label} (h : noDelay s l) : Apart s l := by
  cases l
  case run p m e =>
    intro pool job hpc
    simp [noDelay, hpc] at h
  all_goals trivial

/-- A job is created (0) and a worker (1) has popped its id. -/
def popped : List Label :=
  [.start 0 (.request (.create ⟨"u1", "default", "send_email", none, 0, 3, none⟩)),
    .run 0 .ok { freshID := "j1" }, .run 0 .ok {},
    .start 1 (.worker ⟨"00000000000000000000000000000001", "host", ["default"]⟩), .run 1 .ok {}]

theorem popped_runs : (execute step State.initial popped).isSome := by decide

theorem popped_row : (row (outcome step State.initial popped popped_runs).1 "j1").isSome := by
  decide

theorem no_job_lost_popped : ∃ tr s r,
    Run step (fun s l => Calm s l ∧ Apart s l) State.initial tr s ∧ row s "j1" = some r ∧
    r.status = .queued ∧ s.world.redis.zscore (queueKey r.queueName) "j1" = none ∧
    Deliverable s "j1" r := by
  have hrun := Run.of_outcome popped_runs
    (show Admitted step (fun s l => Calm s l ∧ noDelay s l) _ _ by decide)
  have hcond := hrun.mono fun s l hc => And.intro hc.1 (apart_of_noDelay hc.2)
  have hrow := (Option.some_get popped_row).symm
  exact ⟨_, _, _, hcond, hrow, by decide, by decide, no_job_lost hcond hrow (.inl (by decide))⟩

/-- A worker (1) fails a job, the scheduler (2) enqueues it again, and before the
scheduler removes it from the retry set the worker fails it once more. -/
def lostRetry : List Label :=
  [.start 0 (.request (.create ⟨"u1", "default", "force_fail", none, 0, 3, none⟩)),
    .run 0 .ok { freshID := "j1" }, .run 0 .ok {}, .run 0 .ok {},
    .start 1 (.worker ⟨"00000000000000000000000000000001", "host", ["default"]⟩),
    .run 1 .ok {}, .run 1 .ok {}, .run 1 .ok {}, .finish 1 (.error "forced failure"),
    .run 1 .ok {}, .run 1 .ok {}, .run 1 .ok {}, .run 1 .ok {},
    .tick 2000000,
    .start 2 .scheduler, .run 2 .ok {}, .run 2 .ok { reading := 2000000 },
    .run 2 .ok {}, .run 2 .ok { reading := 2000000 },
    .run 1 .ok {}, .run 1 .ok {}, .run 1 .ok {}, .finish 1 (.error "forced failure"),
    .run 1 .ok {}, .run 1 .ok {}, .run 1 .ok { reading := 2000000 }, .run 2 .ok {}]

theorem lostRetry_runs : (execute step State.initial lostRetry).isSome := by decide

theorem lostRetry_row :
    (row (outcome step State.initial lostRetry lostRetry_runs).1 "j1").isSome := by decide

theorem lostRetry_owes (p : Pid) :
    ¬ owes "j1" ((outcome step State.initial lostRetry lostRetry_runs).1.procs p) := by
  match p with
  | 0 | 1 | 2 => decide
  | p + 3 =>
    rw [outcome_procs]
    · exact fun h => h
    · intro l hl heq
      have hpid : ∀ l ∈ lostRetry, (Label.pid l).all (· < 3) := by decide
      simpa [heq] using hpid l hl

theorem retry_lost : ¬ ∀ k tr s, Run step (fun s l => Calm s l ∧ OneScheduler k l)
    State.initial tr s → ∀ id r, row s id = some r →
    (r.status = .queued ∨ r.status = .retrying) → Deliverable s id r := by
  intro hall
  have hrun := Run.of_outcome lostRetry_runs
    (show Admitted step (fun s l => Calm s l ∧ OneScheduler 2 l) _ _ by decide)
  rcases hall 2 _ _ hrun "j1" _ (Option.some_get lostRetry_row).symm (.inr (by decide)) with
    hq | hr | ⟨p, hp⟩
  · exact hq (by decide)
  · exact hr (by decide)
  · exact lostRetry_owes p hp

end JobFlow.Runs.Delivery
