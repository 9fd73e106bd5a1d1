import JobFlow.Lib.Handoff
import JobFlow.Runs.Batches
import JobFlow.Runs.Delivery

/-!
# One token for each job

A job is a token that lies in its queue or is held by a goroutine. Only
`PromoteRetries` makes a token out of nothing, from an id it has read before. As
long as no worker has the job at that time there is never more than one token of
a job that can still be retried, whatever fails or stops.
-/

namespace JobFlow.Runs.Tokens

open JobFlow.Lib
open JobFlow.Model
open JobFlow.Model.JobRepository
open JobFlow.Model.RedisQueue
open JobFlow.Lib.Transition
open ControlFlow Steps Carried Entries Budget Batches
open Delivery (FoundByID)

variable {s s' : State} {l : Label} {a : Act} {p q : Pid} {m : Mode} {e : Env} {cmd : Cmd}
  {next : Reply → Pc} {r : Reply} {id : String} {pc pc' : Pc} {old new : Option Job} {job : Job}
  {tr tr' : List Act}

/-- The goroutine has made the job wait and not yet enqueued it. -/
def readies (id : String) : Pc → Prop
  | .createEnqueue job | .retryEnqueue job => job.id = id
  | pc => ∃ j ∈ promotes pc, j.id = id

/-- The worker has popped the job and is not yet done with it. -/
def handles (id : String) : Pc → Prop
  | .markRunning _ i => i = id
  | .publishRunning _ job | .process _ job | .markCompleted _ job | .markFailed _ job _
  | .enqueueAfter _ job => job.id = id
  | .countFailed _ job => job.id = id ∧ job.status = .retrying
  | _ => False

instance (id : String) (pc : Pc) : Decidable (handles id pc) := by
  induction pc using Pc.casesOn <;> dsimp only [handles] <;> infer_instance

theorem delays_handles {job : Job} {pc : Pc} (h : delays pc = some job) : handles job.id pc := by
  cases pc <;> simp only [delays, reduceCtorEq] at h
  case countFailed =>
    split at h <;> cases h
    next hst => exact ⟨rfl, hst⟩
  case enqueueAfter =>
    cases h
    rfl

def holds (id : String) (pc : Pc) : Prop := readies id pc ∨ handles id pc

inductive Place where
  | queue
  | holder (p : Pid)

/-- Where the token of a job is. -/
def places (s : State) (id : String) : Set Place := fun
  | .queue => ∃ name, s.world.redis.zscore (queueKey name) id ≠ none
  | .holder p => holds id (s.procs p)

theorem mem_places_holder : .holder p ∈ places s id ↔ holds id (s.procs p) := Iff.rfl

theorem not_readies (h : promotes pc = []) (hc : ∀ job, pc ≠ .createEnqueue job)
    (hr : ∀ job, pc ≠ .retryEnqueue job) : ¬ readies id pc := by
  intro hp
  cases pc <;> first
    | exact hc _ rfl
    | exact hr _ rfl
    | (obtain ⟨j, hj, -⟩ := hp; rw [h] at hj; cases hj)

theorem not_holds (h : promotes pc = []) (hc : ∀ job, pc ≠ .createEnqueue job)
    (hr : ∀ job, pc ≠ .retryEnqueue job) (hh : ¬ handles id pc) : ¬ holds id pc :=
  fun hp => hp.elim (not_readies h hc hr) hh

theorem delays_of_readies (h : readies id pc) : delays pc = none := by
  cases pc <;> first | rfl | (obtain ⟨j, hj, -⟩ := h; cases hj)

theorem not_holds_entry (h : EntryPoint pc) (id : String) : ¬ holds id pc := by
  rintro (hp | hp)
  · refine not_readies (lists_entry h).2.1 ?_ ?_ hp <;> cases h <;> simp
  · cases h <;> exact hp

/-- Where a goroutine that readies a job after a command has it from. -/
inductive ReadiesFrom (id : String) (p : Pid) (pc : Pc) (now : Time) (r : Reply) : Prop
  | kept (h : readies id pc)
  | created {job : Job} (ha : observe p pc now r = .created id) (hr : r = .job job)
      (hid : job.id = id) (hst : job.status = .queued)
  | requeued (ha : observe p pc now r = .requeued id)
  | promoted {ids : List String} (ha : observe p pc now r = .promoted ids) (hid : id ∈ ids)

theorem readies_next (p : Pid) (now : Time) (hf : Follows pc cmd (heard m r) pc')
    (h : readies id pc') : ReadiesFrom id p pc now r := by
  generalize hr : heard m r = reply at hf
  cases hf with
  | @inserted params job hst =>
    have hid : job.id = id := h
    cases heard_job hr
    exact .created (by simp [observe, hid]) rfl hid hst
  | @retryUpdated _ _ job =>
    have hid : job.id = id := h
    cases heard_job hr
    exact .requeued (by simp [observe, hid])
  | ready =>
    obtain rfl := heard_eq hr (by simp)
    exact .promoted rfl (List.mem_map.mpr h)
  | promoteEnqueued =>
    obtain ⟨j, hj, hid⟩ := h
    exact .kept ⟨j, List.mem_cons_of_mem _ hj, hid⟩
  | promotePublished => exact .kept h
  | _ => exact absurd h (not_readies rfl (by simp) (by simp))

/-- Where a worker that handles a job after a command has it from. -/
inductive HandlesFrom (id : String) (p : Pid) (pc : Pc) (now : Time) (cmd : Cmd) (r : Reply) : Prop
  | kept (h : handles id pc)
  | popped {name : String} (hcmd : cmd = .pop name) (hr : r = .popped (some id))
  | started (ha : observe p pc now r = .markedRunning p id now)
  | failed {st : Status} {n : Nat} (ha : observe p pc now r = .markedFailed p id st n now)

theorem handles_next (p : Pid) (now : Time) (hf : Follows pc cmd (heard m r) pc')
    (h : handles id pc') : HandlesFrom id p pc now cmd r := by
  generalize hr : heard m r = reply at hf
  cases hf with
  | @popped _ _ i =>
    obtain rfl : i = id := h
    exact .popped rfl (heard_eq hr (by simp))
  | @started _ _ job =>
    have hid : job.id = id := h
    cases heard_job hr
    exact .started (by simp [observe, hid])
  | @failed w job failedJob message =>
    cases heard_job hr
    have ha : observe p (.markFailed w job message) now (.job failedJob) =
        .markedFailed p id failedJob.status failedJob.attempts now := by simp [observe, h.1]
    exact .failed ha
  | runningPublished => exact .kept h
  | failedCounted hst => exact .kept ⟨h, hst⟩
  | _ => exact h.elim

/-- The row is absent or has a status in which nothing is to be done for it. -/
def Vacant (row : Option Job) : Prop :=
  ∀ r, row = some r → r.status = .scheduled ∨ r.status = .failed ∨ r.status = .deadLetter

/-- The row comes to wait by this step and was vacant before. -/
def Made (old new : Option Job) : Prop := Vacant old ∧ ∃ r, new = some r ∧ r.status = .queued

theorem made_requeued (h : RowStep s l id (.requeued id) old new) : Made old new := by
  cases h with
  | same ht => exact absurd rfl ht
  | requeued hpc hw =>
    simp only [requeueWhere, Bool.and_eq_true, Bool.or_eq_true, decide_eq_true_eq] at hw
    refine ⟨fun r hr => ?_, _, rfl, rfl⟩
    cases hr
    exact .inr hw.2

theorem made_promoted {ids : List String} (h : RowStep s l id (.promoted ids) old new)
    (hid : id ∈ ids) : Made old new := by
  cases h with
  | same ht => exact absurd hid ht
  | promoted hpc hid hd =>
    simp only [isDue, Bool.and_eq_true, decide_eq_true_eq] at hd
    refine ⟨fun r hr => ?_, _, rfl, rfl⟩
    cases hr
    exact .inl hd.1

theorem made_created (h : RowStep s l id (.created id) old (some job))
    (hst : job.status = .queued) : Made old (some job) := by
  cases h with
  | same ht => exact absurd rfl ht
  | created => exact ⟨fun r hr => (by cases hr), job, rfl, hst⟩

/-- Who marks a job running had popped it. -/
theorem running_point {now : Time} (h : RowStep s l id (.markedRunning p id now) old new) :
    ∃ w, s.procs p = .markRunning w id := by
  cases h with
  | same ht => exact absurd rfl ht
  | running hpc hw => exact ⟨_, hpc⟩

/-- Who marks a job failed was executing it. -/
theorem failed_point {st : Status} {n : Nat} {now : Time}
    (h : RowStep s l id (.markedFailed p id st n now) old new) :
    ∃ w job message, s.procs p = .markFailed w job message ∧ job.id = id := by
  cases h with
  | same ht => exact absurd rfl ht
  | failed hpc hid => exact ⟨_, _, _, hpc, hid⟩

/-- A goroutine readies a job if it did before or has made the row wait. -/
theorem readies_from (h : step s l = some (s', a)) (hp : readies id (s'.procs q)) :
    readies id (s.procs q) ∨ Made (row s id) (row s' id) := by
  have hm := step_moves h q
  generalize s'.procs q = pc at hm hp
  cases hm with
  | stays => exact .inl hp
  | starts => exact absurd (.inl hp) (not_holds_entry (entry_point _) id)
  | crashes | stops => exact absurd hp (not_readies rfl (by simp) (by simp))
  | @finishes w job outcome =>
    refine absurd hp (not_readies ?_ ?_ ?_) <;> cases outcome <;> simp [Pc.processed, promotes]
  | @runs m e cmd next r hl hran =>
    have hstep := step_row h id
    rw [hran.act] at hstep
    cases readies_next q s.world.clock (follows hran.code _) hp with
    | kept hp => exact .inl hp
    | @created job ha hr hid hst =>
      rcases hran.effect with ⟨-, hx⟩ | ⟨-, -, herr⟩
      · have hnew := exec_rows hx job (by rw [hr]; exact List.mem_cons_self)
        rw [hid] at hnew
        rw [ha, show row s' id = some job from hnew] at hstep
        rw [show row s' id = some job from hnew]
        exact .inr (made_created hstep hst)
      · cases hr.symm.trans herr
    | requeued ha => exact .inr (made_requeued (ha ▸ hstep))
    | promoted ha hid => exact .inr (made_promoted (ha ▸ hstep) hid)

/-- A worker handles a job if it did before or has popped its id. -/
theorem handles_from (h : step s l = some (s', a)) (hp : handles id (s'.procs q)) :
    handles id (s.procs q) ∨ ∃ m e name next, l = .run q m e ∧
      Ran s q m e s' a (.pop name) next (.popped (some id)) := by
  have hm := step_moves h q
  generalize s'.procs q = pc at hm hp
  cases hm with
  | stays => exact .inl hp
  | starts => exact absurd (.inr hp) (not_holds_entry (entry_point _) id)
  | crashes | stops => exact hp.elim
  | @finishes w job outcome hl hpc =>
    rw [hpc]
    cases outcome <;> exact .inl hp
  | @runs m e cmd next r hl hran =>
    have hstep := step_row h id
    rw [hran.act] at hstep
    cases handles_next q s.world.clock (follows hran.code _) hp with
    | kept hp => exact .inl hp
    | popped hcmd hr =>
      subst hcmd hr
      exact .inr ⟨m, e, _, next, hl, hran⟩
    | started ha =>
      obtain ⟨w, hpc⟩ := running_point (ha ▸ hstep)
      exact .inl (by rw [hpc]; rfl)
    | failed ha =>
      obtain ⟨w, job, message, hpc, hid⟩ := failed_point (ha ▸ hstep)
      exact .inl (by rw [hpc]; exact hid)

/-- An entry of a queue after a command was there before or was enqueued by it. -/
theorem queue_from (hran : Ran s p m e s' a cmd next r) (hx : .queue ∈ places s' id) :
    .queue ∈ places s id ∨ ∃ job, cmd = .enqueue job ∧ job.id = id := by
  obtain ⟨name, hsc⟩ := hx
  rcases hran.effect with ⟨-, hx⟩ | ⟨-, hw, -⟩
  · have hent := exec_entry hx (queueKey name) id
    generalize hsc₀ : s.world.redis.zscore (queueKey name) id = sc₀ at hent
    generalize s'.world.redis.zscore (queueKey name) id = sc at hent hsc
    cases hent with
    | same => exact .inl ⟨name, by rwa [hsc₀]⟩
    | enqueued hcmd hr hk hm => exact .inr ⟨_, hcmd, hm.symm⟩
    | delayed _ _ hk => exact absurd hk (queueKey_ne_retriesKey _)
    | removed | popped => exact absurd rfl hsc
  · exact .inl ⟨name, hw ▸ hsc⟩

/-- A place that holds the token after a command held it before, or is the one the
command put it to. -/
theorem places_from (hran : Ran s p m e s' a cmd next r) {x : Place} (hx : x ∈ places s' id) :
    x ∈ places s id ∨ (x = .holder p ∧ holds id (s'.procs p)) ∨
    (x = .queue ∧ ∃ job, cmd = .enqueue job ∧ job.id = id) := by
  cases x with
  | queue => exact (queue_from hran hx).imp_right fun hq => .inr ⟨rfl, hq⟩
  | holder q =>
    by_cases hqp : q = p
    · subst hqp
      exact .inr (.inl ⟨rfl, hx⟩)
    · rw [mem_places_holder, hran.procs_other hqp] at hx
      exact .inl hx

/-- An `Enqueue` passes the job on from the goroutine that held it, but for the one
of `PromoteRetries`. -/
theorem holds_enqueue (hf : Follows pc (.enqueue job) r pc')
    (hd : ((promotes pc).map Job.id).Nodup) :
    (readies job.id pc ∧ ¬ holds job.id pc') ∨
    ∃ id ids, pc = .retriesEnqueue job id ids ∧ pc' = .retriesRemove id ids := by
  cases hf with
  | createEnqueued | createEnqueueFailed | retryEnqueued | retryEnqueueFailed =>
    exact .inl ⟨rfl, not_holds rfl (by simp) (by simp) fun hh => hh⟩
  | promoteEnqueued =>
    refine .inl ⟨⟨job, List.mem_cons_self, rfl⟩, fun hh => hh.elim ?_ fun hh => hh⟩
    rintro ⟨j, hj, hid⟩
    exact (List.nodup_cons.mp hd).1 (hid ▸ List.mem_map_of_mem hj)
  | promoteFailed =>
    exact .inl ⟨⟨job, List.mem_cons_self, rfl⟩, not_holds rfl (by simp) (by simp) fun hh => hh⟩
  | retriesEnqueued => exact .inr ⟨_, _, rfl, rfl⟩

/-- A `ZPOPMIN` hands the token from the queue to the goroutine. -/
theorem handoff_pop {name : String} (hq : QueueNames s) (hq' : QueueNames s')
    (h : step s l = some (s', a)) (hran : Ran s p m e s' a (.pop name) next (.popped (some id))) :
    Handoff (places s id) (places s' id) := by
  have hx : exec s.world e (.pop name) = some (s'.world, .popped (some id)) := by
    rcases hran.effect with ⟨-, hx⟩ | ⟨-, -, herr⟩
    · exact hx
    · cases herr
  obtain ⟨hin, hout⟩ := exec_pop_some hx
  refine .inr ⟨.queue, ⟨name, hin⟩, ?_, .holder p, fun x hx => ?_⟩
  · rintro ⟨name', hin'⟩
    obtain ⟨r₁, hr₁, hname⟩ := hq name id hin
    obtain ⟨r₂, hr₂, hname'⟩ := hq' name' id hin'
    obtain ⟨r₃, hr₃, hsame⟩ := step_sameJob h hr₁
    obtain rfl : r₂ = r₃ := Option.some.inj (hr₂.symm.trans hr₃)
    rw [← hname', hsame.queueName, hname] at hin'
    exact hin' hout
  · rcases places_from hran hx with hold | ⟨hp, -⟩ | ⟨-, _, hcmd, -⟩
    · exact .inl hold
    · exact .inr hp
    · cases hcmd

/-- What a step does to the token of a job. -/
inductive TokenStep (s s' : State) (id : String) : Prop
  | handoff (h : Handoff (places s id) (places s' id))
  | made {p : Pid} (h : Made (row s id) (row s' id))
      (hsub : places s' id ⊆ insert (.holder p) (places s id))
  | copied {p : Pid} (hp : id ∈ pending (s.procs p))
      (hsub : places s' id ⊆ insert .queue (places s id))

theorem token_enqueue (hl : Listed s) (hfound : FoundByID s)
    (hran : Ran s p m e s' a (.enqueue job) next r) : TokenStep s s' job.id := by
  have hself := hran.procs_self
  have htarget : ¬ holds job.id (s'.procs p) →
      ∀ x ∈ places s' job.id, x ∈ places s job.id ∨ x = .queue := by
    intro hno x hx
    rcases places_from hran hx with hold | ⟨-, hh⟩ | ⟨hq, -⟩
    · exact .inl hold
    · exact absurd hh hno
    · exact .inr hq
  rcases holds_enqueue (follows hran.code (heard m r)) (hl.distinct p) with
    ⟨hold, hgone⟩ | ⟨i, ids, hpc, hpc'⟩
  · rw [← hself] at hgone
    exact .handoff (.inr ⟨.holder p, .inl hold, hgone, .queue, htarget hgone⟩)
  · obtain rfl := hfound p job i ids hpc
    rw [← hself] at hpc'
    rw [hpc'] at htarget
    have hno : ¬ holds job.id (.retriesRemove job.id ids) :=
      not_holds rfl (by simp) (by simp) fun hh => hh
    refine .copied (by rw [hpc]; exact List.mem_cons_self) fun x hx => ?_
    exact (htarget hno x hx).symm

/-- An entry of a queue after a step was there before or was enqueued by the step. -/
theorem queue_step (h : step s l = some (s', a)) (hx : .queue ∈ places s' id) :
    .queue ∈ places s id ∨
    ∃ p m e next r job, l = .run p m e ∧ Ran s p m e s' a (.enqueue job) next r ∧
      job.id = id := by
  by_cases hrun : ∃ p m e, l = .run p m e
  · obtain ⟨p, m, e, rfl⟩ := hrun
    obtain ⟨cmd, next, r, hran⟩ := step_run h
    refine (queue_from hran hx).imp_right ?_
    rintro ⟨job, rfl, hid⟩
    exact ⟨p, m, e, next, r, job, rfl, hran, hid⟩
  · simp only [not_exists] at hrun
    have hred : s'.world.redis = s.world.redis := by
      rcases (step_local h hrun).1 with hw | ⟨_, -, hw⟩ <;> rw [hw]
    obtain ⟨name, hsc⟩ := hx
    exact .inl ⟨name, hred ▸ hsc⟩

/-- A step moves one goroutine, so beyond an `Enqueue` it concerns one place. -/
theorem token_step (hl : Listed s) (hq : QueueNames s) (hq' : QueueNames s')
    (hfound : FoundByID s) (h : step s l = some (s', a)) (id : String) :
    TokenStep s s' id := by
  by_cases henq : ∃ p m e next r job, l = .run p m e ∧
      Ran s p m e s' a (.enqueue job) next r ∧ job.id = id
  · obtain ⟨p, m, e, next, r, job, -, hran, rfl⟩ := henq
    exact token_enqueue hl hfound hran
  have hqueue : .queue ∈ places s' id → .queue ∈ places s id := fun hx =>
    (queue_step h hx).resolve_right henq
  have hother : ∀ q, Label.pid l ≠ some q → .holder q ∈ places s' id → .holder q ∈ places s id := by
    intro q hne hx
    rwa [mem_places_holder, step_procs h hne] at hx
  cases hpid : Label.pid l with
  | none =>
    refine .handoff (.of_subset fun x hx => ?_)
    cases x with
    | queue => exact hqueue hx
    | holder q => exact hother q (by simp [hpid]) hx
  | some p =>
    have hsub : ∀ x ∈ places s' id, x = .holder p ∨ x ∈ places s id := by
      intro x hx
      cases x with
      | queue => exact .inr (hqueue hx)
      | holder q =>
        by_cases hqp : q = p
        · exact .inl (hqp ▸ rfl)
        · exact .inr (hother q (by simp [hpid, Ne.symm hqp]) hx)
    by_cases hnew : .holder p ∈ places s' id ∧ .holder p ∉ places s id
    · obtain ⟨hr | hh, hno⟩ := hnew
      · exact .made ((readies_from h hr).resolve_left fun hold => hno (.inl hold)) hsub
      · rcases handles_from h hh with hold | ⟨m, e, name, next, -, hran⟩
        · exact absurd (.inr hold) hno
        · exact .handoff (handoff_pop hq hq' h hran)
    · refine .handoff (.of_subset fun x hx => (hsub x hx).elim ?_ fun hold => hold)
      rintro rfl
      by_contra hno
      exact hnew ⟨hx, hno⟩

/-- A failure of the job would make it retrying. -/
def Renewable (row : Option Job) : Prop :=
  ∀ r, row = some r → (r.attempts : Int) < r.maxAttempts

/-- The row is absent or waits for its time. -/
def Idle (row : Option Job) : Prop := ∀ r, row = some r → r.status = .scheduled

theorem renewable_step (h : step s l = some (s', a)) (hr : Renewable (row s' id)) :
    Renewable (row s id) := by
  intro r hrow
  have hstep := step_row h id
  rw [hrow] at hstep
  generalize row s' id = row' at hstep hr
  cases hstep with
  | same => exact hr r rfl
  | running =>
    have hlt := hr _ rfl
    simp only [runningSet] at hlt
    omega
  | cancelled | requeued | promoted | completed | failed =>
    have hlt := hr _ rfl
    exact hlt

theorem idle_step (h : step s l = some (s', a)) (hi : Idle (row s' id)) : Idle (row s id) := by
  intro r hrow
  have hstep := step_row h id
  rw [hrow] at hstep
  generalize row s' id = row' at hstep hi
  cases hstep with
  | same => exact hi r rfl
  | failed =>
    have hst := hi _ rfl
    simp only [failedSet] at hst
    split at hst <;> cases hst
  | cancelled | requeued | promoted | running | completed => cases hi _ rfl

/-- A queued job was never started, or has no more attempts than it may use up. -/
theorem queued_attempts (hacc : Accounted id tr (some job)) (hst : job.status = .queued) :
    job.attempts = 0 ∨ job.maxAttempts ≤ job.attempts := by
  obtain ⟨-, hspent⟩ := hacc
  have hb := budget_cases job.maxAttempts
  simp only [Spent, hst] at hspent
  omega

theorem not_tried_of_idle (hacc : Accounted id tr old) (hi : Idle old) : ¬ Tried old := by
  rintro ⟨r, rfl, hatt⟩
  obtain ⟨-, hspent⟩ := hacc
  simp only [Spent, hi r rfl] at hspent
  omega

/-- A job that comes to wait and can still be retried has never been started. -/
theorem idle_of_made (hacc : Accounted id tr (row s id)) (hacc' : Accounted id tr' (row s' id))
    (h : step s l = some (s', a)) (hm : Made (row s id) (row s' id))
    (hr : Renewable (row s' id)) : Idle (row s id) := by
  intro r hrow
  obtain ⟨hv, r', hrow', hst'⟩ := hm
  have hfresh : ¬ Tried (row s' id) := by
    rintro ⟨_, heq, hatt⟩
    obtain rfl := Option.some.inj (hrow'.symm.trans heq)
    have hlt := hr r' hrow'
    rw [hrow'] at hacc'
    rcases queued_attempts hacc' hst' with hzero | hmax <;> omega
  rw [hrow] at hacc
  obtain ⟨-, hspent⟩ := hacc
  rcases hv r hrow with hst | hst | hst
  · exact hst
  · simp only [Spent, hst] at hspent
  · have hb := budget_cases r.maxAttempts
    simp only [Spent, hst] at hspent
    exact absurd (tried_step h ⟨r, hrow, by omega⟩) hfresh

/-- There is at most one token of a job that can still be retried and none before the
job waits. A job that somebody readies was never started or can not be retried. -/
structure Single (s : State) : Prop where
  one : ∀ id, Renewable (row s id) → (places s id).Subsingleton
  idle : ∀ id, Idle (row s id) → places s id = ∅
  readied : ∀ p id r, readies id (s.procs p) → row s id = some r →
    r.attempts = 0 ∨ r.maxAttempts ≤ r.attempts

/-- No worker has a job that `PromoteRetries` has read and not yet enqueued. -/
def Unheld (s : State) : Prop := ∀ p q, ∀ id ∈ pending (s.procs p), ¬ handles id (s.procs q)

theorem unheld_of_idle {n : Nat} (hidle : ∀ p, n ≤ p → s.procs p = .idle)
    (h : ∀ p < n, ∀ q < n, ∀ id ∈ pending (s.procs p), ¬ handles id (s.procs q)) : Unheld s := by
  intro p q id hp hq
  have hlt : ∀ q, s.procs q ≠ .idle → q < n := fun q hne => by
    by_contra hn
    exact hne (hidle q (not_lt.mp hn))
  refine h p (hlt p fun hpc => ?_) q (hlt q fun hpc => ?_) id hp hq
  · rw [hpc] at hp
    cases hp
  · rw [hpc] at hq
    exact hq

/-- Nobody holds a job that `PromoteRetries` is about to enqueue. -/
theorem Single.pending_free (hs : Single s) (hl : Listed s) (hu : Unheld s)
    (hp : id ∈ pending (s.procs p)) (hr : Renewable (row s id)) (q : Pid) :
    ¬ holds id (s.procs q) := by
  obtain ⟨r, hrow, hatt⟩ := hl.read p id hp
  have hlt := hr r hrow
  rintro (hq | hq)
  · rcases hs.readied q id r hq hrow with hzero | hmax <;> omega
  · exact hu p q id hp hq

theorem single_readied (hacc' : Accounted id tr' (row s' id)) (hs : Single s)
    (h : step s l = some (s', a)) {r' : Job} (hq : readies id (s'.procs q))
    (hrow' : row s' id = some r') : r'.attempts = 0 ∨ r'.maxAttempts ≤ r'.attempts := by
  rcases readies_from h hq with hold | ⟨-, r, hrow, hst⟩
  case inr =>
    obtain rfl := Option.some.inj (hrow.symm.trans hrow')
    exact queued_attempts (hrow' ▸ hacc') hst
  have hheld : .holder q ∈ places s id := .inl hold
  cases hrow : row s id with
  | none =>
    have hempty := hs.idle id (by rw [hrow]; intro r hr; cases hr)
    rw [hempty] at hheld
    exact hheld.elim
  | some r =>
    have hatt := hs.readied q id r hold hrow
    have hstep := step_row h id
    rw [hrow, hrow'] at hstep
    generalize hnew : some r' = new at hstep
    cases hstep with
    | same => exact Option.some.inj hnew ▸ hatt
    | @running p w _ hpc hw =>
      cases hnew
      by_contra hlt
      simp only [runningSet, not_or, not_le] at hlt
      have hone := hs.one id (by rw [hrow]; rintro _ ⟨⟩; omega)
      have hp : .holder p ∈ places s id := .inr (by rw [hpc]; rfl)
      obtain rfl : p = q := Place.holder.inj (hone hp hheld)
      rw [hpc] at hold
      exact not_readies rfl (by simp) (by simp) hold
    | cancelled | requeued | promoted | completed | failed =>
      cases hnew
      exact hatt

theorem single_step (hacc : ∀ id, Accounted id tr (row s id))
    (hacc' : ∀ id, Accounted id tr' (row s' id)) (hl : Listed s) (hq : QueueNames s)
    (hq' : QueueNames s') (hfound : FoundByID s) (hu : Unheld s) (hs : Single s)
    (h : step s l = some (s', a)) : Single s' := by
  constructor
  case one =>
    intro id hr
    have hr₀ := renewable_step h hr
    cases token_step hl hq hq' hfound h id with
    | handoff hh => exact hh.subsingleton (hs.one id hr₀)
    | made hm hsub =>
      rw [hs.idle id (idle_of_made (hacc id) (hacc' id) h hm hr)] at hsub
      exact Set.subsingleton_of_subset_singleton (by simpa using hsub)
    | @copied p hp hsub =>
      refine Set.subsingleton_of_subset_singleton (a := .queue) fun x hx => ?_
      rcases hsub hx with hx | hx
      · exact hx
      · cases x with
        | queue => rfl
        | holder q => exact absurd hx (hs.pending_free hl hu hp hr₀ q)
  case idle =>
    intro id hi
    have hi₀ := idle_step h hi
    cases token_step hl hq hq' hfound h id with
    | handoff hh => exact hh.empty (hs.idle id hi₀)
    | made hm =>
      obtain ⟨-, r, hrow, hst⟩ := hm
      cases (hi r hrow).symm.trans hst
    | copied hp => exact absurd (hl.read _ id hp) (not_tried_of_idle (hacc id) hi₀)
  case readied =>
    intro p id r hp hrow
    exact single_readied (hacc' id) hs h hp hrow

/-- What all runs keep in which `PromoteRetries` enqueues no job that a worker has. -/
structure Ordered (s : State) : Prop where
  listed : Listed s
  names : QueueNames s
  single : Single s

theorem places_initial (id : String) : places State.initial id = ∅ := by
  refine Set.eq_empty_iff_forall_notMem.mpr ?_
  rintro (_ | p) hx
  · obtain ⟨name, hsc⟩ := hx
    exact hsc rfl
  · have hidle : ¬ holds id .idle := not_holds rfl (by simp) (by simp) fun hh => hh
    exact hidle hx

theorem ordered_run {ok : State → Label → Prop} (hok : ∀ s l, ok s l → Unheld s)
    (h : Run step ok State.initial tr s) : Ordered s := by
  refine h.invariant (I := fun _ s => Ordered s) ?_ ?_
  · refine ⟨listed_run (.start : Run step ok State.initial [] _),
      fun name id hsc => absurd rfl hsc, ?_⟩
    exact ⟨fun id _ => by simp [places_initial], fun id _ => places_initial id,
      fun p id r hp hrow => by cases hrow⟩
  · rintro tr s s' l a hrun ⟨hl, hq, hs⟩ ho h
    have hnext := hrun.next ho h
    have hq' := queueNames_step (carried_run hrun) hq h
    exact ⟨listed_run hnext, hq', single_step (accounted_run hrun) (accounted_run hnext) hl hq hq'
      (Delivery.foundByID_run hrun) (hok s l ho) hs h⟩

end JobFlow.Runs.Tokens
