import JobFlow.Runs.Budget
import JobFlow.Runs.ScheduledTime
import JobFlow.Runs.Tokens

/-!
# The backoff of a retry

`MarkRunning` does not look at the time, so a retry waits only because nothing
but its entry in the retry set leads to the next start. The score there is a whole
second, the due time is not, and a delay is a 64-bit count of nanoseconds. Where no
scan falls between the second and the due time, no delay overflows and no worker
has a job that a scheduler is about to enqueue, no job runs before its backoff is
over.
-/

namespace JobFlow.Runs.Backoff

open JobFlow.Model
open JobFlow.Model.JobRepository
open JobFlow.Model.RedisQueue
open JobFlow.Lib.Transition
open ControlFlow Steps Carried Entries Ownership Batches Tokens
open ScheduledTime (SharedClock)

variable {s s' : State} {l : Label} {a : Act} {p q : Pid} {id : String} {r : Job} {job : Job}
  {tr tr' : List Act}

/-- A retrying row is due `2^(attempts-1)` seconds after it was marked. -/
def due (r : Job) : Time := r.updatedAt + 2 ^ (r.attempts - 1) * 1000000

/-- `EnqueueAfter` reads the clock after the statement that marked the job. -/
def ReadsAfter (s : State) : Label → Prop
  | .run p _ e => match s.procs p with
    | .enqueueAfter _ job => job.updatedAt ≤ e.reading
    | _ => True
  | _ => True

/-- `2^(attempts-1)` seconds fit into a `time.Duration`. -/
def ShortDelay (s : State) : Label → Prop
  | .run p _ _ => match s.procs p with
    | .enqueueAfter _ job => job.attempts ≤ 34
    | _ => True
  | _ => True

/-- No `ZRANGEBYSCORE` comes in the second in which an entry is due and before the
due time. -/
def NotCutOff (s : State) : Label → Prop
  | .run p .ok e => match s.procs p with
    | .retriesRange => ∀ r ∈ s.world.jobs.rows, r.status = .retrying →
        s.world.redis.zscore retriesKey r.id ≠ none →
        unix e.reading = unix (due r) → due r ≤ e.reading
    | _ => True
  | _ => True

/-- A worker that has marked a job retrying replaces the entry of the job, if one is
left from before. -/
def Replaces (s : State) : Label → Prop
  | .run p m e => match s.procs p with
    | .markFailed _ job _ => m = .lost → s.world.redis.zscore retriesKey job.id = none
    | .enqueueAfter _ job => s.world.redis.zscore retriesKey job.id = none ∨
        (advance s.world (s.procs p) m e).all fun x => !x.2.2.commandFailed
    | _ => True
  | .crash p => match delays (s.procs p) with
    | some job => s.world.redis.zscore retriesKey job.id = none
    | none => True
  | _ => True

instance (s : State) (l : Label) : Decidable (ReadsAfter s l) := by
  induction l using Label.casesOn with
  | run p _ e =>
    dsimp only [ReadsAfter]
    induction s.procs p using Pc.casesOn <;> infer_instance
  | _ => exact .isTrue trivial

instance (s : State) (l : Label) : Decidable (ShortDelay s l) := by
  induction l using Label.casesOn with
  | run p _ _ =>
    dsimp only [ShortDelay]
    induction s.procs p using Pc.casesOn <;> infer_instance
  | _ => exact .isTrue trivial

instance (s : State) (l : Label) : Decidable (NotCutOff s l) := by
  induction l using Label.casesOn with
  | run p m e =>
    induction m using Mode.casesOn with
    | ok =>
      dsimp only [NotCutOff]
      induction s.procs p using Pc.casesOn <;> infer_instance
    | _ => exact .isTrue trivial
  | _ => exact .isTrue trivial

instance (s : State) (l : Label) : Decidable (Replaces s l) := by
  induction l using Label.casesOn with
  | run p m e =>
    dsimp only [Replaces]
    generalize s.procs p = pc
    induction pc using Pc.casesOn <;> infer_instance
  | crash p =>
    dsimp only [Replaces]
    induction delays (s.procs p) using Option.casesOn <;> infer_instance
  | _ => exact .isTrue trivial

/-- The delay is exact as long as it fits. -/
theorem retryDelay_eq {n : Nat} (hpos : 1 ≤ n) (hle : n ≤ 34) :
    retryDelay n = 2 ^ (n - 1) * 1000000000 := by
  have hexact : ∀ k < 34, retryDelay (k + 1) = 2 ^ k * 1000000000 := by decide
  obtain ⟨k, rfl⟩ : ∃ k, n = k + 1 := ⟨n - 1, by omega⟩
  exact hexact k (by omega)

/-- Cutting to whole seconds keeps the order of nanoseconds and microseconds. -/
theorem second_le {u reading : Int} (h : u ≤ reading) (k : Int) :
    (u + k * 1000000) / 1000000 ≤ (reading * 1000 + k * 1000000000) / 1000000000 := by
  omega

/-- The score of an entry is at least the second in which the job is due. -/
theorem unix_due_le {reading : Time} (hread : r.updatedAt ≤ reading) (hpos : 1 ≤ r.attempts)
    (hle : r.attempts ≤ 34) :
    unix (due r) ≤ (reading * 1000 + retryDelay r.attempts) / 1000000000 := by
  rw [retryDelay_eq hpos hle]
  exact second_le hread _

theorem renewable_of_retrying (hacc : Budget.Accounted id tr (some r))
    (hst : r.status = .retrying) : Renewable (some r) := by
  rintro _ ⟨⟩
  have hspent := hacc.2
  simp only [Budget.Spent, hst] at hspent
  exact hspent.2.2

/-- What a goroutine is about to delay is still the row, unless it was cancelled. -/
def Unmoved (s : State) : Prop := ∀ p job, delays (s.procs p) = some job →
  job.status = .retrying ∧ ∀ r, row s job.id = some r → r = job ∨ r.status = .cancelled

/-- Only a `Cancel` moves a row that a goroutine is about to delay. -/
theorem unmoved_row {r' : Job} (hown : Owned tr s)
    (hacc : ∀ id, Budget.Accounted id tr (row s id)) (ho : Ordered s) (hu : Unmoved s)
    (h : step s l = some (s', a)) (hd : delays (s.procs p) = some job)
    (hr' : row s' job.id = some r') : r' = job ∨ r'.status = .cancelled := by
  obtain ⟨hst, hrow⟩ := hu p job hd
  obtain ⟨r, hr, -⟩ := ho.listed.delayed p job hd
  have hacc := hacc job.id
  have hcases : r.status = .retrying ∨ r.status = .cancelled :=
    (hrow r hr).imp_left fun (heq : r = job) => heq ▸ hst
  have hstep := step_row h job.id
  rw [hr, hr'] at hstep
  generalize hnew : some r' = new at hstep
  generalize hold : some r = old at hstep
  cases hstep with
  | same =>
    obtain rfl := Option.some.inj (hnew.trans hold.symm)
    exact hrow r' hr
  | created => cases hold
  | cancelled =>
    cases hnew
    exact .inr rfl
  | requeued hpc hw =>
    cases hold
    rcases hcases with hst | hst <;> simp [requeueWhere, hst] at hw
  | promoted hpc hid hdue =>
    cases hold
    rcases hcases with hst | hst <;> simp [isDue, hst] at hdue
  | @running q w _ hpc hw =>
    cases hold
    have hret : r.status = .retrying := by
      refine hcases.resolve_right fun hst => ?_
      simp [runningWhere, hst] at hw
    have hone := ho.single.one job.id (hr ▸ renewable_of_retrying (hr ▸ hacc) hret)
    have hq : .holder q ∈ places s job.id := .inr (by rw [hpc]; rfl)
    have hp : .holder p ∈ places s job.id := .inr (delays_handles hd)
    obtain rfl : q = p := Place.holder.inj (hone hq hp)
    rw [hpc] at hd
    cases hd
  | completed hpc hid | failed hpc hid =>
    have hrun := hown.row_running (by rw [hpc]; exact hid) hr
    rcases hcases with hst | hst <;> cases hst.symm.trans hrun

theorem unmoved_step (hown : Owned tr s) (hacc : ∀ id, Budget.Accounted id tr (row s id))
    (ho : Ordered s) (hu : Unmoved s) (h : step s l = some (s', a)) : Unmoved s' := by
  intro p job hd
  rcases delays_from h hd with hold | ⟨hrow, hst⟩
  · exact ⟨(hu p job hold).1, fun r hr => unmoved_row hown hacc ho hu h hold hr⟩
  · exact ⟨hst, fun r hr => .inl (Option.some.inj (hr.symm.trans hrow))⟩

/-- The job may be started without another look at the retry set. -/
def Ready (s : State) (id : String) : Prop :=
  .queue ∈ places s id ∨ (∃ p, holds id (s.procs p) ∧ delays (s.procs p) = none) ∨
  ((∃ p, id ∈ pending (s.procs p)) ∧ ∀ q, ¬ handles id (s.procs q))

/-- A worker about to delay a job goes on to `EnqueueAfter` and gives the job up with it. -/
theorem delays_on {pc pc' : Pc} {cmd : Cmd} {reply : Reply} (hf : Follows pc cmd reply pc')
    (hd : delays pc = some job) :
    delays pc' = some job ∨ ∃ w, pc = .enqueueAfter w job ∧ pc' = .publishRetrying w job ∧
      cmd = .enqueueAfter job (retryDelay job.attempts) := by
  cases hf with
  | failedCounted hst =>
    simp only [delays, hst, if_true] at hd
    exact .inl hd
  | lastCounted hst => simp [delays, hst] at hd
  | delayed =>
    cases hd
    exact .inr ⟨_, rfl, rfl, rfl⟩
  | _ => cases hd

/-- A worker about to delay a job still is after its step or has given the job up. -/
theorem delays_stays (h : step s l = some (s', a)) (hd : delays (s.procs q) = some job)
    (hh : handles id (s'.procs q)) : delays (s'.procs q) ≠ none := by
  have hm := step_moves h q
  generalize s'.procs q = pc at hm hh
  cases hm with
  | stays => simp [hd]
  | starts => exact absurd (.inr hh) (not_holds_entry (entry_point _) id)
  | crashes | stops => exact hh.elim
  | finishes hl hpc =>
    rw [hpc] at hd
    cases hd
  | @runs m e cmd next r hl hran =>
    rcases delays_on (follows hran.code (heard m r)) hd with hold | ⟨w, -, hpc', -⟩
    · simp [hold]
    · rw [hpc'] at hh
      exact hh.elim

/-- A goroutine that holds a job it is not about to delay held it so before, or has
popped it, or has made the row wait. -/
theorem held_from (h : step s l = some (s', a)) (hh : holds id (s'.procs q))
    (hd : delays (s'.procs q) = none) :
    (holds id (s.procs q) ∧ delays (s.procs q) = none) ∨ .queue ∈ places s id ∨
      Made (row s id) (row s' id) := by
  rcases hh with hr | hh
  · rcases readies_from h hr with hold | hmade
    · exact .inl ⟨.inl hold, delays_of_readies hold⟩
    · exact .inr (.inr hmade)
  · rcases handles_from h hh with hold | ⟨m, e, name, next, -, hran⟩
    · refine .inl ⟨.inr hold, ?_⟩
      cases hd₀ : delays (s.procs q) with
      | none => rfl
      | some job => exact absurd hd (delays_stays h hd₀ hh)
    · rcases hran.effect with ⟨-, hx⟩ | ⟨-, -, herr⟩
      · exact .inr (.inl ⟨name, (exec_pop_some hx).1⟩)
      · cases herr

/-- A job that is ready was ready before, or is read from the retry set by this step
while no worker has it. -/
theorem ready_from (ho : Ordered s) (hfound : Delivery.FoundByID s) (hun : Unheld s)
    (h : step s l = some (s', a)) (hrow : row s' id = row s id) (hr : Ready s' id) :
    Ready s id ∨ ∃ p e sc, l = .run p .ok e ∧ s.procs p = .retriesRange ∧
      (∀ q, ¬ handles id (s.procs q)) ∧ s.world.redis.zscore retriesKey id = some sc ∧
      sc ≤ unix e.reading := by
  have hpending : ∀ {p}, id ∈ pending (s.procs p) → Ready s id := fun {p} hp =>
    .inr (.inr ⟨⟨p, hp⟩, fun q => hun p q id hp⟩)
  rcases hr with hq | ⟨q, hh, hd⟩ | ⟨⟨q, hpend⟩, hfree⟩
  · refine .inl ?_
    rcases queue_step h hq with hold | ⟨p, m, e, next, r, job, -, hran, rfl⟩
    · exact .inl hold
    · rcases holds_enqueue (follows hran.code r) (ho.listed.distinct p) with
        ⟨hold, -⟩ | ⟨i, ids, hpc, -⟩
      · exact .inr (.inl ⟨p, .inl hold, delays_of_readies hold⟩)
      · obtain rfl := hfound p job i ids hpc
        exact hpending (by rw [hpc]; exact List.mem_cons_self)
  · rcases held_from h hh hd with hold | hq | ⟨hv, r, hr, hst⟩
    · exact .inl (.inr (.inl ⟨q, hold⟩))
    · exact .inl (.inl hq)
    · rcases hv r (hrow ▸ hr) with hv | hv | hv <;> cases hv.symm.trans hst
  · rcases (lists_step h q).1 with hsuf | ⟨e, rfl, hrange, hdue⟩
    · exact .inl (hpending (hsuf.subset hpend))
    · obtain ⟨sc, hsc, hle⟩ := hdue id hpend
      refine .inr ⟨q, e, sc, rfl, hrange, fun q' hq' => ?_, hsc, hle⟩
      by_cases hqq : q' = q
      · rw [hqq, hrange] at hq'
        exact hq'
      · exact hfree q' (by rwa [step_procs h (by simp [Label.pid, Ne.symm hqq])])

/-- A row is retrying because it was, or because this step has marked it. -/
theorem retrying_from {r' : Job} (h : step s l = some (s', a)) (hr' : row s' id = some r')
    (hst : r'.status = .retrying) :
    row s id = some r' ∨ ∃ p, a = .markedFailed p id .retrying r'.attempts s.world.clock := by
  have hstep := step_row h id
  rw [hr'] at hstep
  generalize row s id = old at hstep
  cases hstep with
  | same ht => exact .inl rfl
  | created hl hpc hnew =>
    rcases newRow_status hnew with ⟨hs, -⟩ | ⟨hs, -⟩ <;> cases hs.symm.trans hst
  | cancelled | requeued | promoted | running | completed => cases hst
  | @failed p w job r message hpc hid => exact .inr ⟨p, by rw [hst]; rfl⟩

/-- The command that marks a job failed. -/
theorem ran_markFailed {st : Status} {n : Nat} {now : Time} (h : step s l = some (s', a))
    (ha : a = .markedFailed p id st n now) :
    ∃ w job message m e next failedJob, s.procs p = .markFailed w job message ∧ job.id = id ∧
      l = .run p m e ∧
      Ran s p m e s' a (.markFailed id message) next (.job failedJob) ∧ failedJob.id = id ∧
      failedJob.status = st := by
  obtain ⟨w, job, message, hpc, hid⟩ := failed_point (ha ▸ step_row h id)
  obtain ⟨m, e, cmd, next, r, hl, hran⟩ :=
    run_of_actedBy h (show touches id a by rw [ha]; exact rfl) (by rw [ha]; exact rfl)
  obtain ⟨_, _, _, failedJob, -, rfl, hfid, hst⟩ := observe_markedFailed (hran.act.symm.trans ha)
  have hcode := hran.code
  rw [hpc] at hcode
  cases hcode
  subst hid
  exact ⟨w, job, message, m, e, _, failedJob, hpc, rfl, hl, hran, hfid, hst⟩

/-- Nothing makes a job ready in the step that marks it retrying. -/
theorem not_ready_markFailed {n : Nat} {now : Time} (ho : Ordered s) (hun : Unheld s)
    (hren : Renewable (row s' id)) (h : step s l = some (s', a))
    (ha : a = .markedFailed p id .retrying n now) : ¬ Ready s' id := by
  obtain ⟨w, job, message, m, e, next, failedJob, hpc, hid, rfl, hran, -, hst⟩ :=
    ran_markFailed h ha
  have hhandles : handles id (s.procs p) := by
    rw [hpc]
    exact hid
  have honly : ∀ x ∈ places s' id, x = .holder p := by
    intro x hx
    rcases places_from hran hx with hold | ⟨hp, -⟩ | ⟨-, _, hcmd, -⟩
    · exact ho.single.one id (renewable_step h hren) hold (.inr hhandles)
    · exact hp
    · cases hcmd
  rintro (hq | ⟨q, hh, hd⟩ | ⟨⟨q, hpend⟩, -⟩)
  · cases honly _ hq
  · obtain rfl : q = p := Place.holder.inj (honly _ hh)
    have hf := follows hran.code (heard m (.job failedJob))
    rw [hran.procs_self] at hh hd
    generalize next (heard m (.job failedJob)) = pc' at hf hh hd
    generalize hreply : heard m (.job failedJob) = reply at hf
    rw [hpc] at hf
    cases hf with
    | failed =>
      cases heard_job hreply
      simp [delays, hst] at hd
    | notFailed => exact absurd hh (not_holds rfl (by simp) (by simp) fun hh => hh)
  · rcases (lists_step h q).1 with hsuf | ⟨e', hl, hrange, -⟩
    · exact hun q p id (hsuf.subset hpend) hhandles
    · cases hl
      cases hpc.symm.trans hrange

/-- Whoever marks a job retrying is about to delay it, or there is no entry of the job. -/
theorem marked_entry {n : Nat} {now : Time} (hrep : Replaces s l) (h : step s l = some (s', a))
    (ha : a = .markedFailed p id .retrying n now)
    (hnone : ∀ p job, delays (s'.procs p) = some job → job.id ≠ id) :
    s'.world.redis.zscore retriesKey id = none := by
  obtain ⟨w, job, message, m, e, next, failedJob, hpc, hid, rfl, hran, hfid, hst⟩ :=
    ran_markFailed h ha
  rcases hran.effect with ⟨hm, hx⟩ | ⟨-, -, herr⟩
  · rw [exec_redis hx rfl]
    cases m with
    | ok =>
      refine absurd hfid (hnone p failedJob ?_)
      have hcode := hran.code
      rw [hpc] at hcode
      cases hcode
      rw [hran.procs_self]
      exact if_pos hst
    | lost =>
      simp only [Replaces, hpc, forall_const, hid] at hrep
      exact hrep
    | failed => exact absurd rfl hm
  · cases herr

/-- A worker that stops delaying a job has replaced its entry, or there is none. -/
theorem entry_replaced (hrep : Replaces s l) (h : step s l = some (s', a))
    (hd : delays (s.procs q) = some job) (hgone : delays (s'.procs q) ≠ some job) :
    s'.world.redis.zscore retriesKey job.id = none ∨
    ∃ w m e, l = .run q m e ∧ s.procs q = .enqueueAfter w job ∧
      exec s.world e (.enqueueAfter job (retryDelay job.attempts)) = some (s'.world, .done) := by
  have hm := step_moves h q
  generalize hpc' : s'.procs q = pc at hm hgone
  cases hm with
  | stays => exact absurd hd hgone
  | starts hl hidle =>
    rw [hidle] at hd
    cases hd
  | crashes hl =>
    subst hl
    cases h
    simp only [Replaces, hd] at hrep
    exact .inl hrep
  | stops hl hpc | finishes hl hpc =>
    rw [hpc] at hd
    cases hd
  | @runs m e cmd next r hl hran =>
    subst hl
    obtain ⟨w, hpc, -, rfl⟩ := (delays_on (follows hran.code _) hd).resolve_left hgone
    simp only [Replaces, hpc] at hrep
    rcases hran.effect with ⟨hm, hx⟩ | ⟨rfl, hw, -⟩
    · by_cases hdone : r = .done
      · exact .inr ⟨w, m, e, rfl, hpc, hdone ▸ hx⟩
      rw [exec_enqueueAfter_refused hx hdone]
      refine .inl (hrep.resolve_right fun hok => hdone (exec_enqueueAfter_reply hx ?_))
      cases m
      · simpa [advance, Pc.code, hx] using hok
      · simpa [advance, Pc.code, hx] using hok
      · exact absurd rfl hm
    · rw [hw]
      refine .inl (hrep.resolve_right ?_)
      simp [advance, Pc.code, Reply.commandFailed, Err.commandFailed]

/-- A retrying job is ready only when it is due, and where nobody is about to delay it
its entry is not before the second in which it is due. -/
structure Timed (s : State) : Prop where
  ready : ∀ id r, row s id = some r → r.status = .retrying → Ready s id → due r ≤ s.world.clock
  resting : ∀ id r sc, row s id = some r → r.status = .retrying →
    (∀ p job, delays (s.procs p) = some job → job.id ≠ id) →
    s.world.redis.zscore retriesKey id = some sc → unix (due r) ≤ sc

/-- A reading in a later second than the due time is not before it. -/
theorem le_of_unix_lt {t reading : Int} (h : t / 1000000 < reading / 1000000) : t ≤ reading := by
  omega

theorem timed_ready (hacc' : Budget.Accounted id tr' (row s' id)) (ho : Ordered s)
    (hfound : Delivery.FoundByID s) (hclock : SharedClock s l) (hun : Unheld s)
    (hcut : NotCutOff s l) (ht : Timed s) (h : step s l = some (s', a))
    (hr : row s' id = some r) (hst : r.status = .retrying) (hready : Ready s' id) :
    due r ≤ s'.world.clock := by
  refine le_trans ?_ (Coherence.clock_le_of_forward hclock.forward h)
  rcases retrying_from h hr hst with hold | ⟨p, ha⟩
  · rcases ready_from ho hfound hun h (hr.trans hold.symm) hready with
      hready₀ | ⟨p, e, sc, rfl, hrange, hfree, hsc, hle⟩
    · exact ht.ready id r hold hst hready₀
    · refine le_trans ?_ hclock
      have hnone : ∀ q job, delays (s.procs q) = some job → job.id ≠ id := by
        rintro q job hd rfl
        exact hfree q (delays_handles hd)
      rcases ((ht.resting id r sc hold hst hnone hsc).trans hle).lt_or_eq with hlt | heq
      · exact le_of_unix_lt hlt
      · simp only [NotCutOff, hrange] at hcut
        have hid := JobTable.find_id hold
        have hmem := (JobTable.mem_rows_iff _ r).mpr (hid.symm ▸ hold)
        exact hcut r hmem hst (by simp [hid, hsc]) heq.symm
  · have hren : Renewable (row s' id) := hr ▸ renewable_of_retrying (hr ▸ hacc') hst
    exact absurd hready (not_ready_markFailed ho hun hren h ha)

theorem timed_resting {sc : Int} (hu : Unmoved s) (hpos : 1 ≤ r.attempts)
    (hreads : ReadsAfter s l) (hshort : ShortDelay s l) (hrep : Replaces s l) (ht : Timed s)
    (h : step s l = some (s', a)) (hr : row s' id = some r) (hst : r.status = .retrying)
    (hnone : ∀ p job, delays (s'.procs p) = some job → job.id ≠ id)
    (hsc : s'.world.redis.zscore retriesKey id = some sc) : unix (due r) ≤ sc := by
  rcases retrying_from h hr hst with hold | ⟨p, ha⟩
  case inr => cases (marked_entry hrep h ha hnone).symm.trans hsc
  by_cases hdel : ∃ q job, delays (s.procs q) = some job ∧ job.id = id
  · obtain ⟨q, job, hd, rfl⟩ := hdel
    obtain ⟨-, hrow⟩ := hu q job hd
    obtain rfl : r = job := by
      refine (hrow r hold).resolve_right fun hc => ?_
      cases hst.symm.trans hc
    rcases entry_replaced hrep h hd fun hd' => hnone q r hd' rfl with
      hno | ⟨w, m, e, rfl, hpc, hx⟩
    · cases hno.symm.trans hsc
    · simp only [ReadsAfter, ShortDelay, hpc] at hreads hshort
      rw [exec_enqueueAfter_done hx] at hsc
      cases hsc
      exact unix_due_le hreads hpos hshort
  · simp only [not_exists, not_and] at hdel
    refine ht.resting id r sc hold hst hdel ?_
    rcases step_world h with hw | ⟨now, -, hw⟩ | ⟨p, m, e, cmd, next, reply, -, hcode, hx⟩
    · rwa [← hw]
    · rwa [hw] at hsc
    · have hent := exec_entry hx retriesKey id
      rw [hsc] at hent
      generalize s.world.redis.zscore retriesKey id = sc₀ at hent ⊢
      cases hent with
      | same => rfl
      | enqueued _ _ hk => exact absurd hk.symm (queueKey_ne_retriesKey _)
      | delayed hcmd _ _ hid =>
        subst hcmd
        obtain ⟨w, hpc, -⟩ := delay_point (follows hcode reply)
        exact absurd hid.symm (hdel p _ (by rw [hpc]; rfl))

/-- The conditions under which the backoff is kept. -/
structure Spaced (s : State) (l : Label) : Prop where
  unheld : Unheld s
  replaces : Replaces s l
  short : ShortDelay s l
  cutOff : NotCutOff s l

/-- One clock, read by `EnqueueAfter` after the job was marked. -/
def CommonClock (s : State) (l : Label) : Prop := SharedClock s l ∧ ReadsAfter s l

instance (s : State) (l : Label) : Decidable (CommonClock s l) :=
  inferInstanceAs (Decidable (_ ∧ _))

theorem timed_run
    (h : Run step (fun s l => CommonClock s l ∧ Spaced s l) State.initial tr s) :
    Unmoved s ∧ Timed s := by
  refine h.invariant (I := fun _ s => Unmoved s ∧ Timed s) ?_ ?_
  · refine ⟨fun p job hd => ?_, ⟨?_, ?_⟩⟩
    · cases hd
    · intro id r hr
      cases hr
    · intro id r sc hr
      cases hr
  · rintro tr s s' l a hrun ⟨hu, ht⟩ hok h
    have hacc' := Budget.accounted_run (hrun.next hok h)
    obtain ⟨⟨hclock, hreads⟩, hun, hrep, hshort, hcut⟩ := hok
    have ho := ordered_run (fun _ _ hok => hok.2.unheld) hrun
    refine ⟨unmoved_step (owned_run hrun) (Budget.accounted_run hrun) ho hu h, ⟨?_, ?_⟩⟩
    · intro id r hr hst hready
      exact timed_ready (hacc' id) ho (Delivery.foundByID_run hrun) hclock hun hcut ht h hr hst
        hready
    · intro id r sc hr hst hnone hsc
      have hspent := hacc' id
      rw [hr] at hspent
      have hspent := hspent.2
      simp only [Budget.Spent, hst] at hspent
      exact timed_resting hu hspent.2.1 hreads hshort hrep ht h hr hst hnone hsc

/-- The backoff of every earlier failure is over, or the row still waits for the end
of it or was cancelled. -/
def Backed (id : String) (tr : List Act) (s : State) : Prop :=
  ∀ p n t, .markedFailed p id .retrying n t ∈ tr → t + 2 ^ (n - 1) * 1000000 ≤ s.world.clock ∨
    ∃ r, row s id = some r ∧
      (r.status = .cancelled ∨ (r.status = .retrying ∧ r.updatedAt = t ∧ r.attempts = n))

/-- Whoever is about to start a job has it ready. -/
theorem ready_markRunning {w : Pool} (hpc : s.procs p = .markRunning w id) : Ready s id := by
  refine .inr (.inl ⟨p, ?_⟩)
  rw [hpc]
  exact ⟨.inr rfl, rfl⟩

theorem backed_step (hown : Owned tr s) (ht : Timed s) (hclock : SharedClock s l)
    (hb : Backed id tr s) (h : step s l = some (s', a)) : Backed id (tr ++ [a]) s' := by
  intro p n t hmem
  have hle := Coherence.clock_le_of_forward hclock.forward h
  rcases List.mem_append.mp hmem with hold | hnew
  · rcases hb p n t hold with hover | ⟨r, hr, hcases⟩
    · exact .inl (hover.trans hle)
    · have hstep := step_row h id
      rw [hr] at hstep
      generalize hr' : row s' id = row' at hstep
      cases hstep with
      | same => exact .inr ⟨r, rfl, hcases⟩
      | cancelled => exact .inr ⟨_, rfl, .inl rfl⟩
      | requeued hpc hw =>
        rcases hcases with hst | ⟨hst, -⟩ <;> simp [requeueWhere, hst] at hw
      | promoted hpc hid hd => rcases hcases with hst | ⟨hst, -⟩ <;> simp [isDue, hst] at hd
      | running hpc hw =>
        rcases hcases with hst | ⟨hst, rfl, rfl⟩
        · simp [runningWhere, hst] at hw
        · exact .inl ((ht.ready id r hr hst (ready_markRunning hpc)).trans hle)
      | completed hpc hid | failed hpc hid =>
        have hrun := hown.row_running (by rw [hpc]; exact hid) hr
        rcases hcases with hst | ⟨hst, -⟩ <;> cases hst.symm.trans hrun
  · have hstep := step_row h id
    rw [← List.mem_singleton.mp hnew] at hstep
    generalize row s id = row₀ at hstep
    generalize row s' id = row' at hstep ⊢
    generalize hact : Act.markedFailed p id .retrying n t = act at hstep
    cases hstep with
    | same hn => exact absurd (hact ▸ rfl) hn
    | failed =>
      obtain ⟨-, -, hst, hn, ht⟩ := Act.markedFailed.inj hact
      exact .inr ⟨_, rfl, .inr ⟨hst.symm, ht.symm, hn.symm⟩⟩
    | _ => cases hact

/-- With any number of schedulers and workers: where no worker has a job that
`PromoteRetries` has read and is still to enqueue, no entry from before is left when a
worker fails to delay a job, no delay overflows and no scan comes in the last fraction
of a second before a due time, no job marked retrying is started before its backoff
is over. -/
theorem backoff {tr : List Act} {s : State}
    (h : Run step (fun s l => CommonClock s l ∧ Spaced s l) State.initial tr s)
    {before between after : List Act} {p q : Pid} {id : String} {n : Nat} {t now : Time}
    (htr : tr = before ++ .markedFailed p id .retrying n t :: between ++
      .markedRunning q id now :: after) : t + 2 ^ (n - 1) * 1000000 ≤ now := by
  subst htr
  obtain ⟨m, l, m', hrun, ⟨hclock, hspaced⟩, hs, -⟩ := h.observed
  have hb : Backed id (before ++ .markedFailed p id .retrying n t :: between) m := by
    refine hrun.invariant (I := fun tr s => Backed id tr s) (fun _ _ _ hm => by cases hm) ?_
    rintro tr s s' l a hrun hb ⟨hclock, -⟩ hs
    exact backed_step (owned_run hrun) (timed_run hrun).2 hclock.1 hb hs
  have hstep := step_row hs id
  generalize hr : row m id = row₀ at hstep
  generalize row m' id = row' at hstep
  cases hstep with
  | same ht => exact absurd rfl ht
  | @running _ w r hpc hw =>
    rcases hb p n t (by simp) with hover | ⟨r', hr', hcases⟩
    · exact hover
    · obtain rfl := Option.some.inj (hr.symm.trans hr')
      rcases hcases with hst | ⟨hst, rfl, rfl⟩
      · simp [runningWhere, hst] at hw
      · exact (timed_run hrun).2.ready id r hr hst (ready_markRunning hpc)

/-- A job runs on worker 1 and is marked failed at time `failed`; scheduler 2 scans at
time `scanned`, and the worker starts the job again. -/
def retried (failed scanned : Time) : List Label :=
  [.tick failed,
    .start 0 (.request (.create ⟨"u1", "default", "force_fail", none, 0, 3, none⟩)),
    .run 0 .ok { freshID := "j1", reading := failed }, .run 0 .ok { reading := failed },
    .start 1 (.worker ⟨"00000000000000000000000000000001", "host", ["default"]⟩),
    .run 1 .ok {}, .run 1 .ok {}, .run 1 .ok {}, .finish 1 (.error "forced failure"),
    .run 1 .ok {}, .run 1 .ok {}, .run 1 .ok { reading := failed }, .run 1 .ok {},
    .tick scanned,
    .start 2 .scheduler, .run 2 .ok {}, .run 2 .ok { reading := scanned }, .run 2 .ok {},
    .run 2 .ok { reading := scanned }, .run 2 .ok {}, .run 1 .ok {}, .run 1 .ok {}]

/-- The history of such a run. -/
def retriedHistory (failed scanned : Time) : List Act :=
  [.silent, .silent, .created "j1", .silent, .silent, .silent, .markedRunning 1 "j1" failed,
    .processStarted 1 "j1", .processReturned 1 "j1" false] ++
  .markedFailed 1 "j1" .retrying 1 failed :: [.silent, .silent, .silent, .silent, .silent,
    .promoted [], .silent, .silent, .silent, .silent, .silent] ++
  [.markedRunning 1 "j1" scanned]

/-- Marked failed at the start of a second. -/
theorem whole_runs : (execute step State.initial (retried 0 1000000)).isSome := by decide

theorem whole_history : (outcome step State.initial (retried 0 1000000) whole_runs).2 =
    retriedHistory 0 1000000 := by decide

theorem backoff_whole : ∃ tr s, Run step (fun s l => CommonClock s l ∧ Spaced s l)
    State.initial tr s ∧ .markedFailed 1 "j1" .retrying 1 0 ∈ tr ∧
    .markedRunning 1 "j1" 1000000 ∈ tr ∧ (0 : Time) + 2 ^ (1 - 1) * 1000000 ≤ 1000000 := by
  have hfew := Run.of_outcome whole_runs
    (show Admitted step (fun s l => (∀ p ∈ Label.pid l, p < 3) ∧
      (∀ p < 3, ∀ q < 3, ∀ id ∈ pending (s.procs p), ¬ handles id (s.procs q)) ∧
      CommonClock s l ∧ Replaces s l ∧ ShortDelay s l ∧ NotCutOff s l) _ _ by decide)
  have hrun : Run step (fun s l => CommonClock s l ∧ Spaced s l) _ _ _ :=
    hfew.strengthen fun hr hc => ⟨hc.2.2.1,
      unheld_of_idle (fun p hp => run_procs (fun _ _ hc hq => absurd (hc.1 p hq) hp.not_gt) hr)
        hc.2.1, hc.2.2.2.1, hc.2.2.2.2.1, hc.2.2.2.2.2⟩
  exact ⟨_, _, hrun, by decide, by decide, backoff hrun
    (show _ = _ ++ Act.markedFailed 1 "j1" .retrying 1 0 ::
      _ ++ Act.markedRunning 1 "j1" 1000000 :: [] from whole_history)⟩

/-- Marked failed at 0.9 s and read by the scan at 1.0 s, since the due time 1.9 s is
stored as 1. -/
theorem cutOff_runs : (execute step State.initial (retried 900000 1000000)).isSome := by decide

theorem cutOff_history : (outcome step State.initial (retried 900000 1000000) cutOff_runs).2 =
    retriedHistory 900000 1000000 := by decide

theorem restarted_early : ¬ ∀ tr s, Run step CommonClock State.initial tr s →
    ∀ before between after p q id n t now, tr = before ++ .markedFailed p id .retrying n t ::
      between ++ .markedRunning q id now :: after → t + 2 ^ (n - 1) * 1000000 ≤ now := by
  intro hall
  have hrun := Run.of_outcome cutOff_runs (show Admitted step CommonClock _ _ by decide)
  have hlate := hall _ _ hrun _ _ [] _ _ _ _ _ _ cutOff_history
  revert hlate
  decide

end JobFlow.Runs.Backoff
