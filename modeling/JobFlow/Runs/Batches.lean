import JobFlow.Runs.Budget
import JobFlow.Runs.Entries

/-!
# The lists of the schedulers

A scheduler works through lists it has read: promoted rows and ids from the retry
set. The promoted rows are apart, and every job that comes near the retry set has
been started before.
-/

namespace JobFlow.Runs.Batches

open JobFlow.Model
open JobFlow.Model.JobRepository
open JobFlow.Model.RedisQueue
open JobFlow.Lib.Transition
open ControlFlow Steps Carried Entries

variable {s s' : State} {l : Label} {a : Act} {p q : Pid} {id : String} {pc pc' : Pc} {cmd : Cmd}
  {r : Reply} {job : Job}

/-- The ids `PromoteRetries` has read and not yet enqueued. -/
def pending : Pc → List String
  | .retriesFind id ids | .retriesEnqueue _ id ids => id :: ids
  | .retriesRemove _ ids => ids
  | _ => []

/-- The promoted jobs `PromoteScheduled` has not yet enqueued. -/
def promotes : Pc → List Job
  | .promoteEnqueue job jobs => job :: jobs
  | .promotePublish _ jobs => jobs
  | _ => []

/-- The points of `handle` between `MarkFailed` and `EnqueueAfter`. -/
def delays : Pc → Option Job
  | .countFailed _ job => if job.status = .retrying then some job else none
  | .enqueueAfter _ job => some job
  | _ => none

theorem lists_entry (h : EntryPoint pc) :
    pending pc = [] ∧ promotes pc = [] ∧ delays pc = none := by
  cases h <;> exact ⟨rfl, rfl, rfl⟩

/-- The scheduler works its lists off from the front and fills them by its two reads. -/
theorem lists_next (hf : Follows pc cmd r pc') :
    (pending pc' <:+ pending pc ∨ (pc = .retriesRange ∧ r = .members (pending pc'))) ∧
    (promotes pc' <:+ promotes pc ∨ (pc = .schedulerTick ∧ r = .jobs (promotes pc'))) := by
  have hnil : ∀ {α : Type} (xs : List α), [] <:+ xs := fun _ => List.nil_suffix
  cases hf with
  | ready => exact ⟨.inl (hnil _), .inr ⟨rfl, rfl⟩⟩
  | promoteEnqueued => exact ⟨.inl (hnil _), .inl (List.suffix_cons _ _)⟩
  | promotePublished => exact ⟨.inl (hnil _), .inl (List.suffix_refl _)⟩
  | due => exact ⟨.inr ⟨rfl, rfl⟩, .inl (hnil _)⟩
  | found | removed => exact ⟨.inl (List.suffix_refl _), .inl (hnil _)⟩
  | notFound | retriesEnqueued => exact ⟨.inl (List.suffix_cons _ _), .inl (hnil _)⟩
  | _ => exact ⟨.inl (hnil _), .inl (hnil _)⟩

/-- The job was marked by the goroutine itself, or waited with it before. -/
theorem delays_next (hf : Follows pc cmd r pc') (hd : delays pc' = some job) :
    delays pc = some job ∨ (r = .job job ∧ job.status = .retrying) := by
  cases hf with
  | failed =>
    simp only [delays] at hd
    split at hd <;> cases hd
    next hst => exact .inr ⟨rfl, hst⟩
  | failedCounted hst =>
    cases hd
    exact .inl (by simp [delays, hst])
  | _ => cases hd

/-- `ReadyScheduled` returns each row once. -/
theorem exec_readyScheduled {w w' : World} {e : Env} {limit : Nat} {jobs : List Job}
    (h : exec w e (.readyScheduled limit) = some (w', .jobs jobs)) : (jobs.map Job.id).Nodup := by
  simp only [exec] at h
  obtain ⟨⟨t, rows⟩, hready, heq⟩ := Option.map_eq_some_iff.mp h
  cases heq
  rw [(readyScheduled_rows hready).1]
  unfold readyScheduled at hready
  split at hready
  · next hb => exact hb.1
  · cases hready

/-- What a step may do to the lists of one scheduler. -/
theorem lists_step (h : step s l = some (s', a)) (q : Pid) :
    (pending (s'.procs q) <:+ pending (s.procs q) ∨
      ∃ e, l = .run q .ok e ∧ s.procs q = .retriesRange ∧ ∀ id ∈ pending (s'.procs q),
        ∃ sc, s.world.redis.zscore retriesKey id = some sc ∧ sc ≤ unix e.reading) ∧
    (promotes (s'.procs q) <:+ promotes (s.procs q) ∨
      ((promotes (s'.procs q)).map Job.id).Nodup) := by
  have hempty : ∀ {pc : Pc} {P Q : Prop}, pending pc = [] ∧ promotes pc = [] → s'.procs q = pc →
      (pending (s'.procs q) <:+ pending (s.procs q) ∨ P) ∧
      (promotes (s'.procs q) <:+ promotes (s.procs q) ∨ Q) := by
    rintro pc P Q ⟨hp, hj⟩ hpc
    rw [hpc, hp, hj]
    exact ⟨.inl List.nil_suffix, .inl List.nil_suffix⟩
  have hm := step_moves h q
  generalize hpc : s'.procs q = pc at hm
  rw [← hpc]
  cases hm with
  | stays =>
    rw [hpc]
    exact ⟨.inl (List.suffix_refl _), .inl (List.suffix_refl _)⟩
  | starts =>
    obtain ⟨hp, hj, -⟩ := lists_entry (entry_point _)
    exact hempty ⟨hp, hj⟩ hpc
  | crashes | stops => exact hempty ⟨rfl, rfl⟩ hpc
  | @finishes w job outcome =>
    refine hempty ?_ hpc
    cases outcome <;> exact ⟨rfl, rfl⟩
  | @runs m e cmd next r hl hran =>
    rw [hpc]
    obtain ⟨hp, hj⟩ := lists_next (follows hran.code (heard m r))
    refine ⟨hp.imp_right ?_, hj.imp_right ?_⟩
    · rintro ⟨hrange, hr⟩
      have hcode := hran.code
      rw [hrange] at hcode
      cases hcode
      obtain ⟨rfl, hrep⟩ := heard_ok hr (by simp)
      rcases hran.effect with ⟨-, hx⟩ | ⟨-, -, herr⟩
      · exact ⟨e, hl, hrange, exec_dueRetries (hrep ▸ hx)⟩
      · cases hrep.symm.trans herr
    · rintro ⟨htick, hr⟩
      have hcode := hran.code
      rw [htick] at hcode
      cases hcode
      have hrep := heard_eq hr (by simp)
      rcases hran.effect with ⟨-, hx⟩ | ⟨-, -, herr⟩
      · exact exec_readyScheduled (hrep ▸ hx)
      · cases hrep.symm.trans herr

/-- A goroutine about to delay a job was so before, or has just marked it. -/
theorem delays_from (h : step s l = some (s', a)) (hd : delays (s'.procs q) = some job) :
    delays (s.procs q) = some job ∨ (row s' job.id = some job ∧ job.status = .retrying) := by
  have hm := step_moves h q
  generalize s'.procs q = pc at hm hd
  cases hm with
  | stays => exact .inl hd
  | starts => cases (lists_entry (entry_point _)).2.2.symm.trans hd
  | crashes | stops => cases hd
  | @finishes w j outcome => cases outcome <;> cases hd
  | runs hl hran =>
    refine (delays_next (follows hran.code _) hd).imp_right ?_
    rintro ⟨hjob, hst⟩
    refine ⟨?_, hst⟩
    rcases hran.effect with ⟨-, hx⟩ | ⟨-, -, herr⟩
    · exact exec_rows hx job (by rw [heard_job hjob]; exact List.mem_cons_self)
    · cases (heard_job hjob).symm.trans herr

/-- The point that issues `EnqueueAfter`. -/
theorem delay_point {delay : Int} (hf : Follows pc (.enqueueAfter job delay) r pc') :
    ∃ w, pc = .enqueueAfter w job ∧ delay = retryDelay job.attempts := by
  cases hf
  exact ⟨_, rfl, rfl⟩

/-- The job has been started. -/
def Tried (row : Option Job) : Prop := ∃ r, row = some r ∧ 1 ≤ r.attempts

theorem tried_step (h : step s l = some (s', a)) (ht : Tried (row s id)) : Tried (row s' id) := by
  obtain ⟨r, hr, hatt⟩ := ht
  have hstep := step_row h id
  rw [hr] at hstep
  generalize row s' id = row' at hstep
  cases hstep with
  | same => exact ⟨r, rfl, hatt⟩
  | running => exact ⟨_, rfl, Nat.le_succ_of_le hatt⟩
  | cancelled | requeued | promoted | completed | failed => exact ⟨_, rfl, hatt⟩

/-- Promoted rows are apart, and what is delayed, rests in the retry set or was read
from it has been started. -/
structure Listed (s : State) : Prop where
  distinct : ∀ p, ((promotes (s.procs p)).map Job.id).Nodup
  delayed : ∀ p job, delays (s.procs p) = some job → Tried (row s job.id)
  resting : ∀ id, s.world.redis.zscore retriesKey id ≠ none → Tried (row s id)
  read : ∀ p, ∀ id ∈ pending (s.procs p), Tried (row s id)

theorem listed_step {tr : List Act} (hacc : ∀ id, Budget.Accounted id tr (row s' id))
    (hl : Listed s) (h : step s l = some (s', a)) : Listed s' := by
  constructor
  case distinct =>
    intro p
    rcases (lists_step h p).2 with hsuf | hnodup
    · exact (hl.distinct p).sublist (hsuf.sublist.map _)
    · exact hnodup
  case delayed =>
    intro p job hd
    rcases delays_from h hd with hold | ⟨hrow, hst⟩
    · exact tried_step h (hl.delayed p job hold)
    · have hspent := hacc job.id
      rw [hrow] at hspent
      have hspent := hspent.2
      simp only [Budget.Spent, hst] at hspent
      exact ⟨job, hrow, hspent.2.1⟩
  case resting =>
    intro id hsc
    refine tried_step h ?_
    rcases step_world h with hw | ⟨now, -, hw⟩ | ⟨p, m, e, cmd, next, r, -, hcode, hx⟩
    · exact hl.resting id (hw ▸ hsc)
    · exact hl.resting id (by rwa [hw] at hsc)
    · have hent := exec_entry hx retriesKey id
      generalize hsc₀ : s.world.redis.zscore retriesKey id = sc₀ at hent
      generalize s'.world.redis.zscore retriesKey id = sc at hent hsc
      cases hent with
      | same => exact hl.resting id (hsc₀ ▸ hsc)
      | enqueued _ _ hk | popped _ _ hk => exact absurd hk.symm (queueKey_ne_retriesKey _)
      | delayed hcmd _ _ hid =>
        subst hcmd hid
        obtain ⟨w, hpc, -⟩ := delay_point (follows hcode r)
        exact hl.delayed p _ (by rw [hpc]; rfl)
      | removed => exact absurd rfl hsc
  case read =>
    intro p id hp
    refine tried_step h ?_
    rcases (lists_step h p).1 with hsuf | ⟨e, -, -, hdue⟩
    · exact hl.read p id (hsuf.subset hp)
    · obtain ⟨sc, hsc, -⟩ := hdue id hp
      exact hl.resting id (by simp [hsc])

theorem listed_run {ok : State → Label → Prop} {tr : List Act}
    (h : Run step ok State.initial tr s) : Listed s := by
  refine h.invariant (I := fun _ s => Listed s) ?_ ?_
  · exact ⟨fun _ => .nil, fun _ _ hd => (by cases hd), fun _ hsc => absurd rfl hsc,
      fun _ _ hp => (List.not_mem_nil hp).elim⟩
  · intro tr s s' l a hrun hl hok h
    exact listed_step (Budget.accounted_run (hrun.next hok h)) hl h

end JobFlow.Runs.Batches
