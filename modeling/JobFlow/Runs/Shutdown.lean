import JobFlow.Runs.KeySpace

/-!
# Shutdown in the middle of `handle`

Every call of `handle` but the publishing uses the context that SIGTERM cancels,
and a call with a cancelled context returns an error and has no effect. `handle`
is followed here on its own, from any reachable state, with the number of calls
made before the cancellation as a parameter. `Stranded` jobs are those whose row
says running, or waits with no entry in Redis.
-/

namespace JobFlow.Runs.Shutdown

open JobFlow.Model
open JobFlow.Model.JobRepository
open JobFlow.Model.RedisQueue
open JobFlow.Lib.Transition
open Steps KeySpace

/-- The points of `handle` whose call uses the context of the pool. -/
def usesContext : Pc → Bool
  | .markRunning _ _ | .markCompleted _ _ | .countCompleted _ _ | .markFailed _ _ _
  | .countFailed _ _ | .enqueueAfter _ _ | .deadLetter _ _ => true
  | _ => false

/-- `handle` from a program point to its return, when `Process` ends with
`result` and the context is cancelled after `live` more calls with it. -/
def handle (result : Except String Unit) (e : Env) : Nat → Nat → World → Pc → Option World
  | 0, _, _, _ => none
  | fuel + 1, live, w, pc =>
    match pc with
    | .dequeue _ _ => some w
    | .process pool job => handle result e fuel live w (Pc.processed pool job result)
    | pc => do
      let m := if usesContext pc && live = 0 then Mode.failed else .ok
      let (w', pc', _) ← advance w pc m e
      handle result e fuel (if usesContext pc then live - 1 else live) w' pc'

variable (result : Except String Unit) (e : Env)

/-- What `handle` computes is a run of the system in which one goroutine moves. -/
theorem handle_run {result : Except String Unit} {e : Env} {fuel live : Nat} {s : State} {p : Pid}
    {w' : World}
    (h : handle result e fuel live s.world (s.procs p) = some w') :
    ∃ tr s', Run step anyStep s tr s' ∧ s'.world = w' ∧ ∀ q, q ≠ p → s'.procs q = s.procs q := by
  induction fuel generalizing live s with
  | zero => cases h
  | succ fuel ih =>
    unfold handle at h
    split at h
    · cases h
      exact ⟨[], s, .start, rfl, fun _ _ => rfl⟩
    · next pool job hpc =>
      have hs : step s (.finish p result) = some (s.moveTo p (Pc.processed pool job result),
          .processReturned p job.id result.isOk) := by
        simp [step, hpc]
      obtain ⟨tr, s', hrun, hw, hq⟩ := ih (s := s.moveTo p (Pc.processed pool job result))
        (by simpa [State.moveTo] using h)
      refine ⟨_, s', (Run.single trivial hs).trans hrun, hw, fun q hne => ?_⟩
      rw [hq q hne]
      simp [State.moveTo, hne]
    · simp only [Option.bind_eq_bind, Option.bind_eq_some_iff, Prod.exists] at h
      obtain ⟨w₁, pc₁, r, hadv, hrest⟩ := h
      have hs : ∃ m, step s (.run p m e) = some (⟨w₁, Function.update s.procs p pc₁⟩,
          observe p (s.procs p) s.world.clock r) := ⟨_, by
        simp only [step]
        rw [hadv]
        rfl⟩
      obtain ⟨m, hs⟩ := hs
      obtain ⟨tr, s', hrun, hw, hq⟩ := ih (s := ⟨w₁, Function.update s.procs p pc₁⟩)
        (by simpa using hrest)
      refine ⟨_, s', (Run.single trivial hs).trans hrun, hw, fun q hne => ?_⟩
      rw [hq q hne]
      simp [hne]

/-- The id is in the queue of the job or in the retry set. -/
def HasEntry (redis : Redis) (r : Job) : Prop :=
  redis.zscore (queueKey r.queueName) r.id ≠ none ∨ redis.zscore retriesKey r.id ≠ none

/-- `job.completed` was published for the job after `w`. -/
def Announced (w w' : World) (id : String) : Prop :=
  ∃ new, w'.events = w.events ++ new ∧ ⟨"job.completed", .id id⟩ ∈ new

/-- What shutdown should leave behind. -/
structure Settled (w w' : World) (id : String) : Prop where
  notRunning : ∀ r, w'.jobs.find id = some r → r.status ≠ .running
  waiting : ∀ r, w'.jobs.find id = some r → r.status = .queued ∨ r.status = .retrying →
    HasEntry w'.redis r
  announced : Announced w w' id → ∃ r, w'.jobs.find id = some r ∧ r.status = .completed

/-- When it does: the calls made before the cancellation end the execution, and a
job that still waits has an entry, its own from `EnqueueAfter` or another one. -/
def InTime (w : World) (id : String) (result : Except String Unit) (live : Nat) : Prop :=
  match w.jobs.find id with
  | none => True
  | some r =>
    if r.status = .queued ∨ r.status = .retrying then
      match live, result with
      | 0, _ => HasEntry w.redis r
      | 1, _ => False
      | _ + 2, .ok _ => True
      | n + 2, .error _ => (r.attempts : Int) + 1 < r.maxAttempts → 2 ≤ n ∨ HasEntry w.redis r
    else r.status ≠ .running

/-- A call after the cancellation changes nothing. -/
theorem handle_cancelled (fuel : Nat) (w : World) {pc : Pc} {cmd : Cmd} {next : Reply → Pc}
    (hu : usesContext pc = true) (hc : pc.code = some (cmd, next)) :
    handle result e (fuel + 1) 0 w pc = handle result e fuel 0 w (next (.err .unavailable)) := by
  cases pc <;> simp only [usesContext, Bool.false_eq_true] at hu <;>
    simp [handle, usesContext, advance, hc]

/-- A call before the cancellation is an ordinary one. -/
theorem handle_live (fuel live : Nat) {w w' : World} {pc : Pc} {cmd : Cmd} {next : Reply → Pc}
    {r : Reply} (hu : usesContext pc = true) (hc : pc.code = some (cmd, next))
    (hx : exec w e cmd = some (w', r)) :
    handle result e (fuel + 1) (live + 1) w pc = handle result e fuel live w' (next r) := by
  cases pc <;> simp only [usesContext, Bool.false_eq_true] at hu <;>
    simp [handle, usesContext, advance, hc, hx]

/-- Publishing works in any case. -/
theorem handle_publish (fuel live : Nat) (w : World) {pc : Pc} {event : Event}
    {next : Reply → Pc} (hu : usesContext pc = false) (hc : pc.code = some (.publish event, next)) :
    handle result e (fuel + 1) live w pc =
      handle result e fuel live { w with events := w.events ++ [event] } (next .done) := by
  cases pc <;> simp only [usesContext, reduceCtorEq] at hu
  case dequeue pool queues => cases queues <;> simp [Pc.code, Pc.tryQueue] at hc
  all_goals simp_all [handle, usesContext, advance, Pc.code, exec]

/-- The counters of the worker are beside the point, and so is their error. -/
theorem handle_count (fuel live : Nat) (w : World) {pc pc' : Pc} {worker : String}
    {failed : Bool} (hu : usesContext pc = true)
    (hc : pc.code = some (.incrementProcessed worker failed, fun _ => pc')) :
    ∃ w', handle result e (fuel + 1) live w pc = handle result e fuel (live - 1) w' pc' ∧
      w'.jobs = w.jobs ∧ w'.redis = w.redis ∧ w'.events = w.events := by
  cases live with
  | zero => exact ⟨w, handle_cancelled result e fuel w hu hc, rfl, rfl, rfl⟩
  | succ live =>
    obtain ⟨hj, -, hr, hev⟩ := onWorkers_frame w
      (WorkerRepository.incrementProcessed w.workers w.clock worker failed)
    exact ⟨_, handle_live result e fuel live hu hc rfl, hj, hr, hev⟩

/-- After success the row is completed if one call is left, and the event goes
out in any case. -/
theorem completed_tail (fuel live : Nat) (w : World) (pool : Pool) (job : Job) :
    ∃ w', handle result e (fuel + 4) live w (.markCompleted pool job) = some w' ∧
      (live = 0 → w'.jobs = w.jobs) ∧
      (0 < live → w'.jobs.find job.id =
        (w.jobs.find job.id).map (completedSet w.clock).apply) := by
  have hrest : ∀ live w₁, ∃ w',
      handle result e (fuel + 3) live w₁ (.countCompleted pool job) = some w' ∧
        w'.jobs = w₁.jobs := by
    intro live w₁
    obtain ⟨w₂, hcount, hj, -⟩ := handle_count result e (fuel + 2) live w₁
      (show usesContext (.countCompleted pool job) = true from rfl) rfl
    rw [hcount, handle_publish result e (fuel + 1) (live - 1) w₂ rfl rfl]
    exact ⟨_, rfl, hj⟩
  cases live with
  | zero =>
    rw [handle_cancelled result e (fuel + 3) w rfl rfl]
    obtain ⟨w', hw', hj⟩ := hrest 0 w
    exact ⟨w', hw', fun _ => hj, fun h => absurd h (Nat.lt_irrefl 0)⟩
  | succ live =>
    rw [handle_live result e (fuel + 3) live rfl rfl rfl]
    obtain ⟨w', hw', hj⟩ := hrest live _
    refine ⟨w', hw', fun h => absurd h (Nat.succ_ne_zero live), fun _ => ?_⟩
    rw [hj]
    exact JobTable.find_update_id w.jobs (completedSet w.clock) job.id

/-- A retrying job gets its entry if a call is left. -/
theorem retrying_tail (fuel live : Nat) {w : World} (pool : Pool) (job : Job)
    (hl : OneList w.redis) :
    ∃ w', handle result e (fuel + 3) live w (.enqueueAfter pool job) = some w' ∧
      w'.jobs = w.jobs ∧
      w'.events = w.events ++ [⟨"job.retrying", .job job⟩] ∧
      (live = 0 → w'.redis = w.redis) ∧
      (0 < live → w'.redis.zscore retriesKey job.id ≠ none) := by
  cases live with
  | zero =>
    rw [handle_cancelled result e (fuel + 2) w rfl rfl,
      handle_publish result e (fuel + 1) 0 w rfl rfl]
    exact ⟨_, rfl, rfl, rfl, fun _ => rfl, fun h => absurd h (Nat.lt_irrefl 0)⟩
  | succ live =>
    obtain ⟨redis, hr⟩ : ∃ redis, RedisQueue.enqueueAfter w.redis e.reading job
        (retryDelay job.attempts) = .ok redis := by
      cases hs : w.redis.sortedAt retriesKey with
      | ok z => exact ⟨_, by simp [RedisQueue.enqueueAfter, Redis.zadd, hs, bind, Except.bind]; rfl⟩
      | error x =>
        unfold Redis.sortedAt at hs
        split at hs <;> cases hs
        next hv => exact absurd (hl _ _ hv).symm deadLetterKey_ne_retriesKey
    have hx : exec w e (.enqueueAfter job (retryDelay job.attempts)) =
        some ({ w with redis := redis }, .done) := by
      simp [exec, hr, onRedis]
    rw [handle_live result e (fuel + 2) live rfl rfl hx,
      handle_publish result e (fuel + 1) live _ rfl rfl]
    refine ⟨_, rfl, rfl, rfl, fun h => absurd h (Nat.succ_ne_zero live), fun _ => ?_⟩
    rw [Redis.zscore_zadd hr, if_pos ⟨rfl, rfl⟩]
    simp

theorem deadLetter_tail (fuel live : Nat) (w : World) (pool : Pool) (job : Job) :
    ∃ w', handle result e (fuel + 3) live w (.deadLetter pool job) = some w' ∧
      w'.jobs = w.jobs ∧
      w'.events = w.events ++ [⟨"job.dead_letter", .job job⟩] := by
  cases live with
  | zero =>
    rw [handle_cancelled result e (fuel + 2) w rfl rfl,
      handle_publish result e (fuel + 1) 0 w rfl rfl]
    exact ⟨_, rfl, rfl, rfl⟩
  | succ live =>
    obtain ⟨hj, -, hev⟩ := onRedis_frame w (RedisQueue.deadLetter w.redis job)
    rw [handle_live result e (fuel + 2) live rfl rfl rfl,
      handle_publish result e (fuel + 1) live _ rfl rfl]
    exact ⟨_, rfl, hj, congrArg (· ++ _) hev⟩

/-- After a failure the row is written if one call is left. A retrying job has an
entry if three are left, or if it had one before. -/
theorem failed_tail (fuel live : Nat) {w : World} (pool : Pool) {job r : Job} (message : String)
    (hr : w.jobs.find job.id = some r) (hl : OneList w.redis) :
    ∃ w', handle result e (fuel + 5) live w (.markFailed pool job message) = some w' ∧
      (live = 0 → w' = w) ∧
      (0 < live → w'.jobs.find job.id = some ((failedSet w.clock message).apply r) ∧
        (∃ event, w'.events = w.events ++ [event] ∧ event.event ≠ "job.completed") ∧
        (((failedSet w.clock message).apply r).status = .retrying →
          (HasEntry w'.redis r ↔ 3 ≤ live ∨ HasEntry w.redis r))) := by
  cases live with
  | zero =>
    rw [handle_cancelled result e (fuel + 4) w rfl rfl]
    exact ⟨w, rfl, fun _ => rfl, fun h => absurd h (Nat.lt_irrefl 0)⟩
  | succ live =>
    obtain ⟨hret, hfind⟩ := markFailed_of_find hr w.clock message
    generalize hr' : (failedSet w.clock message).apply r = r' at hret hfind
    have hid : r'.id = job.id ∧ r'.id = r.id := by
      subst hr'
      exact ⟨((failedSet w.clock message).keepsID r).trans (JobTable.find_id hr),
        (failedSet w.clock message).keepsID r⟩
    have hx : exec w e (.markFailed job.id message) =
        some ({ w with jobs := (markFailed w.jobs w.clock job.id message).1 }, .job r') := by
      simp [exec, onJobs, hret, ofRow]
    rw [handle_live result e (fuel + 4) live rfl rfl hx]
    obtain ⟨w₁, hcount, hj, hredis, hev⟩ := handle_count result e (fuel + 3) live
      { w with jobs := (markFailed w.jobs w.clock job.id message).1 }
      (show usesContext (.countFailed pool r') = true from rfl) rfl
    rw [hcount]
    by_cases hst : r'.status = .retrying
    · rw [if_pos hst]
      obtain ⟨w₂, hw₂, hj₂, hev₂, hnone, hentry⟩ := retrying_tail result e fuel (live - 1)
        pool r' (hredis ▸ hl)
      refine ⟨w₂, hw₂, fun h => absurd h (Nat.succ_ne_zero live), fun _ =>
        ⟨by rw [hj₂, hj]; exact hfind, ⟨_, by rw [hev₂, hev],
        show "job.retrying" ≠ "job.completed" by decide⟩, fun _ => ?_⟩⟩
      rcases Nat.eq_zero_or_pos (live - 1) with hz | hpos
      · rw [hnone hz, hredis]
        exact ⟨.inr, fun h => h.resolve_left (by omega)⟩
      · exact ⟨fun _ => .inl (by omega), fun _ => .inr (hid.2 ▸ hentry hpos)⟩
    · rw [if_neg hst]
      obtain ⟨w₂, hw₂, hj₂, hev₂⟩ := deadLetter_tail result e fuel (live - 1) w₁ pool r'
      exact ⟨w₂, hw₂, fun h => absurd h (Nat.succ_ne_zero live), fun _ =>
        ⟨by rw [hj₂, hj]; exact hfind, ⟨_, by rw [hev₂, hev], show "job.dead_letter" ≠ "job.completed" by decide⟩,
        fun h => absurd h hst⟩⟩

/-- `MarkRunning` with a live context starts the job and leads to `Process`. -/
theorem started (fuel live : Nat) {w : World} (pool : Pool) {id : String} {r : Job}
    (hr : w.jobs.find id = some r) (hst : r.status = .queued ∨ r.status = .retrying) :
    ∃ w', handle result e (fuel + 3) (live + 1) w (.markRunning pool id) =
        handle result e fuel live w' (Pc.processed pool ((runningSet w.clock).apply r) result) ∧
      w'.jobs.find id = some ((runningSet w.clock).apply r) ∧ w'.redis = w.redis ∧
      w'.events = w.events ++ [⟨"job.running", .job ((runningSet w.clock).apply r)⟩] := by
  rcases markRunning_cases w.jobs w.clock id with ⟨r', hr', -, hret, hfind⟩ | ⟨hno, -⟩
  · obtain rfl : r = r' := Option.some.inj (hr.symm.trans hr')
    have hx : exec w e (.markRunning id) =
        some ({ w with jobs := (markRunning w.jobs w.clock id).1 },
          .job ((runningSet w.clock).apply r)) := by
      simp [exec, onJobs, hret, ofRow]
    rw [handle_live result e (fuel + 2) live rfl rfl hx,
      handle_publish result e (fuel + 1) live _ rfl rfl]
    exact ⟨_, rfl, hfind, rfl, rfl⟩
  · refine absurd ?_ (hno r hr)
    rcases hst with hst | hst <;> simp [runningWhere, JobTable.find_id hr, hst]

/-- Otherwise `handle` returns at once and has changed nothing of the job. -/
theorem not_started (fuel live : Nat) (w : World) (pool : Pool) (id : String)
    (h : live = 0 ∨ ∀ r, w.jobs.find id = some r → r.status ≠ .queued ∧ r.status ≠ .retrying) :
    ∃ w', handle result e (fuel + 2) live w (.markRunning pool id) = some w' ∧
      w'.jobs.find id = w.jobs.find id ∧ w'.redis = w.redis ∧ w'.events = w.events := by
  cases live with
  | zero =>
    rw [handle_cancelled result e (fuel + 1) w rfl rfl]
    exact ⟨w, rfl, rfl, rfl, rfl⟩
  | succ live =>
    rcases markRunning_cases w.jobs w.clock id with ⟨r, hr, hw, -⟩ | ⟨-, hret, hfind⟩
    · have hst := h.resolve_left (Nat.succ_ne_zero live) r hr
      simp only [runningWhere, Bool.and_eq_true, Bool.or_eq_true, decide_eq_true_eq] at hw
      tauto
    · have hx : exec w e (.markRunning id) =
          some ({ w with jobs := (markRunning w.jobs w.clock id).1 }, .err .noRows) := by
        simp [exec, onJobs, hret, ofRow]
      rw [handle_live result e (fuel + 1) live rfl rfl hx]
      exact ⟨_, rfl, hfind, rfl, rfl⟩

theorem announced_iff {w w' : World} {id : String} {new : List Event}
    (h : w'.events = w.events ++ new) : Announced w w' id ↔ ⟨"job.completed", .id id⟩ ∈ new := by
  constructor
  · rintro ⟨new', hnew, hmem⟩
    rwa [List.append_cancel_left (h.symm.trans hnew)]
  · exact fun hmem => ⟨new, h, hmem⟩

theorem settled_of_kept {w w' : World} {id : String} (hj : w'.jobs.find id = w.jobs.find id)
    (hr : w'.redis = w.redis) (hev : w'.events = w.events) :
    Settled w w' id ↔ ∀ r, w.jobs.find id = some r → r.status ≠ .running ∧
      (r.status = .queued ∨ r.status = .retrying → HasEntry w.redis r) := by
  constructor
  · intro h r hf
    rw [← hj] at hf
    exact ⟨h.notRunning r hf, fun hst => hr ▸ h.waiting r hf hst⟩
  · intro h
    refine ⟨fun r hf => (h r (hj ▸ hf)).1, fun r hf hst => hr ▸ (h r (hj ▸ hf)).2 hst, ?_⟩
    rw [announced_iff (show w'.events = w.events ++ [] by simp [hev])]
    exact nofun

/-- A row left running is not settled. -/
theorem not_settled {w w' : World} {id : String} {r : Job} (hf : w'.jobs.find id = some r)
    (hst : r.status = .running) : ¬ Settled w w' id :=
  fun h => h.notRunning r hf hst

/-- A completed row is. -/
theorem settled_of_completed {w w' : World} {id : String} {r : Job}
    (hf : w'.jobs.find id = some r) (hst : r.status = .completed) : Settled w w' id where
  notRunning r' hr' := by
    obtain rfl : r = r' := Option.some.inj (hf.symm.trans hr')
    simp [hst]
  waiting r' hr' hw := by
    obtain rfl : r = r' := Option.some.inj (hf.symm.trans hr')
    simp [hst] at hw
  announced _ := ⟨r, hf, hst⟩

/-- A row marked failed is, if it has an entry in case it retries. -/
theorem settled_of_failed {w w' : World} {id message : String} {now : Time} {r : Job}
    (hf : w'.jobs.find id = some ((failedSet now message).apply r))
    (hno : ¬ Announced w w' id) :
    Settled w w' id ↔ (((failedSet now message).apply r).status = .retrying →
      HasEntry w'.redis r) := by
  have hst : ((failedSet now message).apply r).status = .retrying ∨
      ((failedSet now message).apply r).status = .deadLetter := by
    simp only [failedSet]
    split
    · exact .inl rfl
    · exact .inr rfl
  constructor
  · intro h hretry
    have hentry := h.waiting _ hf (.inr hretry)
    exact hentry
  · intro h
    refine ⟨fun r' hr' => ?_, fun r' hr' hw => ?_, fun ha => absurd ha hno⟩ <;>
      obtain rfl := Option.some.inj (hf.symm.trans hr')
    · rcases hst with hst | hst <;> simp [hst]
    · rcases hst with hst | hst
      · exact h hst
      · simp [hst] at hw

/-- After success a started job is settled if one more call was made. -/
theorem handle_ok (live : Nat) {w w₁ : World} (pool : Pool) {job : Job}
    (hf : w₁.jobs.find job.id = some job) (hrun : job.status = .running) :
    ∃ w', handle result e 5 live w₁ (.markCompleted pool job) = some w' ∧
      (Settled w w' job.id ↔ 0 < live) := by
  obtain ⟨w', hw', hnone, hdone⟩ := completed_tail result e 1 live w₁ pool job
  refine ⟨w', hw', ?_⟩
  rcases Nat.eq_zero_or_pos live with hz | hpos
  · have hns : ¬ Settled w w' job.id := not_settled (by rw [hnone hz]; exact hf) hrun
    exact iff_of_false hns (by omega)
  · have hf' := hdone hpos
    rw [hf] at hf'
    exact iff_of_true (settled_of_completed hf' rfl) hpos

/-- After a failure it is settled if one more call was made and, in case it
retries, the entry was made too or there is another one. -/
theorem handle_error (live : Nat) {w w₁ : World} (pool : Pool) {job : Job} (message : String)
    (hf : w₁.jobs.find job.id = some job) (hrun : job.status = .running) (hl : OneList w₁.redis)
    {name : String} {data : EventData} (hev : w₁.events = w.events ++ [⟨name, data⟩])
    (hname : name ≠ "job.completed") :
    ∃ w', handle result e 5 live w₁ (.markFailed pool job message) = some w' ∧
      (Settled w w' job.id ↔ 0 < live ∧
        ((job.attempts : Int) < job.maxAttempts → 3 ≤ live ∨ HasEntry w₁.redis job)) := by
  obtain ⟨w', hw', hnone, hdone⟩ := failed_tail result e 0 live pool message hf hl
  refine ⟨w', hw', ?_⟩
  rcases Nat.eq_zero_or_pos live with hz | hpos
  · have hns : ¬ Settled w w' job.id := not_settled (by rw [hnone hz]; exact hf) hrun
    exact iff_of_false hns (by omega)
  · obtain ⟨hf', ⟨event, hev', hne⟩, hentry⟩ := hdone hpos
    have hno : ¬ Announced w w' job.id := by
      rw [announced_iff (hev'.trans (by rw [hev, List.append_assoc]))]
      simp only [List.cons_append, List.nil_append, List.mem_cons, List.not_mem_nil, or_false,
        Event.mk.injEq]
      rintro (⟨hn, -⟩ | hn)
      · exact hname hn.symm
      · exact hne (hn ▸ rfl)
    have hretry : ((failedSet w₁.clock message).apply job).status = .retrying ↔
        (job.attempts : Int) < job.maxAttempts := by
      simp only [failedSet]
      split <;> simp_all
    rw [settled_of_failed hf' hno, hretry, and_iff_right hpos]
    exact forall_congr' fun hlt => hentry (hretry.mpr hlt)

/-- An execution that `MarkRunning` refuses leaves the job as it was. -/
theorem handle_refused (live : Nat) (w : World) (pool : Pool) (id : String)
    (h : live = 0 ∨ ∀ r, w.jobs.find id = some r → r.status ≠ .queued ∧ r.status ≠ .retrying) :
    ∃ w', handle result e 8 live w (.markRunning pool id) = some w' ∧
      (Settled w w' id ↔ ∀ r, w.jobs.find id = some r → r.status ≠ .running ∧
        (r.status = .queued ∨ r.status = .retrying → HasEntry w.redis r)) := by
  obtain ⟨w', hw', hj, hredis, hev⟩ := not_started result e 6 live w pool id h
  exact ⟨w', hw', settled_of_kept hj hredis hev⟩

/-- One that it accepts goes by what is left of the context for the later calls. -/
theorem handle_accepted (live : Nat) {w : World} (pool : Pool) {id : String} {r : Job}
    (hl : OneList w.redis) (hr : w.jobs.find id = some r)
    (hst : r.status = .queued ∨ r.status = .retrying) :
    ∃ w', handle result e 8 (live + 1) w (.markRunning pool id) = some w' ∧
      (Settled w w' id ↔ InTime w id result (live + 1)) := by
  obtain ⟨w₁, hw₁, hf₁, hredis₁, hev₁⟩ := started result e 5 live pool hr hst
  have hid : ((runningSet w.clock).apply r).id = id := JobTable.find_id hf₁
  rw [hw₁]
  unfold InTime
  simp only [hr, hst, if_true]
  cases result with
  | ok u =>
    obtain ⟨w', hw', hiff⟩ := handle_ok (.ok u) e live (w := w) pool (hid.symm ▸ hf₁) rfl
    refine ⟨w', hw', ?_⟩
    rw [hid] at hiff
    cases live <;> simpa using hiff
  | error message =>
    obtain ⟨w', hw', hiff⟩ := handle_error (.error message) e live pool message
      (hid.symm ▸ hf₁) rfl (hredis₁ ▸ hl) hev₁ (by decide)
    refine ⟨w', hw', ?_⟩
    rw [hid, hredis₁] at hiff
    cases live with
    | zero => simpa using hiff
    | succ n =>
      rw [hiff, and_iff_right n.succ_pos]
      have hn : 3 ≤ n + 1 ↔ 2 ≤ n := by omega
      have hatt : (((runningSet w.clock).apply r).attempts : Int) = r.attempts + 1 := rfl
      rw [hn, hatt]
      exact Iff.rfl

/-- From any reachable state in which a worker has popped a job, and for every
outcome of `Process`, its error with a text that PostgreSQL takes, and every moment
of the cancellation, `handle` returns, and what it leaves behind is settled exactly
when the cancellation came in time. -/
theorem shutdown_iff {tr : List Act} {s : State} (h : Run step anyStep State.initial tr s)
    {p : Pid} {pool : Pool} {id : String} (hp : s.procs p = .markRunning pool id) (live : Nat) :
    ∃ w', handle result e 8 live s.world (s.procs p) = some w' ∧
      (Settled s.world w' id ↔ InTime s.world id result live) := by
  rw [hp]
  have hl : OneList s.world.redis := oneList_run h
  cases hr : s.world.jobs.find id with
  | none =>
    obtain ⟨w', hw', hiff⟩ := handle_refused result e live s.world pool id (.inr (by simp [hr]))
    refine ⟨w', hw', ?_⟩
    rw [hiff]
    simp [InTime, hr]
  | some r =>
    by_cases hst : r.status = .queued ∨ r.status = .retrying
    case neg =>
      obtain ⟨w', hw', hiff⟩ := handle_refused result e live s.world pool id
        (.inr fun r' hr' => Option.some.inj (hr.symm.trans hr') ▸ not_or.mp hst)
      refine ⟨w', hw', ?_⟩
      rw [hiff]
      simp [InTime, hr, hst]
    case pos =>
    cases live with
    | zero =>
      obtain ⟨w', hw', hiff⟩ := handle_refused result e 0 s.world pool id (.inl rfl)
      refine ⟨w', hw', ?_⟩
      have hrun : r.status ≠ .running := by rcases hst with hst | hst <;> simp [hst]
      rw [hiff]
      simp [InTime, hr, hst, hrun]
    | succ live => exact handle_accepted result e live pool hl hr hst

/-- The job is created (0) and popped by a worker (1). -/
def poppedJob : List Label :=
  [.start 0 (.request (.create ⟨"u1", "default", "send_email", none, 0, 3, none⟩)),
    .run 0 .ok { freshID := "j1" }, .run 0 .ok {}, .run 0 .ok {},
    .start 1 (.worker ⟨"w1", "host", ["default"]⟩), .run 1 .ok {}]

theorem poppedJob_runs : (execute step State.initial poppedJob).isSome := by decide

/-- The state of the two stores and goroutines after that. -/
def popped : State := (outcome step State.initial poppedJob poppedJob_runs).1

theorem popped_run : Run step anyStep State.initial
    (outcome step State.initial poppedJob poppedJob_runs).2 popped :=
  Run.of_outcome poppedJob_runs (admitted_anyStep _ _)

theorem popped_markRunning : popped.procs 1 = .markRunning ⟨"w1", "host", ["default"]⟩ "j1" := rfl

/-- SIGTERM arrives while `Process` runs: `MarkFailed` is then refused, and the
row stays running with nobody to finish it. -/
theorem interrupted_running : ¬ ∀ tr s p pool id outcome e live w',
    Run step anyStep State.initial tr s → s.procs p = .markRunning pool id →
    handle outcome e 8 live s.world (s.procs p) = some w' → Settled s.world w' id := by
  intro hall
  have hgo : (handle (.error "context canceled") {} 8 1 popped.world (popped.procs 1)).isSome := by
    decide
  have hst : (((handle (.error "context canceled") {} 8 1 popped.world (popped.procs 1)).bind
      fun w => w.jobs.find "j1").map Job.status) = some .running := by decide
  obtain ⟨w', hw'⟩ := Option.isSome_iff_exists.mp hgo
  rw [hw', Option.bind_some] at hst
  obtain ⟨r, hr, hrun⟩ := Option.map_eq_some_iff.mp hst
  exact not_settled hr hrun (hall _ popped 1 _ "j1" _ {} 1 w' popped_run popped_markRunning hw')

/-- SIGTERM after `MarkCompleted` does no harm. -/
theorem shutdown_iff_completed : ∃ tr s w', Run step anyStep State.initial tr s ∧
    handle (.ok ()) {} 8 2 s.world (s.procs 1) = some w' ∧ Settled s.world w' "j1" := by
  obtain ⟨w', hw', hiff⟩ := shutdown_iff (.ok ()) {} popped_run popped_markRunning 2
  refine ⟨_, popped, w', popped_run, hw', hiff.mpr ?_⟩
  have hst : (popped.world.jobs.find "j1").map Job.status = some .queued := by decide
  obtain ⟨r, hr, hst⟩ := Option.map_eq_some_iff.mp hst
  unfold InTime
  rw [hr]
  simp [hst]

end JobFlow.Runs.Shutdown
