import JobFlow.Runs.Carried

/-!
# What commands do to the entries of Redis

An entry is a member of one of the sorted sets, with its score. `exec_entry` says
what any command may do to one entry; the lemmas after it say what a command has
done when its caller hears that it succeeded.
-/

namespace JobFlow.Runs.Entries

open JobFlow.Model
open JobFlow.Model.RedisQueue
open ControlFlow Steps Carried

/-- How a command with the given reply changes the score of member `m` under `k`. -/
inductive EntryStep (e : Env) (cmd : Cmd) (r : Reply) (k m : String) :
    Option Int → Option Int → Prop
  | same {x : Option Int} : EntryStep e cmd r k m x x
  | enqueued {job : Job} {x : Option Int} (hcmd : cmd = .enqueue job) (hr : r = .done)
      (hk : k = queueKey job.queueName) (hm : m = job.id) :
      EntryStep e cmd r k m x (some (score job.priority e.reading))
  | delayed {job : Job} {delay : Int} {x : Option Int} (hcmd : cmd = .enqueueAfter job delay)
      (hr : r = .done) (hk : k = retriesKey) (hm : m = job.id) :
      EntryStep e cmd r k m x (some ((e.reading * 1000 + delay) / 1000000000))
  | removed {x : Option Int} (hcmd : cmd = .removeRetry m) (hr : r = .done) (hk : k = retriesKey) :
      EntryStep e cmd r k m x none
  | popped {name : String} {x : Option Int} (hcmd : cmd = .pop name) (hr : r = .popped (some m))
      (hk : k = queueKey name) : EntryStep e cmd r k m x none

theorem exec_entry {w w' : World} {e : Env} {cmd : Cmd} {r : Reply}
    (h : exec w e cmd = some (w', r)) (k m : String) :
    EntryStep e cmd r k m (w.redis.zscore k m) (w'.redis.zscore k m) := by
  cases hq : Cmd.usesQueue cmd with
  | false =>
    rw [exec_redis h hq]
    exact .same
  | true =>
  cases cmd <;> simp only [Cmd.usesQueue, Bool.false_eq_true] at hq <;>
    simp only [exec, Option.some.injEq] at h
  case enqueue job =>
    cases hr : RedisQueue.enqueue w.redis e.reading job <;> rw [hr] at h <;> cases h
    · exact .same
    · rw [Redis.zscore_zadd hr]
      split
      · next hkm => exact .enqueued rfl rfl hkm.1 hkm.2
      · exact .same
  case enqueueAfter job delay =>
    cases hr : RedisQueue.enqueueAfter w.redis e.reading job delay <;> rw [hr] at h <;> cases h
    · exact .same
    · rw [Redis.zscore_zadd hr]
      split
      · next hkm => exact .delayed rfl rfl hkm.1 hkm.2
      · exact .same
  case dueRetries =>
    cases h
    exact .same
  case removeRetry id =>
    cases hr : RedisQueue.removeRetry w.redis id <;> rw [hr] at h <;> cases h
    · exact .same
    · rw [Redis.zscore_zrem hr]
      split
      · next hkm => exact .removed (hkm.2 ▸ rfl) rfl hkm.1
      · exact .same
  case pop name =>
    split at h <;> cases h
    · next hr =>
      rcases Redis.zscore_zpopmin hr with ⟨-, rfl, -⟩ | ⟨m', sc, rfl, -, hrest, -⟩
      · exact .same
      · rw [hrest]
        split
        · next hkm => exact .popped rfl (hkm.2 ▸ rfl) hkm.1
        · exact .same
    · exact .same
  case deadLetter job =>
    cases hr : RedisQueue.deadLetter w.redis job <;> rw [hr] at h <;> cases h
    · exact .same
    · rw [Redis.zscore_lpush hr]
      exact .same

/-- An `Enqueue` that succeeded has put the job into its queue. -/
theorem exec_enqueue_done {w w' : World} {e : Env} {job : Job}
    (h : exec w e (.enqueue job) = some (w', .done)) :
    w'.redis.zscore (queueKey job.queueName) job.id = some (score job.priority e.reading) := by
  simp only [exec, Option.some.injEq] at h
  cases hr : RedisQueue.enqueue w.redis e.reading job <;> rw [hr] at h <;> cases h
  rw [Redis.zscore_zadd hr, if_pos ⟨rfl, rfl⟩]

theorem exec_enqueueAfter_done {w w' : World} {e : Env} {job : Job} {delay : Int}
    (h : exec w e (.enqueueAfter job delay) = some (w', .done)) :
    w'.redis.zscore retriesKey job.id = some ((e.reading * 1000 + delay) / 1000000000) := by
  simp only [exec, Option.some.injEq] at h
  cases hr : RedisQueue.enqueueAfter w.redis e.reading job delay <;> rw [hr] at h <;> cases h
  rw [Redis.zscore_zadd hr, if_pos ⟨rfl, rfl⟩]

/-- An `Enqueue` that the store does not refuse succeeds. -/
theorem exec_enqueue_reply {w w' : World} {e : Env} {job : Job} {r : Reply}
    (h : exec w e (.enqueue job) = some (w', r)) (hr : r.commandFailed = false) : r = .done := by
  simp only [exec, Option.some.injEq] at h
  cases hq : RedisQueue.enqueue w.redis e.reading job with
  | ok redis =>
    rw [hq] at h
    cases h
    rfl
  | error x =>
    rw [hq] at h
    cases h
    cases Redis.zadd_error hq
    cases hr

theorem exec_enqueueAfter_reply {w w' : World} {e : Env} {job : Job} {delay : Int} {r : Reply}
    (h : exec w e (.enqueueAfter job delay) = some (w', r)) (hr : r.commandFailed = false) :
    r = .done := by
  simp only [exec, Option.some.injEq] at h
  cases hq : RedisQueue.enqueueAfter w.redis e.reading job delay with
  | ok redis =>
    rw [hq] at h
    cases h
    rfl
  | error x =>
    rw [hq] at h
    cases h
    cases Redis.zadd_error hq
    cases hr

/-- An `EnqueueAfter` that did not succeed has left every entry as it was. -/
theorem exec_enqueueAfter_refused {w w' : World} {e : Env} {job : Job} {delay : Int} {r : Reply}
    (h : exec w e (.enqueueAfter job delay) = some (w', r)) (hr : r ≠ .done) (k m : String) :
    w'.redis.zscore k m = w.redis.zscore k m := by
  have hent := exec_entry h k m
  generalize w.redis.zscore k m = x at hent ⊢
  generalize w'.redis.zscore k m = x' at hent ⊢
  cases hent with
  | same => rfl
  | delayed _ hdone => exact absurd hdone hr
  | enqueued hcmd | removed hcmd | popped hcmd => cases hcmd

/-- An id that was popped was in the queue and is no longer. -/
theorem exec_pop_some {w w' : World} {e : Env} {name id : String}
    (h : exec w e (.pop name) = some (w', .popped (some id))) :
    w.redis.zscore (queueKey name) id ≠ none ∧ w'.redis.zscore (queueKey name) id = none := by
  simp only [exec, Option.some.injEq] at h
  split at h <;> cases h
  next hr =>
  rcases Redis.zscore_zpopmin hr with ⟨hn, -⟩ | ⟨m, sc, hm, hsc, hrest, -⟩
  · cases hn
  · cases hm
    exact ⟨by simp [hsc], by rw [hrest, if_pos ⟨rfl, rfl⟩]⟩

/-- The score of every id `PromoteRetries` reads is due by the reading. -/
theorem exec_dueRetries {w w' : World} {e : Env} {ids : List String}
    (h : exec w e .dueRetries = some (w', .members ids)) :
    ∀ id ∈ ids, ∃ sc, w.redis.zscore retriesKey id = some sc ∧ sc ≤ unix e.reading := by
  simp only [exec, Option.some.injEq, Prod.mk.injEq] at h
  obtain ⟨-, h⟩ := h
  cases hr : RedisQueue.dueRetries w.redis e.reading <;> rw [hr] at h <;> cases h
  intro id hid
  exact (Redis.mem_zrangebyscore hr id).mp hid

/-- Every entry of a queue belongs to a row that names the queue. -/
def QueueNames (s : State) : Prop :=
  ∀ name id, s.world.redis.zscore (queueKey name) id ≠ none →
    ∃ r, row s id = some r ∧ r.queueName = name

theorem queueNames_step {s s' : State} {l : Label} {a : Act} (hcar : CarriesRows s)
    (hq : QueueNames s) (h : step s l = some (s', a)) : QueueNames s' := by
  intro name id hsc
  have hold : s.world.redis.zscore (queueKey name) id ≠ none →
      ∃ r, row s' id = some r ∧ r.queueName = name := by
    intro hne
    obtain ⟨r, hr, hname⟩ := hq name id hne
    obtain ⟨r', hr', hsame⟩ := step_sameJob h hr
    exact ⟨r', hr', hsame.queueName.trans hname⟩
  rcases step_world h with hw | ⟨now, -, hw⟩ | ⟨p, m, e, cmd, next, r, -, hcode, hx⟩
  · exact hold (hw ▸ hsc)
  · rw [hw] at hsc
    exact hold hsc
  · have hent := exec_entry hx (queueKey name) id
    generalize s'.world.redis.zscore (queueKey name) id = sc at hent hsc
    cases hent with
    | same => exact hold hsc
    | @enqueued job _ hcmd hr hk hm =>
      subst hcmd hm
      obtain ⟨r₁, hr₁, hsame⟩ := hcar p job (carries_enqueue (follows hcode r))
      obtain ⟨r', hr', hsame'⟩ := step_sameJob h hr₁
      refine ⟨r', hr', ?_⟩
      rw [queueKey_injective hk, hsame'.queueName, hsame.queueName]
    | delayed _ _ hk => exact absurd hk (queueKey_ne_retriesKey _)
    | removed | popped => exact absurd rfl hsc

end JobFlow.Runs.Entries
