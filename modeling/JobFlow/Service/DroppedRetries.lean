import JobFlow.Model.PromoteScheduled
import JobFlow.Service.Atomicity

/-!
# What `PromoteRetries` loses

The loop fetches the job of each due id, puts it into its queue and removes the id from the
retry set. It drops the error of each of the three calls, and removes the id whatever came
of the other two. A retry is lost if the job was not put into its queue and the removal
went through.
-/

namespace JobFlow.Service.DroppedRetries

open JobFlow.Model
open JobFlow.Model.JobRepository
open JobFlow.Model.RedisQueue
open JobFlow.Service.Atomicity (EnqueueFails)

variable {p : Pattern} {w w' w₁ : World} {id : String} {job : Job} {c : Choice}

/-- The same keys hold the same lists. -/
def SameLists (r r' : Redis) : Prop :=
  ∀ key items, r' key = some (.list items) ↔ r key = some (.list items)

theorem SameLists.trans {r₁ r₂ r₃ : Redis} (h : SameLists r₁ r₂) (h' : SameLists r₂ r₃) :
    SameLists r₁ r₃ := fun key items => (h' key items).trans (h key items)

theorem EnqueueFails.congr (h : SameLists w.redis w'.redis) :
    EnqueueFails w' job c ↔ EnqueueFails w job c :=
  or_congr_right (exists_congr fun items => h (queueKey job.queueName) items)

/-- A command on a sorted set leaves the lists. -/
theorem sameLists_putSorted {r : Redis} {key : String} {z z' : Lib.SortedSet String Int}
    (h : r.sortedAt key = .ok z) : SameLists r (r.putSorted key z') := by
  intro k items
  unfold Redis.putSorted
  by_cases hk : k = key
  · subst hk
    rw [Function.update_self]
    constructor
    · intro hl
      split at hl <;> cases hl
    · intro hl
      simp [Redis.sortedAt, hl] at h
  · rw [Function.update_of_ne hk]

/-- An `Enqueue` fails or adds one entry. -/
theorem attempt_enqueue (w : World) (job : Job) (c : Choice) :
    (EnqueueFails w job c ∧ ∃ e, c.attempt (enqueue w.redis c.env.reading job) = .error e) ∨
    (¬ EnqueueFails w job c ∧ ∃ r, c.attempt (enqueue w.redis c.env.reading job) = .ok r ∧
      SameLists w.redis r ∧ ∀ k m, r.zscore k m =
        if k = queueKey job.queueName ∧ m = job.id then some (score job.priority c.env.reading)
        else w.redis.zscore k m) := by
  unfold Choice.attempt EnqueueFails
  cases hc : c.fails with
  | true => exact .inl ⟨.inl rfl, .unavailable, rfl⟩
  | false =>
    rw [if_neg (by simp)]
    cases hq : enqueue w.redis c.env.reading job with
    | error e =>
      refine .inl ⟨.inr ?_, e, rfl⟩
      unfold enqueue Redis.zadd Redis.sortedAt at hq
      cases hv : w.redis (queueKey job.queueName) with
      | none => simp [hv] at hq
      | some v =>
        cases v with
        | zset z => simp [hv] at hq
        | list items => exact ⟨items, rfl⟩
    | ok r =>
      obtain ⟨z, hz, rfl⟩ := Redis.zadd_ok hq
      refine .inr ⟨?_, _, rfl, sameLists_putSorted hz, Redis.zscore_zadd hq⟩
      rintro (hf | ⟨items, hl⟩)
      · cases hf
      · simp [Redis.sortedAt, hl] at hz

/-- The row of an id is fetched and put into its queue, which has the given name. -/
def Requeued (p : Pattern) (w : World) (id queueName : String) : Prop :=
  ∃ r, w.jobs.find id = some r ∧ r.queueName = queueName ∧ (p.fetch id).fails = false ∧
    ¬ EnqueueFails w r (p.requeue id)

/-- What the loop of `PromoteRetries` has done when it has gone through some ids. -/
structure Passed (p : Pattern) (ids : List String) (w w' : World) : Prop where
  jobs : w'.jobs = w.jobs
  lists : SameLists w.redis w'.redis
  queued : ∀ name m, w'.redis.zscore (queueKey name) m ≠ none ↔
    w.redis.zscore (queueKey name) m ≠ none ∨ (m ∈ ids ∧ Requeued p w m name)
  delayed : ∀ m, w'.redis.zscore retriesKey m =
    if m ∈ ids ∧ (p.remove m).fails = false then none else w.redis.zscore retriesKey m

theorem Requeued.congr (hj : w'.jobs = w.jobs) (hl : SameLists w.redis w'.redis)
    {name : String} : Requeued p w' id name ↔ Requeued p w id name := by
  unfold Requeued
  rw [hj]
  exact exists_congr fun r => and_congr_right fun _ => and_congr_right fun _ =>
    and_congr_right fun _ => not_congr (EnqueueFails.congr hl)

theorem findJob_ok_iff {t : JobTable} {r : Job} : findJob t id = .ok r ↔ t.find id = some r := by
  unfold findJob scanRow
  cases t.find id <;> simp

/-- The part of the body before the `ZREM` puts the job into its queue or does nothing. -/
theorem fetchAndEnqueue_cases (p : Pattern) (w : World) (id : String) :
    ((∀ name, ¬ Requeued p w id name) ∧ fetchAndEnqueue p w id = w) ∨
    ∃ (job : Job) (r : Redis) (s : Int), (∀ name, Requeued p w id name ↔ job.queueName = name) ∧
      fetchAndEnqueue p w id = { w with redis := r } ∧ SameLists w.redis r ∧
      ∀ k m, r.zscore k m = if k = queueKey job.queueName ∧ m = id then some s
        else w.redis.zscore k m := by
  cases hf : (p.fetch id).fails with
  | true =>
    refine .inl ⟨?_, by simp [fetchAndEnqueue, Choice.attempt, hf]⟩
    rintro _ ⟨_, -, -, hok, -⟩
    cases hf.symm.trans hok
  | false =>
  cases hjob : findJob w.jobs id with
  | error e =>
    refine .inl ⟨?_, by simp [fetchAndEnqueue, Choice.attempt, hf, hjob]⟩
    rintro _ ⟨r, hr, -⟩
    cases hjob.symm.trans (findJob_ok_iff.mpr hr)
  | ok job =>
  have hrow := findJob_ok_iff.mp hjob
  have hid : job.id = id := JobTable.find_id hrow
  have heq : fetchAndEnqueue p w id =
      w.onRedis ((p.requeue id).attempt (enqueue w.redis (p.requeue id).env.reading job)) := by
    have hfetch : (p.fetch id).attempt (findJob w.jobs id) = .ok job := by
      rw [hjob, Choice.attempt, hf, if_neg (by simp)]
    rw [fetchAndEnqueue, hfetch]
  rcases attempt_enqueue w job (p.requeue id) with ⟨hfails, e, he⟩ | ⟨hok, r, hr, hlists, hscore⟩
  · refine .inl ⟨?_, by rw [heq, he]; rfl⟩
    rintro _ ⟨r, hr, -, -, hno⟩
    obtain rfl := Option.some.inj (hrow.symm.trans hr)
    exact hno hfails
  · refine .inr ⟨job, r, _, fun name => ?_, by rw [heq, hr]; rfl, hlists, hid ▸ hscore⟩
    constructor
    · rintro ⟨r, hr, hn, -⟩
      exact Option.some.inj (hrow.symm.trans hr) ▸ hn
    · exact fun hn => ⟨job, hrow, hn, hf, hok⟩

/-- The `ZREM` of one id. -/
theorem remove_spec (c : Choice) (w : World) (id : String) :
    (w.onRedis (c.attempt (removeRetry w.redis id))).jobs = w.jobs ∧
    SameLists w.redis (w.onRedis (c.attempt (removeRetry w.redis id))).redis ∧
    ∀ k m, (w.onRedis (c.attempt (removeRetry w.redis id))).redis.zscore k m =
      if k = retriesKey ∧ m = id ∧ c.fails = false then none else w.redis.zscore k m := by
  unfold Choice.attempt
  cases hc : c.fails with
  | true => exact ⟨rfl, fun _ _ => .rfl, fun _ _ => by simp [World.onRedis]⟩
  | false =>
    rw [if_neg (by simp)]
    cases hr : removeRetry w.redis id with
    | error e =>
      refine ⟨rfl, fun _ _ => .rfl, fun k m => ?_⟩
      split
      · next h =>
        -- the key holds a list and so no scores
        rw [h.1, World.onRedis]
        unfold removeRetry Redis.zrem Redis.sortedAt at hr
        unfold Redis.zscore
        cases hv : w.redis retriesKey with
        | none => rfl
        | some v =>
          cases v with
          | zset z => simp [hv] at hr
          | list items => rfl
      · rfl
    | ok r =>
      obtain ⟨z, hz, rfl⟩ := Redis.zrem_ok hr
      refine ⟨rfl, sameLists_putSorted hz, fun k m => ?_⟩
      rw [World.onRedis, Redis.zscore_zrem hr]
      simp

theorem passed_nil (p : Pattern) (w : World) : Passed p [] w w :=
  ⟨rfl, fun _ _ => .rfl, fun _ _ => by simp, fun _ => by simp⟩

theorem passed_fetchAndEnqueue (p : Pattern) (w : World) (id : String) :
    (fetchAndEnqueue p w id).jobs = w.jobs ∧ SameLists w.redis (fetchAndEnqueue p w id).redis ∧
    (∀ name m, (fetchAndEnqueue p w id).redis.zscore (queueKey name) m ≠ none ↔
      w.redis.zscore (queueKey name) m ≠ none ∨ (m = id ∧ Requeued p w id name)) ∧
    ∀ m, (fetchAndEnqueue p w id).redis.zscore retriesKey m = w.redis.zscore retriesKey m := by
  rcases fetchAndEnqueue_cases p w id with ⟨hno, heq⟩ | ⟨job, r, s, hreq, heq, hlists, hscore⟩
  · rw [heq]
    exact ⟨rfl, fun _ _ => .rfl, fun name m => (or_iff_left fun h => hno name h.2).symm,
      fun _ => rfl⟩
  · rw [heq]
    refine ⟨rfl, hlists, fun name m => ?_, fun m => ?_⟩
    · rw [hscore, hreq]
      by_cases hm : name = job.queueName ∧ m = id
      · rw [if_pos ⟨congrArg queueKey hm.1, hm.2⟩]
        exact iff_of_true (by simp) (.inr ⟨hm.2, hm.1.symm⟩)
      · rw [if_neg fun h => hm ⟨queueKey_injective h.1, h.2⟩]
        exact (or_iff_left fun h => hm ⟨h.2.symm, h.1⟩).symm
    · rw [hscore, if_neg fun h => queueKey_ne_retriesKey _ h.1.symm]

theorem passed_single (p : Pattern) (w : World) (id : String) :
    Passed p [id] w (promoteRetry p w id) := by
  obtain ⟨hjobs, hlists, hqueued, hdelayed⟩ := passed_fetchAndEnqueue p w id
  obtain ⟨hjobs', hlists', hscore⟩ := remove_spec (p.remove id) (fetchAndEnqueue p w id) id
  refine ⟨hjobs'.trans hjobs, hlists.trans hlists', fun name m => ?_, fun m => ?_⟩
  · rw [promoteRetry, hscore, if_neg fun h => queueKey_ne_retriesKey _ h.1, hqueued,
      List.mem_singleton]
    exact or_congr_right (and_congr_right fun hm => by rw [hm])
  · rw [promoteRetry, hscore, hdelayed]
    by_cases hm : m = id <;> simp [hm]

theorem Passed.append {ids ids' : List String} (h : Passed p ids w w₁)
    (h' : Passed p ids' w₁ w') : Passed p (ids ++ ids') w w' := by
  refine ⟨h'.jobs.trans h.jobs, h.lists.trans h'.lists, fun name m => ?_, fun m => ?_⟩
  · rw [h'.queued, h.queued, Requeued.congr h.jobs h.lists, List.mem_append, or_and_right, or_assoc]
  · rw [h'.delayed, h.delayed]
    by_cases hm : m ∈ ids <;> by_cases hm' : m ∈ ids' <;>
      cases (p.remove m).fails <;> simp [hm, hm']

/-- The whole loop. -/
theorem passed_loop (p : Pattern) (ids : List String) (w : World) :
    Passed p ids w (ids.foldl (promoteRetry p) w) := by
  induction ids generalizing w with
  | nil => exact passed_nil p w
  | cons id ids ih => exact (passed_single p w id).append (ih _)

/-- Each id that was due is in its job's queue, is still delayed, or belongs to no job that
is retrying. An id that was not due yet has kept its score. -/
structure NoneDropped (reading : Time) (w w' : World) : Prop where
  due : ∀ id s, w.redis.zscore retriesKey id = some s → s ≤ unix reading →
    (∃ r, w'.jobs.find id = some r ∧ w'.redis.zscore (queueKey r.queueName) id ≠ none) ∨
    w'.redis.zscore retriesKey id ≠ none ∨
    ∀ r, w'.jobs.find id = some r → r.status ≠ .retrying
  waiting : ∀ id s, w.redis.zscore retriesKey id = some s → unix reading < s →
    w'.redis.zscore retriesKey id = some s

/-- Each due id of a retrying job that is not in its queue already is fetched and put
there, or its removal fails too. -/
def Spares (p : Pattern) (w : World) : Prop :=
  p.range.fails = false → ∀ id s r, w.redis.zscore retriesKey id = some s →
    s ≤ unix p.range.env.reading → w.jobs.find id = some r → r.status = .retrying →
    w.redis.zscore (queueKey r.queueName) id = none →
    ((p.fetch id).fails = false ∧ ¬ EnqueueFails w r (p.requeue id)) ∨ (p.remove id).fails = true

/-- A call that reads no ids changes nothing. -/
theorem promoteRetries_cases (p : Pattern) (w : World) :
    ((promoteRetries p w).1 = w ∧ (p.range.fails = true ∨ ∀ id, w.redis.zscore retriesKey id = none)) ∨
    ∃ ids, p.range.fails = false ∧ Passed p ids w (promoteRetries p w).1 ∧
      ∀ id, id ∈ ids ↔ ∃ s, w.redis.zscore retriesKey id = some s ∧ s ≤ unix p.range.env.reading := by
  unfold promoteRetries Choice.attempt
  cases hf : p.range.fails with
  | true => exact .inl ⟨rfl, .inl rfl⟩
  | false =>
    rw [if_neg (by simp)]
    cases hids : dueRetries w.redis p.range.env.reading with
    | error e =>
      refine .inl ⟨rfl, .inr fun id => ?_⟩
      unfold dueRetries Redis.zrangebyscore Redis.sortedAt at hids
      unfold Redis.zscore
      cases hv : w.redis retriesKey with
      | none => rfl
      | some v =>
        cases v with
        | zset z => simp [hv] at hids
        | list items => rfl
    | ok ids => exact .inr ⟨ids, rfl, passed_loop p ids w, Redis.mem_zrangebyscore hids⟩

/-- For every content of the stores, every reading of the clock and every pattern of failing
calls, no retry is dropped exactly if the pattern spares them. -/
theorem none_dropped_iff (p : Pattern) (w : World) :
    NoneDropped p.range.env.reading w (promoteRetries p w).1 ↔ Spares p w := by
  rcases promoteRetries_cases p w with ⟨heq, hnone⟩ | ⟨ids, hf, hpassed, hmem⟩
  · rw [heq]
    refine iff_of_true ⟨fun id s hs _ => .inr (.inl (by simp [hs])), fun id s hs _ => hs⟩ ?_
    intro hok id s r hs
    rcases hnone with hfails | hnone
    · cases hok.symm.trans hfails
    · cases (hnone id).symm.trans hs
  · have hdelayed : ∀ {id s}, w.redis.zscore retriesKey id = some s →
        s ≤ unix p.range.env.reading →
        ((promoteRetries p w).1.redis.zscore retriesKey id ≠ none ↔ (p.remove id).fails = true) := by
      intro id s hs hle
      rw [hpassed.delayed, hs]
      have hid : id ∈ ids := (hmem id).mpr ⟨s, hs, hle⟩
      cases (p.remove id).fails <;> simp [hid]
    constructor
    · intro h _ id s r hs hle hr hst hnot
      rcases h.due id s hs hle with ⟨r', hr', hq⟩ | hkept | hother
      · rw [hpassed.jobs, hr] at hr'
        obtain rfl := Option.some.inj hr'
        rcases (hpassed.queued _ _).mp hq with hq | ⟨-, r₁, hr₁, -, hfetch, hok⟩
        · exact absurd hnot hq
        · obtain rfl := Option.some.inj (hr.symm.trans hr₁)
          exact .inl ⟨hfetch, hok⟩
      · exact .inr ((hdelayed hs hle).mp hkept)
      · exact absurd hst (hother r (hpassed.jobs ▸ hr))
    · intro h
      refine ⟨fun id s hs hle => ?_, fun id s hs hlt => ?_⟩
      · by_cases hother : ∀ r, w.jobs.find id = some r → r.status ≠ .retrying
        · exact .inr (.inr (hpassed.jobs ▸ hother))
        · simp only [not_forall, not_not] at hother
          obtain ⟨r, hr, hst⟩ := hother
          have hqueued : (w.redis.zscore (queueKey r.queueName) id ≠ none ∨
              (p.fetch id).fails = false ∧ ¬ EnqueueFails w r (p.requeue id)) →
              (promoteRetries p w).1.redis.zscore (queueKey r.queueName) id ≠ none := by
            intro hor
            refine (hpassed.queued _ _).mpr (hor.imp_right fun hok => ?_)
            exact ⟨(hmem id).mpr ⟨s, hs, hle⟩, r, hr, rfl, hok.1, hok.2⟩
          by_cases hnot : w.redis.zscore (queueKey r.queueName) id = none
          · rcases h hf id s r hs hle hr hst hnot with hok | hrem
            · exact .inl ⟨r, hpassed.jobs ▸ hr, hqueued (.inr hok)⟩
            · exact .inr (.inl ((hdelayed hs hle).mpr hrem))
          · exact .inl ⟨r, hpassed.jobs ▸ hr, hqueued (.inl hnot)⟩
      · rw [hpassed.delayed, hs, if_neg]
        rintro ⟨hid, -⟩
        obtain ⟨s', hs', hle⟩ := (hmem id).mp hid
        obtain rfl := Option.some.inj (hs.symm.trans hs')
        omega

/-- The job `j1` of `u1` waits for its retry, which is due. -/
def delayed : World :=
  { World.initial with
    jobs := ⟨[{
      id := "j1", userID := some "u1", queueName := "default", jobType := "send_email"
      payload := .object [], status := .retrying, priority := 0, attempts := 1, maxAttempts := 3
      errorMessage := some "payload requested failure", scheduledAt := none, startedAt := some 0
      completedAt := none, createdAt := 0, updatedAt := 0 }], by decide⟩
    redis := Redis.empty.putSorted retriesKey (Lib.SortedSet.empty.add 1 "j1") }

/-- The job is fetched, its `Enqueue` fails, and the `ZREM` goes through. -/
theorem retry_dropped : ¬ ∀ p w, NoneDropped p.range.env.reading w (promoteRetries p w).1 := by
  intro hall
  have h := hall
    { range := { env := { reading := 1000000 } }, requeue := fun _ => { fails := true } } delayed
  rcases h.due "j1" 1 (by decide) (by decide) with ⟨r, hr, hq⟩ | hkept | hother
  · have hname : r.queueName = "default" := by
      have hmap := congrArg (Option.map Job.queueName) hr
      exact (Option.some.inj ((show some "default" = _ from by decide).trans hmap)).symm
    rw [hname] at hq
    exact hq (by decide)
  · exact hkept (by decide)
  · exact hother _ rfl rfl

end JobFlow.Service.DroppedRetries
