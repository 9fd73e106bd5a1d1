import JobFlow.Lib.Packing
import JobFlow.Lib.Transition
import JobFlow.Model.RedisQueue

/-!
# The order of one queue

The machine is one queue under arbitrary `Enqueue` and `Dequeue` calls, with the
jobs that wait kept beside the store. The score gives a step of priority the
weight of `10^9` milliseconds, so an older job of lower priority overtakes after
that time. `dequeue_order` says for every `Dequeue` of every run when it returns
the job that the index `(priority DESC, created_at ASC)` puts first.
-/

namespace JobFlow.Queue.PriorityOrder

open JobFlow.Model
open JobFlow.Model.RedisQueue
open JobFlow.Lib.Transition
open JobFlow.Lib.Packing

/-- The store, the jobs enqueued and not yet returned, and the millisecond of the
last `Enqueue`. -/
structure QueueState where
  redis : Redis
  waiting : String → Option Keys
  last : Option Int

def QueueState.initial : QueueState := ⟨.empty, fun _ => none, none⟩

inductive Op where
  | enqueue (job : Job) (reading : Time)
  | dequeue

inductive Outcome where
  | enqueued (id : String) (keys : Keys)
  | returned (id : String)
  | nothing
  | error (e : Err)
  deriving DecidableEq

def step (name : String) : Machine QueueState Op Outcome := fun s op =>
  match op with
  | .enqueue job reading =>
    match RedisQueue.enqueue s.redis reading job with
    | .ok r => some (⟨r, Function.update s.waiting job.id
        (some ⟨job.priority, unixMilli reading⟩), some (unixMilli reading)⟩,
        .enqueued job.id ⟨job.priority, unixMilli reading⟩)
    | .error e => some (s, .error e)
  | .dequeue =>
    match RedisQueue.pop s.redis name with
    | .ok (r, some id) =>
      some ({ s with redis := r, waiting := Function.update s.waiting id none }, .returned id)
    | .ok (r, none) => some ({ s with redis := r }, .nothing)
    | .error e => some (s, .error e)

/-- Each `Enqueue` is for a job of this queue that does not wait, at a later
millisecond than the one before. -/
def Fresh (name : String) (s : QueueState) : Op → Prop
  | .enqueue job reading => job.queueName = name ∧ s.waiting job.id = none ∧
      ∀ t ∈ s.last, t < unixMilli reading
  | .dequeue => True

instance (name : String) (s : QueueState) (op : Op) : Decidable (Fresh name s op) := by
  cases op <;> unfold Fresh <;> infer_instance

/-- The jobs that wait after a history of calls. -/
def waitingAfter (tr : List Outcome) : String → Option Keys :=
  tr.foldl (fun waiting o =>
    match o with
    | .enqueued id keys => Function.update waiting id (some keys)
    | .returned id => Function.update waiting id none
    | _ => waiting) fun _ => none

/-- What a step of priority weighs, in milliseconds. -/
def weight : Int := 1000000000

theorem score_eq_pack (priority : Int) (reading : Time) :
    score priority reading = pack weight ⟨priority, unixMilli reading⟩ := rfl

/-- The sorted set is the image of the waiting jobs, which are finitely many and
were enqueued at distinct times, none after the last one. -/
structure Mirrors (name : String) (s : QueueState) : Prop where
  scores : ∀ id, s.redis.zscore (queueKey name) id = (s.waiting id).map (pack weight)
  finite : {id | s.waiting id ≠ none}.Finite
  distinct : ∀ i j k k', s.waiting i = some k → s.waiting j = some k' →
    k.since = k'.since → i = j
  past : ∀ id k, s.waiting id = some k → ∃ t, s.last = some t ∧ k.since ≤ t

theorem mirrors_initial (name : String) : Mirrors name .initial where
  scores _ := rfl
  finite := by simp [QueueState.initial]
  distinct _ _ _ _ h := by cases h
  past _ _ h := by cases h

theorem mirrors_enqueue {name : String} {s : QueueState} {job : Job} {reading : Time} {r : Redis}
    (hm : Mirrors name s) (hok : Fresh name s (.enqueue job reading))
    (h : RedisQueue.enqueue s.redis reading job = .ok r) :
    Mirrors name ⟨r, Function.update s.waiting job.id
      (some ⟨job.priority, unixMilli reading⟩), some (unixMilli reading)⟩ := by
  obtain ⟨hname, hnew, hlater⟩ := hok
  have hold : ∀ id k, s.waiting id = some k → k.since < unixMilli reading := by
    intro id k hk
    obtain ⟨t, ht, hle⟩ := hm.past id k hk
    exact lt_of_le_of_lt hle (hlater t ht)
  constructor
  case scores =>
    intro id
    rw [Redis.zscore_zadd h, hname]
    by_cases hid : id = job.id
    · simp [hid, score_eq_pack]
    · simp [hid, hm.scores]
  case finite =>
    refine (hm.finite.insert job.id).subset fun id hid => ?_
    by_cases heq : id = job.id
    · exact .inl heq
    · exact .inr (by simpa [heq] using hid)
  case distinct =>
    intro i j k k' hi hj hsince
    by_cases hij : i = job.id <;> by_cases hjj : j = job.id <;>
      simp only [Function.update_apply, hij, hjj, if_true, if_false, Option.some.injEq] at hi hj
    · rw [hij, hjj]
    · have hlt := hold j k' hj
      rw [← hsince, ← hi] at hlt
      exact absurd hlt (lt_irrefl _)
    · have hlt := hold i k hi
      rw [hsince, ← hj] at hlt
      exact absurd hlt (lt_irrefl _)
    · exact hm.distinct i j k k' hi hj hsince
  case past =>
    intro id k hk
    refine ⟨_, rfl, ?_⟩
    by_cases hid : id = job.id
    · simp only [Function.update_apply, hid, if_true, Option.some.injEq] at hk
      exact hk ▸ le_refl _
    · simp only [Function.update_apply, hid, if_false] at hk
      exact (hold id k hk).le

/-- Removing a job keeps the rest. -/
theorem mirrors_dequeue {name : String} {s : QueueState} {id : String} {r : Redis}
    (hm : Mirrors name s)
    (h : ∀ k m, r.zscore k m = if k = queueKey name ∧ m = id then none else s.redis.zscore k m) :
    Mirrors name { s with redis := r, waiting := Function.update s.waiting id none } := by
  have hsub : ∀ j k, Function.update s.waiting id none j = some k → s.waiting j = some k := by
    intro j k hj
    by_cases hid : j = id
    · simp [hid] at hj
    · simpa [hid] using hj
  constructor
  case scores =>
    intro j
    simp only [h, Function.update_apply, true_and]
    split
    · rfl
    · exact hm.scores j
  case finite =>
    refine hm.finite.subset fun j hj => ?_
    obtain ⟨k, hk⟩ := Option.ne_none_iff_exists'.mp hj
    simp [hsub j k hk]
  case distinct =>
    intro i j k k' hi hj
    exact hm.distinct i j k k' (hsub i k hi) (hsub j k' hj)
  case past => exact fun j k hj => hm.past j k (hsub j k hj)

theorem mirrors_step {name : String} {s s' : QueueState} {op : Op} {o : Outcome}
    (hm : Mirrors name s) (hok : Fresh name s op) (h : step name s op = some (s', o)) :
    Mirrors name s' := by
  cases op with
  | enqueue job reading =>
    simp only [step] at h
    split at h <;> cases h
    · next hq => exact mirrors_enqueue hm hok hq
    · exact hm
  | dequeue =>
    simp only [step] at h
    split at h <;> cases h
    · next hq =>
      rcases Redis.zscore_zpopmin hq with ⟨hn, -⟩ | ⟨m, sc, hp, -, hrest, -⟩
      · cases hn
      · cases hp
        exact mirrors_dequeue hm hrest
    · next hq =>
      rcases Redis.zscore_zpopmin hq with ⟨-, rfl, -⟩ | ⟨m, sc, hp, -⟩
      · exact hm
      · cases hp
    · exact hm

theorem mirrors_run {name : String} {tr : List Outcome} {s : QueueState}
    (h : Run (step name) (Fresh name) .initial tr s) : Mirrors name s :=
  h.invariant (I := fun _ s => Mirrors name s) (mirrors_initial name)
    fun _ hm ho hs => mirrors_step hm ho hs

theorem waiting_run {name : String} {tr : List Outcome} {s : QueueState}
    (h : Run (step name) (Fresh name) .initial tr s) : s.waiting = waitingAfter tr := by
  refine h.invariant (I := fun tr s => s.waiting = waitingAfter tr) rfl ?_
  intro tr s s' op o _ ih _ hs
  unfold waitingAfter at ih ⊢
  rw [List.foldl_append, ← ih]
  simp only [step] at hs
  split at hs <;> split at hs <;> cases hs <;> rfl

/-- In every run each `Dequeue` that returns a job returns the first one by
priority and time exactly when no waiting job of lower priority is older than
the first one by the weight of their difference in priority. -/
theorem dequeue_order {name : String} {tr : List Outcome} {s : QueueState}
    (h : Run (step name) (Fresh name) .initial tr s) :
    ∀ before id after, tr = before ++ .returned id :: after →
      (IsBest (waitingAfter before) id ↔ Separated weight (waitingAfter before)) := by
  rintro before id after rfl
  obtain ⟨m, op, m', hrun, -, hs, -⟩ := h.observed
  have hm := mirrors_run hrun
  rw [← waiting_run hrun]
  cases op with
  | enqueue job reading =>
    simp only [step] at hs
    split at hs <;> cases hs
  | dequeue =>
    simp only [step] at hs
    split at hs <;> cases hs
    next hq =>
    rcases Redis.zscore_zpopmin hq with ⟨hn, -⟩ | ⟨j, sc, hp, hsc, -, hleast⟩
    · cases hn
    · cases hp
      rw [hm.scores] at hsc
      obtain ⟨k, hk, rfl⟩ := Option.map_eq_some_iff.mp hsc
      refine least_isBest_iff hm.finite hm.distinct hk fun j k' hj => ?_
      exact hleast j (pack weight k') (by rw [hm.scores, hj]; rfl)

/-- A job of the queue `default`; only its id and priority matter here. -/
def sampleJob (id : String) (priority : Int) : Job where
  id := id
  userID := none
  queueName := "default"
  jobType := "send_email"
  payload := .null
  status := .queued
  priority := priority
  attempts := 0
  maxAttempts := 3
  errorMessage := none
  scheduledAt := none
  startedAt := none
  completedAt := none
  createdAt := 0
  updatedAt := 0

/-- Priority 1 is enqueued an hour after priority 0. -/
def anHourLater : List Op :=
  [.enqueue (sampleJob "low" 0) 0, .enqueue (sampleJob "high" 1) 3600000000, .dequeue]

theorem anHourLater_runs : (execute (step "default") .initial anHourLater).isSome := by decide

theorem dequeue_order_anHourLater : ∃ tr s,
    Run (step "default") (Fresh "default") .initial tr s ∧ tr.getLast? = some (.returned "high") ∧
    (IsBest (waitingAfter tr.dropLast) "high" ↔ Separated weight (waitingAfter tr.dropLast)) :=
  have hrun := Run.of_outcome anHourLater_runs (show Admitted _ (Fresh "default") _ _ by decide)
  ⟨_, _, hrun, by decide, dequeue_order hrun _ "high" [] (by decide)⟩

/-- Priority 1 is enqueued twelve days after priority 0. -/
def twelveDaysLater : List Op :=
  [.enqueue (sampleJob "low" 0) 0, .enqueue (sampleJob "high" 1) 1036800000000, .dequeue]

theorem twelveDaysLater_runs :
    (execute (step "default") .initial twelveDaysLater).isSome := by decide

/-- After twelve days the job of lower priority goes first. -/
theorem low_overtakes : ¬ ∀ name tr s, Run (step name) (Fresh name) .initial tr s →
    ∀ before id after, tr = before ++ .returned id :: after →
      IsBest (waitingAfter before) id := by
  intro hall
  have hrun := Run.of_outcome twelveDaysLater_runs
    (show Admitted _ (Fresh "default") _ _ by decide)
  obtain ⟨k, hk, hbest⟩ := hall _ _ _ hrun
    [.enqueued "low" ⟨0, 0⟩, .enqueued "high" ⟨1, 1036800000⟩] "low" [] (by decide)
  have hlow : k = ⟨0, 0⟩ := (Option.some.inj hk).symm
  rcases hbest "high" ⟨1, 1036800000⟩ (by decide) with hlt | ⟨heq, -⟩ <;>
    simp only [hlow] at * <;> omega

end JobFlow.Queue.PriorityOrder
