import JobFlow.Lib.Waiting
import JobFlow.Queue.ExactScores
import JobFlow.Queue.PriorityOrder

/-!
# How often a waiting job is overtaken

`Dequeue` takes a least score. The scores here are the `float64` numbers that `Enqueue` hands
to `ZADD`, for every priority and with or without a fused sum, and jobs whose scores have
become equal count as ahead of each other. So a job can only be passed by those that are ahead
of it when it starts to wait and by later ones whose score is not greater. From 1970 to 2100,
for a priority of at most 9007199 and a time of at most `2^53 + 10^9 * priority` milliseconds,
the score is the one of `RedisQueue.enqueue`, and a later job overtakes within `10^9`
milliseconds for each step of priority. Nothing is assumed of the clocks of the callers.
-/

namespace JobFlow.Queue.Overtaking

open JobFlow.Model
open JobFlow.Model.RedisQueue
open JobFlow.Lib.Binary64
open JobFlow.Lib.Transition
open JobFlow.Lib.Packing
open JobFlow.Lib.Waiting
open ExactScores
open PriorityOrder

/-- The score under which `Enqueue` stores a job, which is an integer. -/
def storedScore (fused : Bool) (k : Keys) : Int := ⌊floatScore fused k.priority (1000 * k.since)⌋

/-- `Enqueue`, its score rounded as the code rounds it. -/
def enqueue (fused : Bool) (r : Redis) (reading : Time) (job : Job) : Except Err Redis :=
  r.zadd (queueKey job.queueName) (storedScore fused ⟨job.priority, unixMilli reading⟩) job.id

/-- The machine of one queue with the rounded scores. -/
def step (fused : Bool) (name : String) : Machine QueueState Op Outcome := fun s op =>
  match op with
  | .enqueue job reading =>
    match enqueue fused s.redis reading job with
    | .ok r => some (⟨r, Function.update s.waiting job.id
        (some ⟨job.priority, unixMilli reading⟩), some (unixMilli reading)⟩,
        .enqueued job.id ⟨job.priority, unixMilli reading⟩)
    | .error e => some (s, .error e)
  | .dequeue => PriorityOrder.step name s .dequeue

/-- Each `Enqueue` is for a job of this queue. -/
def InQueue (name : String) (_ : QueueState) : Op → Prop
  | .enqueue job _ => job.queueName = name
  | .dequeue => True

instance (name : String) (s : QueueState) : (op : Op) → Decidable (InQueue name s op)
  | .enqueue job _ => inferInstanceAs (Decidable (job.queueName = name))
  | .dequeue => inferInstanceAs (Decidable True)

/-- The scores of the jobs that wait. -/
def scores (fused : Bool) (waiting : String → Option Keys) (id : String) : Option Int :=
  (waiting id).map (storedScore fused)

/-- The stored score is not the greater one. -/
def Overtakes (fused : Bool) (k' k : Keys) : Prop := storedScore fused k' ≤ storedScore fused k

instance (fused : Bool) (k' k : Keys) : Decidable (Overtakes fused k' k) :=
  inferInstanceAs (Decidable (storedScore fused k' ≤ storedScore fused k))

/-- The others that wait and are not behind the job. -/
def aheadOf (fused : Bool) (waiting : String → Option Keys) (id : String) (k : Keys) :
    Set String :=
  {j | j ≠ id ∧ ∃ k', waiting j = some k' ∧ Overtakes fused k' k}

def isReturned : Outcome → Bool
  | .returned _ => true
  | _ => false

/-- An `Enqueue` of a job that goes before one with these keys. -/
def isOvertaker (fused : Bool) (k : Keys) : Outcome → Bool
  | .enqueued _ k' => Overtakes fused k' k
  | _ => false

def returns (tr : List Outcome) : Nat := tr.countP isReturned

def overtakers (fused : Bool) (k : Keys) (tr : List Outcome) : Nat :=
  tr.countP (isOvertaker fused k)

/-- The store holds the scores of the jobs that wait, finitely many, under a key of its type. -/
structure Holds (fused : Bool) (name : String) (s : QueueState) : Prop where
  zscore : ∀ id, s.redis.zscore (queueKey name) id = scores fused s.waiting id
  finite : {id | scores fused s.waiting id ≠ none}.Finite
  typed : ∃ z, s.redis.sortedAt (queueKey name) = .ok z

/-- What a call does to the jobs that wait. -/
inductive Call (fused : Bool) (s s' : QueueState) : Outcome → Prop
  | enqueued {id : String} {k : Keys} (h : s'.waiting = Function.update s.waiting id (some k)) :
      Call fused s s' (.enqueued id k)
  | returned {id : String} (hleast : IsLeast (scores fused s.waiting) id)
      (h : s'.waiting = Function.update s.waiting id none) : Call fused s s' (.returned id)
  | nothing (hnone : ∀ id, s.waiting id = none) (h : s'.waiting = s.waiting) :
      Call fused s s' .nothing

variable {fused : Bool} {name : String} {s s' : QueueState} {op : Op} {o : Outcome}
  {tr before after : List Outcome}
  {id : String} {k k' : Keys}

/-! ## The stored scores -/

/-- Each rounding of the computation leaves an integer. -/
theorem floatScore_integral (fused : Bool) (priority : Int) (reading : Time) :
    ∃ z : Int, floatScore fused priority reading = z := by
  obtain ⟨p, hp⟩ := nearestSigned_integral (-priority)
  have hproduct : (p : ℚ) * 1000000000 = (p * 1000000000 : Int) := by push_cast; rfl
  obtain ⟨rounded, hrounded⟩ := nearestSigned_integral (p * 1000000000)
  obtain ⟨millis, hmillis⟩ := nearestSigned_integral (unixMilli reading)
  simp only [floatScore, hp, hproduct, hrounded, hmillis]
  cases fused with
  | true =>
    obtain ⟨z, hz⟩ := nearestSigned_integral (p * 1000000000 + millis)
    exact ⟨z, by simpa using hz⟩
  | false =>
    obtain ⟨z, hz⟩ := nearestSigned_integral (rounded + millis)
    exact ⟨z, by simpa using hz⟩

/-- No digit of the computed score is lost. -/
theorem storedScore_eq (fused : Bool) (priority : Int) (reading : Time) :
    (storedScore fused ⟨priority, unixMilli reading⟩ : ℚ) = floatScore fused priority reading := by
  have hmilli : unixMilli (1000 * unixMilli reading) = unixMilli reading :=
    Int.mul_ediv_cancel_left _ (by decide)
  have hsame : floatScore fused priority (1000 * unixMilli reading) =
      floatScore fused priority reading := by
    rw [floatScore, floatScore, hmilli]
  obtain ⟨z, hz⟩ := floatScore_integral fused priority reading
  rw [storedScore, hsame, hz, Int.floor_intCast]

/-- Where a score is exact. -/
def InRange (priority : Priority) (reading : Reading) : Prop :=
  priority.1 ≤ 9007199 ∧ unixMilli reading.1 ≤ 2 ^ 53 + 1000000000 * priority.1

theorem storedScore_exact {priority : Priority} {reading : Reading}
    (h : InRange priority reading) :
    storedScore fused ⟨priority, unixMilli reading⟩ = score priority reading := by
  have hstored := storedScore_eq fused priority reading
  rw [((score_exact_iff fused priority reading).mpr h).represented] at hstored
  exact Int.cast_injective hstored

/-- In the range of exact scores the machine is the one that enqueues with exact scores. -/
theorem step_exact (name : String) (s : QueueState) {job : Job} {priority : Priority}
    {reading : Reading} (hjob : job.priority = priority) (h : InRange priority reading) :
    step fused name s (.enqueue job reading) =
      PriorityOrder.step name s (.enqueue job reading) := by
  have henqueue : enqueue fused s.redis reading job = RedisQueue.enqueue s.redis reading job := by
    rw [enqueue, RedisQueue.enqueue, hjob, storedScore_exact h]
  cases hq : RedisQueue.enqueue s.redis reading job with
  | ok r => simp only [step, PriorityOrder.step, henqueue, hq]
  | error e => simp only [step, PriorityOrder.step, henqueue, hq]

/-- There the higher priority makes up for the later time. -/
theorem overtakes_exact {priority priority' : Priority} {reading reading' : Reading}
    (h : InRange priority reading) (h' : InRange priority' reading') :
    Overtakes fused ⟨priority', unixMilli reading'⟩ ⟨priority, unixMilli reading⟩ ↔
      unixMilli reading' - unixMilli reading ≤ (priority'.1 - priority.1) * weight := by
  rw [Overtakes, storedScore_exact h, storedScore_exact h', score_eq_pack, score_eq_pack,
    le_iff_lt_or_eq, le_iff_lt_or_eq, pack_lt_pack, pack_eq_pack]

/-! ## Runs -/

theorem scores_update (waiting : String → Option Keys) (id : String) (k : Option Keys) :
    scores fused (Function.update waiting id k) =
      Function.update (scores fused waiting) id (k.map (storedScore fused)) := by
  funext j
  by_cases hj : j = id
  · simp [scores, hj]
  · simp [scores, hj]

theorem aheadOf_eq (waiting : String → Option Keys) (id : String) (k : Keys) :
    aheadOf fused waiting id k = ahead (scores fused waiting) id (storedScore fused k) := by
  ext j
  simp only [aheadOf, ahead, scores, Overtakes, Option.map_eq_some_iff]
  constructor
  · intro hj
    obtain ⟨hne, k', hk', hle⟩ := hj
    exact ⟨hne, _, ⟨k', hk', rfl⟩, hle⟩
  · intro hj
    obtain ⟨hne, _, ⟨k', hk', rfl⟩, hle⟩ := hj
    exact ⟨hne, k', hk', hle⟩

theorem sortedAt_putSorted (r : Redis) (key : String) (z : Lib.SortedSet String Int) :
    ∃ z', (r.putSorted key z).sortedAt key = .ok z' := by
  unfold Redis.putSorted Redis.sortedAt
  rw [Function.update_self]
  split
  · exact ⟨_, rfl⟩
  · exact ⟨_, rfl⟩
  · next hlist => split at hlist <;> cases hlist

theorem holds_initial (fused : Bool) (name : String) : Holds fused name .initial where
  zscore _ := rfl
  finite := by simp [scores, QueueState.initial]
  typed := ⟨_, rfl⟩

theorem finite_update {rank : String → Option Int} (hfin : {id | rank id ≠ none}.Finite)
    (id : String) (b : Option Int) : {j | Function.update rank id b j ≠ none}.Finite := by
  refine (hfin.insert id).subset fun j hj => ?_
  by_cases hid : j = id
  · exact .inl hid
  · exact .inr (by simpa [hid] using hj)

/-- A new score under the key, or one that is gone, and the jobs that wait. -/
theorem Holds.update (hh : Holds fused name s) {r : Redis} {last : Option Int} (k : Option Keys)
    (hr : ∀ j m, r.zscore j m = if j = queueKey name ∧ m = id then k.map (storedScore fused)
      else s.redis.zscore j m)
    (htyped : ∃ z, r.sortedAt (queueKey name) = .ok z) :
    Holds fused name ⟨r, Function.update s.waiting id k, last⟩ where
  zscore j := by
    simp only [hr, true_and, scores_update, Function.update_apply, hh.zscore]
  finite := by
    rw [scores_update]
    exact finite_update hh.finite id _
  typed := htyped

/-- No call fails, and each does what its outcome says. -/
theorem step_call (hh : Holds fused name s) (hok : InQueue name s op)
    (h : step fused name s op = some (s', o)) : Holds fused name s' ∧ Call fused s s' o := by
  obtain ⟨z, hz⟩ := hh.typed
  cases op with
  | enqueue job reading =>
    obtain rfl : job.queueName = name := hok
    simp only [step] at h
    split at h <;> cases h
    · next r hq =>
      refine ⟨hh.update _ (Redis.zscore_zadd hq) ?_, .enqueued rfl⟩
      obtain ⟨z', -, rfl⟩ := Redis.zadd_ok hq
      exact sortedAt_putSorted _ _ _
    · next hq =>
      rw [enqueue, Redis.zadd, hz] at hq
      cases hq
  | dequeue =>
    simp only [step, PriorityOrder.step] at h
    split at h <;> cases h
    · next r j hq =>
      rcases Redis.zscore_zpopmin hq with ⟨hnone, -⟩ | ⟨m, sc, hm, hsc, hrest, hleast⟩
      · cases hnone
      cases hm
      refine ⟨hh.update none hrest ?_, .returned ⟨sc, hh.zscore j ▸ hsc, fun i b hb => ?_⟩ rfl⟩
      · obtain ⟨z', -, ⟨-, hnone, -⟩ | ⟨e, z'', -, -, rfl⟩⟩ := Redis.zpopmin_ok hq
        · cases hnone
        · exact sortedAt_putSorted _ _ _
      · rcases hleast i b (hh.zscore i ▸ hb) with hlt | ⟨heq, -⟩
        · exact hlt.le
        · exact heq.le
    · next r hq =>
      rcases Redis.zscore_zpopmin hq with ⟨-, rfl, hnone⟩ | ⟨m, sc, hm, -⟩
      · refine ⟨hh, .nothing (fun j => ?_) rfl⟩
        have hj := hh.zscore j
        rw [hnone j] at hj
        exact Option.map_eq_none_iff.mp hj.symm
      · cases hm
    · next hq =>
      unfold pop Redis.zpopmin at hq
      rw [hz] at hq
      simp only [bind, Except.bind] at hq
      split at hq <;> cases hq

theorem holds_run (h : Run (step fused name) (InQueue name) .initial tr s) :
    Holds fused name s :=
  h.invariant (I := fun _ s => Holds fused name s) (holds_initial fused name)
    fun _ hh ho hs => (step_call hh ho hs).1

theorem waiting_run (h : Run (step fused name) (InQueue name) .initial tr s) :
    s.waiting = waitingAfter tr := by
  refine h.invariant (I := fun tr s => s.waiting = waitingAfter tr) rfl ?_
  intro tr s s' op o hrun ih ho hs
  unfold waitingAfter at ih ⊢
  rw [List.foldl_append, ← ih]
  cases (step_call (holds_run hrun) ho hs).2 with
  | enqueued hw | returned _ hw => exact hw
  | nothing _ hw => exact hw

theorem isOvertaker_enqueued :
    isOvertaker fused k (.enqueued id k') ↔ storedScore fused k' ≤ storedScore fused k :=
  decide_eq_true_iff

/-- The job is neither taken nor enqueued again. -/
def Keeps (id : String) (o : Outcome) : Prop := o ≠ .returned id ∧ ∀ k, o ≠ .enqueued id k

/-- One call while the job waits: whoever is taken was ahead of it, and only an overtaker
gets ahead of it. -/
theorem ahead_call (hh : Holds fused name s) (hwait : s.waiting id = some k) (hkeeps : Keeps id o)
    (hcall : Call fused s s' o) : s'.waiting id = some k ∧ o ≠ .nothing ∧
      (aheadOf fused s'.waiting id k).ncard + (if isReturned o then 1 else 0) ≤
        (aheadOf fused s.waiting id k).ncard + if isOvertaker fused k o then 1 else 0 := by
  have hscore : scores fused s.waiting id = some (storedScore fused k) := by
    rw [scores, hwait, Option.map_some]
  cases hcall with
  | @enqueued j k' hw =>
    have hne : id ≠ j := fun heq => hkeeps.2 k' (by rw [heq])
    refine ⟨by rw [hw, Function.update_of_ne hne, hwait], nofun, ?_⟩
    have hput := ncard_ahead_put hh.finite id j (storedScore fused k) (storedScore fused k')
    rw [hw, aheadOf_eq, aheadOf_eq, scores_update]
    simpa [isReturned, isOvertaker_enqueued] using hput
  | @returned j hleast hw =>
    have hne : j ≠ id := fun heq => hkeeps.1 (by rw [heq])
    refine ⟨by rw [hw, Function.update_of_ne hne.symm, hwait], nofun, ?_⟩
    have htake := ncard_ahead_take hh.finite (hleast.mem_ahead hscore hne)
    rw [hw, aheadOf_eq, aheadOf_eq, scores_update]
    exact htake.le
  | nothing hnone =>
    rw [hnone id] at hwait
    cases hwait

/-- The job has waited since the first state, through these calls. -/
structure Waits (fused : Bool) (s₀ : QueueState) (id : String) (k : Keys) (tr : List Outcome)
    (s : QueueState) : Prop where
  waiting : s.waiting id = some k
  outcomes : ∀ o ∈ tr, isReturned o ∨ ∃ j k', o = .enqueued j k'
  count : (aheadOf fused s.waiting id k).ncard + returns tr ≤
    (aheadOf fused s₀.waiting id k).ncard + overtakers fused k tr

theorem waits_call {s₀ : QueueState} (hw : Waits fused s₀ id k tr s) (hh : Holds fused name s)
    (hkeeps : Keeps id o) (hcall : Call fused s s' o) :
    Waits fused s₀ id k (tr ++ [o]) s' := by
  obtain ⟨hwait, hnothing, hstep⟩ := ahead_call hh hw.waiting hkeeps hcall
  refine ⟨hwait, fun o' ho' => ?_, ?_⟩
  · rcases List.mem_append.mp ho' with ho' | ho'
    · exact hw.outcomes o' ho'
    obtain rfl := List.mem_singleton.mp ho'
    cases hcall with
    | enqueued => exact .inr ⟨_, _, rfl⟩
    | returned => exact .inl rfl
    | nothing => exact absurd rfl hnothing
  · have hcount := hw.count
    rw [returns, overtakers, List.countP_append, List.countP_append, List.countP_singleton,
      List.countP_singleton, ← returns, ← overtakers]
    omega

/-- While a job waits every `Dequeue` returns another job, and not more often than there are
jobs ahead of it by their stored scores, with the later ones that overtake it. -/
theorem overtaken_bounded
    (h : Run (step fused name) (InQueue name) .initial (before ++ after) s)
    (hwait : waitingAfter before id = some k) (hkeeps : ∀ o ∈ after, Keeps id o) :
    (∀ o ∈ after, isReturned o ∨ ∃ j k', o = .enqueued j k') ∧
    returns after ≤
      (aheadOf fused (waitingAfter before) id k).ncard + overtakers fused k after := by
  obtain ⟨m, hbefore, hafter⟩ := h.split before
  have hwaits : Holds fused name s ∧ ((∀ o ∈ after, Keeps id o) → Waits fused m id k after s) := by
    refine hafter.invariant (I := fun tr s => Holds fused name s ∧
      ((∀ o ∈ tr, Keeps id o) → Waits fused m id k tr s)) ⟨holds_run hbefore, fun _ => ?_⟩ ?_
    · exact ⟨by rw [waiting_run hbefore, hwait], nofun, le_rfl⟩
    intro tr s s' op o _ ih hok hs
    obtain ⟨hh, ih⟩ := ih
    obtain ⟨hh', hcall⟩ := step_call hh hok hs
    refine ⟨hh', fun hkeeps => waits_call (ih fun o ho => ?_) hh (hkeeps o ?_) hcall⟩
    · exact hkeeps o (List.mem_append_left _ ho)
    · exact List.mem_append_right _ (List.mem_singleton.mpr rfl)
  have hw := hwaits.2 hkeeps
  have hcount := hw.count
  rw [waiting_run hbefore] at hcount
  exact ⟨hw.outcomes, by omega⟩

/-- Two jobs of the greatest priority, the second one a millisecond later under the same
score: its id is the smaller one, so it is taken first. -/
def sameScore : List Op :=
  [.enqueue (sampleJob "b" 2147483647) 1709214840000000,
    .enqueue (sampleJob "a" 2147483647) 1709214840001000, .dequeue]

theorem sameScore_runs : (execute (step false "default") .initial sameScore).isSome := by
  decide +kernel

theorem sameScore_outcomes : (outcome (step false "default") .initial sameScore sameScore_runs).2 =
    [.enqueued "b" ⟨2147483647, 1709214840000⟩] ++
      [.enqueued "a" ⟨2147483647, 1709214840001⟩, .returned "a"] := by
  decide +kernel

theorem overtaken_bounded_sameScore : ∃ before after s,
    Run (step false "default") (InQueue "default") .initial (before ++ after) s ∧
    waitingAfter before "b" = some ⟨2147483647, 1709214840000⟩ ∧ returns after = 1 ∧
    overtakers false ⟨2147483647, 1709214840000⟩ after = 1 ∧
    returns after ≤ (aheadOf false (waitingAfter before) "b" ⟨2147483647, 1709214840000⟩).ncard +
      overtakers false ⟨2147483647, 1709214840000⟩ after := by
  have hrun := Run.of_outcome sameScore_runs
    (show Admitted _ (InQueue "default") _ _ by decide +kernel)
  rw [sameScore_outcomes] at hrun
  exact ⟨_, _, _, hrun, by decide, by decide, by decide +kernel,
    (overtaken_bounded hrun (by decide) (by simp [Keeps])).2⟩

end JobFlow.Queue.Overtaking
