import JobFlow.Runs.Carried

/-!
# Types of the Redis keys

Queue names share the prefix `queue:` with the list of dead letters, so one
name, `dead-letter`, denotes that list. As long as nobody uses this name every
key keeps its type and no command of the queue fails. A single job created
under the name is enough to lose the dead letters of all others.
-/

namespace JobFlow.Runs.KeySpace

open JobFlow.Model
open JobFlow.Model.JobRepository
open JobFlow.Model.RedisQueue
open JobFlow.Lib.Transition
open ControlFlow Steps Carried

/-- The queue name that denotes the list of dead letters. -/
def reserved : String := "dead-letter"

/-- No key but that of the dead letters holds a list. -/
def OneList (r : Redis) : Prop := ∀ key items, r key = some (.list items) → key = deadLetterKey

theorem oneList_putSorted {r : Redis} (h : OneList r) (key : String)
    (z : Lib.SortedSet String Int) : OneList (r.putSorted key z) := by
  unfold Redis.putSorted
  intro k items hv
  by_cases hk : k = key
  · subst hk
    rw [Function.update_self] at hv
    split at hv <;> cases hv
  · exact h k items (by rwa [Function.update_of_ne hk] at hv)

theorem oneList_push {r : Redis} (h : OneList r) (items : List String) :
    OneList (Function.update r deadLetterKey (some (.list items))) := by
  intro k items' hv
  by_cases hk : k = deadLetterKey
  · exact hk
  · exact h k items' (by rwa [Function.update_of_ne hk] at hv)

/-- The list of dead letters is the only list, and nothing else. -/
structure Typed (r : Redis) : Prop where
  lists : OneList r
  zsets : ∀ key z, r key = some (.zset z) → key ≠ deadLetterKey

namespace Typed

variable {r r' : Redis} {key : String}

theorem sortedAt (h : Typed r) (hk : key ≠ deadLetterKey) : ∃ z, r.sortedAt key = .ok z := by
  unfold Redis.sortedAt
  cases hv : r key with
  | none => exact ⟨_, rfl⟩
  | some v =>
    cases v with
    | zset z => exact ⟨z, rfl⟩
    | list items => exact absurd (h.lists key items hv) hk

theorem listAt (h : Typed r) : ∃ items, r.listAt deadLetterKey = .ok items := by
  unfold Redis.listAt
  cases hv : r deadLetterKey with
  | none => exact ⟨_, rfl⟩
  | some v =>
    cases v with
    | zset z => exact absurd rfl (h.zsets _ z hv)
    | list items => exact ⟨items, rfl⟩

theorem putSorted (h : Typed r) (hk : key ≠ deadLetterKey) (z : Lib.SortedSet String Int) :
    Typed (r.putSorted key z) where
  lists := oneList_putSorted h.lists key z
  zsets k z' hv := by
    by_cases hkk : k = key
    · exact hkk ▸ hk
    · exact h.zsets k z' (by rwa [Redis.putSorted, Function.update_of_ne hkk] at hv)

theorem zadd (h : Typed r) (hk : key ≠ deadLetterKey) (s : Int) (m : String) :
    ∃ r', r.zadd key s m = .ok r' ∧ Typed r' := by
  obtain ⟨z, hz⟩ := h.sortedAt hk
  exact ⟨_, by simp [Redis.zadd, hz, bind, Except.bind]; rfl, h.putSorted hk _⟩

theorem zrem (h : Typed r) (hk : key ≠ deadLetterKey) (m : String) :
    ∃ r', r.zrem key m = .ok r' ∧ Typed r' := by
  obtain ⟨z, hz⟩ := h.sortedAt hk
  exact ⟨_, by simp [Redis.zrem, hz, bind, Except.bind]; rfl, h.putSorted hk _⟩

theorem zpopmin (h : Typed r) (hk : key ≠ deadLetterKey) :
    ∃ r' popped, r.zpopmin key = .ok (r', popped) ∧ Typed r' := by
  obtain ⟨z, hz⟩ := h.sortedAt hk
  cases hp : z.popMin with
  | none => exact ⟨r, none, by simp [Redis.zpopmin, hz, hp, bind, Except.bind]; rfl, h⟩
  | some ez =>
    exact ⟨_, some ez.1.2, by simp [Redis.zpopmin, hz, hp, bind, Except.bind]; rfl,
      h.putSorted hk ez.2⟩

theorem zrangebyscore (h : Typed r) (hk : key ≠ deadLetterKey) (max : Int) :
    ∃ ids, r.zrangebyscore key max = .ok ids := by
  obtain ⟨z, hz⟩ := h.sortedAt hk
  exact ⟨_, by simp [Redis.zrangebyscore, hz, bind, Except.bind]; rfl⟩

theorem zcard (h : Typed r) (hk : key ≠ deadLetterKey) : ∃ n, r.zcard key = .ok n := by
  obtain ⟨z, hz⟩ := h.sortedAt hk
  exact ⟨_, by simp [Redis.zcard, hz, bind, Except.bind]; rfl⟩

theorem lpush (h : Typed r) (item : String) :
    ∃ r', r.lpush deadLetterKey item = .ok r' ∧ Typed r' := by
  obtain ⟨items, hi⟩ := h.listAt
  refine ⟨_, by simp [Redis.lpush, hi, bind, Except.bind]; rfl, oneList_push h.lists _, ?_⟩
  intro k z hv
  by_cases hk : k = deadLetterKey
  · subst hk
    rw [Function.update_self] at hv
    cases hv
  · exact hk

end Typed

/-- The queue the command names is not the reserved one. -/
def Cmd.Avoids : Cmd → Prop
  | .enqueue job => job.queueName ≠ reserved
  | .pop name => name ≠ reserved
  | _ => True

/-- Commands that avoid the name keep the types, and those of the queue succeed. -/
theorem typed_exec {w w' : World} {e : Env} {cmd : Cmd} {r : Reply} (ht : Typed w.redis)
    (hc : Cmd.Avoids cmd) (h : exec w e cmd = some (w', r)) :
    Typed w'.redis ∧ (Cmd.usesQueue cmd → ∀ x, r ≠ .err x) := by
  have hkey : ∀ {name}, name ≠ reserved → queueKey name ≠ deadLetterKey :=
    fun hn hk => hn ((queueKey_eq_deadLetterKey_iff _).mp hk)
  have hretries : retriesKey ≠ deadLetterKey := deadLetterKey_ne_retriesKey.symm
  cases hq : Cmd.usesQueue cmd with
  | false =>
    rw [exec_redis h hq]
    exact ⟨ht, fun hu => absurd hu Bool.false_ne_true⟩
  | true =>
  cases cmd <;> simp only [Cmd.usesQueue, Bool.false_eq_true] at hq <;>
    simp only [exec, Option.some.injEq] at h
  case enqueue job =>
    obtain ⟨r', hr', ht'⟩ := ht.zadd (hkey hc) (score job.priority e.reading) job.id
    rw [RedisQueue.enqueue, hr'] at h
    cases h
    exact ⟨ht', fun _ _ hx => by cases hx⟩
  case enqueueAfter job delay =>
    obtain ⟨r', hr', ht'⟩ := ht.zadd hretries ((e.reading * 1000 + delay) / 1000000000) job.id
    rw [RedisQueue.enqueueAfter, hr'] at h
    cases h
    exact ⟨ht', fun _ _ hx => by cases hx⟩
  case dueRetries =>
    obtain ⟨ids, hids⟩ := ht.zrangebyscore hretries (unix e.reading)
    rw [RedisQueue.dueRetries, hids] at h
    cases h
    exact ⟨ht, fun _ _ hx => by cases hx⟩
  case removeRetry id =>
    obtain ⟨r', hr', ht'⟩ := ht.zrem hretries id
    rw [RedisQueue.removeRetry, hr'] at h
    cases h
    exact ⟨ht', fun _ _ hx => by cases hx⟩
  case pop name =>
    obtain ⟨r', popped, hr', ht'⟩ := ht.zpopmin (hkey hc)
    rw [RedisQueue.pop, hr'] at h
    cases h
    exact ⟨ht', fun _ _ hx => by cases hx⟩
  case deadLetter job =>
    obtain ⟨r', hr', ht'⟩ := ht.lpush job.id
    rw [RedisQueue.deadLetter, hr'] at h
    cases h
    exact ⟨ht', fun _ _ hx => by cases hx⟩

/-- Whatever the queues are called, the commands make no other list. -/
theorem oneList_exec {w w' : World} {e : Env} {cmd : Cmd} {r : Reply} (hl : OneList w.redis)
    (h : exec w e cmd = some (w', r)) : OneList w'.redis := by
  have hkeys := exec_keys h
  generalize w'.redis = r' at hkeys ⊢
  cases hkeys with
  | same => exact hl
  | sorted hz => exact oneList_putSorted hl _ _
  | pushed hitems => exact oneList_push hl _

theorem oneList_run {ok : State → Label → Prop} {tr : List Act} {s : State}
    (h : Run step ok State.initial tr s) : OneList s.world.redis := by
  refine h.invariant (I := fun _ s => OneList s.world.redis) nofun ?_
  intro tr s s' l a _ hl _ hs
  rcases step_world hs with hw | ⟨now, -, hw⟩ | ⟨_, _, _, _, _, _, _, _, hx⟩
  · rwa [hw]
  · rwa [hw]
  · exact oneList_exec hl hx

theorem stats_ok {r : Redis} (ht : Typed r) {queues : List String} (hq : reserved ∉ queues) :
    ∃ stats, RedisQueue.stats r queues = .ok stats := by
  unfold RedisQueue.stats
  generalize (r.llen deadLetterKey).toOption.getD 0 = dlq
  induction queues with
  | nil => exact ⟨[], rfl⟩
  | cons name queues ih =>
    rw [List.mem_cons, not_or] at hq
    have hk : queueKey name ≠ deadLetterKey :=
      fun hk => hq.1 ((queueKey_eq_deadLetterKey_iff _).mp hk).symm
    obtain ⟨n, hn⟩ := ht.zcard hk
    obtain ⟨stats, hs⟩ := ih hq.2
    refine ⟨⟨name, n, dlq⟩ :: stats, ?_⟩
    simp only [List.mapM_cons, hn, bind, Except.bind, pure, Except.pure] at hs ⊢
    rw [hs]

/-- No request names the queue and no worker pool reads from it. -/
def Unreserved (_ : State) : Label → Prop
  | .start _ (.request (.create input)) => input.queue ≠ reserved
  | .start _ (.worker w) => reserved ∉ w.queues
  | _ => True

instance (s : State) (l : Label) : Decidable (Unreserved s l) := by
  unfold Unreserved
  split <;> infer_instance

/-- The program point was reached from a start that avoids the name. -/
def Avoids : Pc → Prop
  | .createInsert p => p.queueName ≠ reserved
  | .dequeue w queues => reserved ∉ w.queues ∧ reserved ∉ queues
  | .markRunning w _ | .publishRunning w _ | .process w _ | .markCompleted w _
  | .countCompleted w _ | .publishCompleted w _ | .markFailed w _ _ | .countFailed w _
  | .enqueueAfter w _ | .publishRetrying w _ | .deadLetter w _ | .publishDeadLetter w _ =>
    reserved ∉ w.queues
  | _ => True

theorem avoids_entry {s : State} {p : Pid} {role : Role} (h : Unreserved s (.start p role)) :
    Avoids (Pc.entry role) := by
  cases role with
  | request r =>
    cases r with
    | create input =>
      simp only [Pc.entry, Pc.request, Pc.create]
      split
      · trivial
      · simp only [Avoids]
        split
        · decide
        · exact h
    | cancel | retry => trivial
  | worker w => exact ⟨h, h⟩
  | scheduler | heartbeat => trivial

theorem avoids_next {pc pc' : Pc} {cmd : Cmd} {r : Reply} (hf : Follows pc cmd r pc')
    (h : Avoids pc) : Avoids pc' := by
  cases hf with
  | popped => exact h.1
  | empty => exact ⟨h.1, fun hm => h.2 (List.mem_cons_of_mem _ hm)⟩
  | popFailed | slept => exact ⟨h.1, h.1⟩
  | _ => first | exact h | exact ⟨h, h⟩ | trivial

/-- The command of such a point avoids the name, if the carried jobs do. -/
theorem cmd_avoids {pc pc' : Pc} {cmd : Cmd} {r : Reply} (hf : Follows pc cmd r pc')
    (h : Avoids pc) (hjobs : ∀ job ∈ carries pc, job.queueName ≠ reserved) : Cmd.Avoids cmd := by
  cases hf with
  | popped | empty | popFailed => exact fun hn => h.2 (hn ▸ List.mem_cons_self)
  | _ => first | trivial | exact hjobs _ List.mem_cons_self

/-- A text the column cuts off is too long for the name. -/
theorem varchar_reserved {name stored : String} (h : varchar 100 name = some stored)
    (hn : name ≠ reserved) : stored ≠ reserved := by
  rintro rfl
  unfold varchar at h
  split at h
  · exact hn (Option.some.inj h)
  · next hlen =>
    split at h
    · have hl := congrArg String.length (Option.some.inj h)
      have hten : reserved.length = 11 := by decide
      rw [String.length_ofList, List.length_take, String.length_toList] at hl
      omega
    · cases h

/-- What holds as long as nobody uses the name. -/
structure Clean (s : State) : Prop where
  redis : Typed s.world.redis
  rows : ∀ id r, row s id = some r → r.queueName ≠ reserved
  points : ∀ p, Avoids (s.procs p)

/-- No goroutine is about to name the reserved queue. -/
theorem Clean.command {s : State} (hc : Clean s) (hrows : CarriesRows s) {p : Pid} {cmd : Cmd}
    {next : Reply → Pc} (hcode : (s.procs p).code = some (cmd, next)) : Cmd.Avoids cmd := by
  refine cmd_avoids (follows hcode .done) (hc.points p) fun job hj => ?_
  obtain ⟨row, hrow, hsame⟩ := hrows p job hj
  rw [hsame.queueName]
  exact hc.rows _ row hrow

theorem clean_initial : Clean State.initial where
  redis := ⟨nofun, nofun⟩
  rows _ _ h := by cases h
  points _ := trivial

theorem clean_step {s s' : State} {l : Label} {a : Act} (hc : Clean s) (hrows : CarriesRows s)
    (ho : Unreserved s l) (h : step s l = some (s', a)) : Clean s' := by
  constructor
  case redis =>
    rcases step_world h with hw | ⟨now, -, hw⟩ | ⟨p, _, _, _, _, _, -, hcode, hx⟩
    · rw [hw]
      exact hc.redis
    · rw [hw]
      exact hc.redis
    · exact (typed_exec hc.redis (hc.command hrows hcode) hx).1
  case rows =>
    intro id r' hr'
    cases hr : row s id with
    | some r =>
      obtain ⟨r₁, hr₁, hsame⟩ := step_sameJob h hr
      obtain rfl : r' = r₁ := Option.some.inj (hr'.symm.trans hr₁)
      rw [hsame.queueName]
      exact hc.rows id r hr
    | none =>
      have hstep := step_row h id
      rw [hr, hr'] at hstep
      cases hstep with
      | @created p _ _ params _ hl hpc hnew =>
        have hp := hc.points p
        rw [hpc] at hp
        exact varchar_reserved (newRow_fields hnew).2.2.1 hp
  case points =>
    intro q
    have hq := hc.points q
    have hm := step_moves h q
    generalize s'.procs q = pc at hm
    cases hm with
    | stays => exact hq
    | starts hl => exact avoids_entry (hl ▸ ho)
    | crashes | stops => trivial
    | @finishes w job outcome hl hpc =>
      rw [hpc] at hq
      cases outcome <;> exact hq
    | runs hl hran => exact avoids_next (follows hran.code _) hq

theorem clean_run {tr : List Act} {s : State} (h : Run step Unreserved State.initial tr s) :
    Clean s :=
  h.invariant (I := fun _ s => Clean s) clean_initial
    fun hrun hc ho hs => clean_step hc (carried_run hrun) ho hs

/-- The command of the queue that goroutine `p` is about to issue would be
answered with an error, though Redis is there. -/
def callFails (s : State) (p : Pid) (e : Env) : Bool :=
  match (s.procs p).code with
  | none => false
  | some (cmd, _) => Cmd.usesQueue cmd &&
    match exec s.world e cmd with
    | some (_, .err _) => true
    | _ => false

/-- While nobody uses the name `dead-letter`, queues and retries are sorted sets,
the dead letters are a list, and no command of the queue can fail. -/
theorem key_space {tr : List Act} {s : State} (h : Run step Unreserved State.initial tr s) :
    (∀ name items, name ≠ reserved → s.world.redis (queueKey name) ≠ some (.list items)) ∧
    (∀ items, s.world.redis retriesKey ≠ some (.list items)) ∧
    (∀ z, s.world.redis deadLetterKey ≠ some (.zset z)) ∧
    (∀ p e, callFails s p e = false) ∧
    ∀ queues, reserved ∉ queues → ∃ stats, RedisQueue.stats s.world.redis queues = .ok stats := by
  have hc := clean_run h
  refine ⟨?_, ?_, ?_, ?_, fun queues hq => stats_ok hc.redis hq⟩
  · intro name items hn hv
    exact hn ((queueKey_eq_deadLetterKey_iff name).mp (hc.redis.lists _ items hv))
  · intro items hv
    exact deadLetterKey_ne_retriesKey (hc.redis.lists _ items hv).symm
  · intro z hv
    exact hc.redis.zsets _ z hv rfl
  · intro p e
    unfold callFails
    split
    · rfl
    · next cmd next hcode =>
      split
      · next w x hx =>
        cases hq : Cmd.usesQueue cmd with
        | false => rfl
        | true =>
          have hok := (typed_exec hc.redis (hc.command (carried_run h) hcode) hx).2 hq
          exact absurd rfl (hok x)
      · exact Bool.and_false _

/-- One user's job waits in the queue `dead-letter` (0) when the job of another
user (1) has used up its attempts (2). -/
def deadLetterQueue : List Label :=
  [.start 0 (.request (.create ⟨"u1", "dead-letter", "send_email", none, 0, 3, none⟩)),
    .run 0 .ok { freshID := "j1" }, .run 0 .ok {},
    .start 1 (.request (.create ⟨"u2", "default", "send_email", none, 0, 1, none⟩)),
    .run 1 .ok { freshID := "j2" }, .run 1 .ok {},
    .start 2 (.worker ⟨"w1", "host", ["default"]⟩), .run 2 .ok {}, .run 2 .ok {},
    .run 2 .ok {}, .finish 2 (.error "boom"), .run 2 .ok {}, .run 2 .ok {}]

theorem deadLetterQueue_runs : (execute step State.initial deadLetterQueue).isSome := by decide

/-- The `LPUSH` of the second user's dead letter is then refused. -/
theorem deadLetter_refused : ¬ ∀ tr s, Run step anyStep State.initial tr s →
    ∀ p e, callFails s p e = false := by
  intro hall
  have hrun := Run.of_outcome deadLetterQueue_runs (admitted_anyStep State.initial _)
  have hfails : callFails (outcome step State.initial deadLetterQueue deadLetterQueue_runs).1
      2 {} = true := by decide
  rw [hall _ _ hrun 2 {}] at hfails
  cases hfails

/-- The same two users, with the first job in a queue of another name. -/
def otherQueue : List Label :=
  [.start 0 (.request (.create ⟨"u1", "emails", "send_email", none, 0, 3, none⟩)),
    .run 0 .ok { freshID := "j1" }, .run 0 .ok {},
    .start 1 (.request (.create ⟨"u2", "default", "send_email", none, 0, 1, none⟩)),
    .run 1 .ok { freshID := "j2" }, .run 1 .ok {},
    .start 2 (.worker ⟨"w1", "host", ["default"]⟩), .run 2 .ok {}, .run 2 .ok {},
    .run 2 .ok {}, .finish 2 (.error "boom"), .run 2 .ok {}, .run 2 .ok {}]

theorem otherQueue_runs : (execute step State.initial otherQueue).isSome := by decide

theorem key_space_otherQueue : ∃ tr s, Run step Unreserved State.initial tr s ∧
    .markedFailed 2 "j2" .deadLetter 1 0 ∈ tr ∧ callFails s 2 {} = false :=
  have hrun := Run.of_outcome otherQueue_runs (show Admitted step Unreserved _ _ by decide)
  ⟨_, _, hrun, by decide, (key_space hrun).2.2.2.1 2 {}⟩

end JobFlow.Runs.KeySpace
