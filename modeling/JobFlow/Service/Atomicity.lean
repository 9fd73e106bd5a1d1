import JobFlow.Model.Call
import JobFlow.Runs.Entries

/-!
# Errors of `Create` and `Retry`

Both operations run one statement on PostgreSQL, then put the row into its queue,
then announce it. An error of the statement leaves everything as it was. An error
of the `Enqueue` comes after the statement has taken effect, and nothing undoes it.
-/

namespace JobFlow.Service.Atomicity

open JobFlow.Model
open JobFlow.Model.JobRepository
open JobFlow.Model.RedisQueue
open JobFlow.Runs

/-- If the request returns an error, the table and Redis are as before, and the
request can be repeated as if for the first time. -/
def Atomic (w : World) (request : Request) (choices : List Choice) : Prop :=
  ∀ w' e, call w (Pc.request request) choices = some (w', .error e) →
    w'.jobs = w.jobs ∧ w'.redis = w.redis ∧
    ∀ again, call w' (Pc.request request) again = call w (Pc.request request) again

/-- The `Enqueue` of the row fails: it is chosen to, or the key of the queue holds a
list. -/
def EnqueueFails (w : World) (row : Job) (c : Choice) : Prop :=
  c.fails = true ∨ ∃ items, w.redis (queueKey row.queueName) = some (.list items)

/-- The row the statement of the request makes queued, `none` when it is refused,
matches no row or makes a row wait for its time. -/
def queuedRow (w : World) (e : Env) : Request → Option Job
  | .create input =>
    match Pc.create input with
    | .createInsert p => (newRow w.clock e.reading e.freshID p).filter fun row =>
        (w.jobs.find row.id).isNone && row.status = .queued
    | _ => none
  | .retry id userID => (w.jobs.find id).filter (requeueWhere id userID)
  | .cancel _ _ => none

/-- The statement takes effect and makes a row queued, and the `Enqueue` of it fails. -/
def HalfDone (w : World) (request : Request) (choices : List Choice) : Prop :=
  ∃ statement enqueue rest row, choices = statement :: enqueue :: rest ∧
    statement.fails = false ∧ queuedRow w statement.env request = some row ∧
    EnqueueFails w row enqueue

theorem exec_enqueue_list {w : World} {row : Job} {items : List String}
    (h : w.redis (queueKey row.queueName) = some (.list items)) (e : Env) :
    exec w e (.enqueue row) = some (w, .err .wrongType) := by
  simp only [exec, enqueue, Redis.zadd, Redis.sortedAt, h]
  rfl

theorem exec_enqueue_ok {w : World} {row : Job}
    (h : ∀ items, w.redis (queueKey row.queueName) ≠ some (.list items)) (e : Env) :
    ∃ w', exec w e (.enqueue row) = some (w', .done) := by
  simp only [exec, enqueue, Redis.zadd, Redis.sortedAt]
  split
  · exact ⟨_, rfl⟩
  · exact ⟨_, rfl⟩
  · next items hl => exact absurd hl (h items)

/-- The two points that enqueue a row and then announce it. -/
structure Enqueues (pc : Pc) (row : Job) : Prop where
  code : ∃ next, pc.code = some (.enqueue row, next) ∧ (∀ r, r ≠ .done →
    next r = .returned (.error r.error)) ∧ ∃ event after, (next .done).code = some
      (.publish event, after) ∧ ∀ r, after r = .returned (.ok (some row))

theorem enqueues_create (row : Job) : Enqueues (.createEnqueue row) row := by
  refine ⟨_, rfl, ?_, _, _, rfl, fun _ => rfl⟩
  intro r hr
  cases r <;> first | rfl | exact absurd rfl hr

theorem enqueues_retry (row : Job) : Enqueues (.retryEnqueue row) row := by
  refine ⟨_, rfl, ?_, _, _, rfl, fun _ => rfl⟩
  intro r hr
  cases r <;> first | rfl | exact absurd rfl hr

/-- An `Enqueue` that fails ends the call with an error and leaves the world as it is. -/
theorem call_enqueue_fails {w : World} {pc : Pc} {row : Job} {c : Choice}
    (hpc : Enqueues pc row) (hf : EnqueueFails w row c) (rest : List Choice) :
    ∃ e, call w pc (c :: rest) = some (w, .error e) := by
  obtain ⟨next, hcode, herr, -⟩ := hpc.code
  rw [call_cons hcode]
  cases hc : c.fails with
  | true => exact ⟨.unavailable, by rw [if_pos rfl, herr _ (by simp), call_returned]; rfl⟩
  | false =>
    obtain ⟨items, hl⟩ := hf.resolve_left (by simp [hc])
    refine ⟨.wrongType, ?_⟩
    rw [if_neg (by simp), exec_enqueue_list hl, Option.bind_some, herr _ (by simp), call_returned]
    rfl

/-- A call that ends with an error at such a point has failed to enqueue the row, and
has left the world as it was. -/
theorem enqueue_of_error {w w' : World} {pc : Pc} {row : Job} {choices : List Choice} {e : Err}
    (hpc : Enqueues pc row) (h : call w pc choices = some (w', .error e)) :
    w' = w ∧ ∃ c rest, choices = c :: rest ∧ EnqueueFails w row c := by
  obtain ⟨next, hcode, herr, event, after, hpub, hret⟩ := hpc.code
  cases choices with
  | nil =>
    rw [call_nil hcode] at h
    cases h
  | cons c rest =>
    rw [call_cons hcode] at h
    cases hc : c.fails with
    | true =>
      rw [hc, if_pos rfl, herr _ (by simp), call_returned] at h
      cases h
      exact ⟨rfl, c, rest, rfl, .inl hc⟩
    | false =>
      rw [hc, if_neg (by simp)] at h
      by_cases hl : ∃ items, w.redis (queueKey row.queueName) = some (.list items)
      · obtain ⟨items, hl⟩ := hl
        rw [exec_enqueue_list hl, Option.bind_some, herr _ (by simp), call_returned] at h
        cases h
        exact ⟨rfl, c, rest, rfl, .inr ⟨items, hl⟩⟩
      · obtain ⟨w₁, hx⟩ := exec_enqueue_ok (not_exists.mp hl) c.env
        rw [hx, Option.bind_some] at h
        -- after the `Enqueue` only the announcement is left, and the call succeeds
        cases rest with
        | nil =>
          rw [call_nil hpub] at h
          cases h
        | cons c' rest =>
          rw [call_cons hpub] at h
          split at h <;> simp [hret, exec, call_returned] at h

/-- What the statement of a request leads to, by the row it makes queued. -/
inductive Outcome (w : World) : Option Job → World → Pc → Prop
  | refused (e : Err) : Outcome w none w (.returned (.error e))
  | announced {w₁ : World} {pc : Pc} {event : Event} {after : Reply → Pc}
      {result : Option Job} (hcode : pc.code = some (.publish event, after))
      (hret : ∀ r, after r = .returned (.ok result)) : Outcome w none w₁ pc
  | queued {w₁ : World} {pc : Pc} {row job : Job} (hjobs : w₁.jobs ≠ w.jobs)
      (hredis : w₁.redis = w.redis) (hname : job.queueName = row.queueName)
      (hpc : Enqueues pc job) : Outcome w (some row) w₁ pc

/-- The request issues one statement. If the store fails it, the call returns an error. -/
structure Issues (w : World) (request : Request) (cmd : Cmd) (next : Reply → Pc) : Prop where
  code : (Pc.request request).code = some (cmd, next)
  failed : next (.err .unavailable) = .returned (.error .unavailable)
  outcome : ∀ e, ∃ w₁ r, exec w e cmd = some (w₁, r) ∧
    Outcome w (queuedRow w e request) w₁ (next r)

/-- A `Create` that is refused makes no row queued. -/
theorem queuedRow_of_refused {w : World} {input : CreateJobInput} {p : CreateJobParams} {e : Env}
    (hp : Pc.create input = .createInsert p)
    (h : JobRepository.create w.jobs w.clock e.reading e.freshID p = (w.jobs, .error .constraint)) :
    queuedRow w e (.create input) = none := by
  cases hq : queuedRow w e (.create input) with
  | none => rfl
  | some row =>
    simp only [queuedRow, hp, Option.filter_eq_some_iff, Bool.and_eq_true, Option.isNone_iff_eq_none]
      at hq
    obtain ⟨hrow, hnone, -⟩ := hq
    have hfree := (w.jobs.find_eq_none_iff row.id).mp hnone
    simp [JobRepository.create, hrow, hfree] at h

theorem create_issues {w : World} {input : CreateJobInput} {p : CreateJobParams}
    (hp : Pc.create input = .createInsert p) :
    ∃ cmd next, Issues w (.create input) cmd next := by
  refine ⟨.insertJob p, _, by rw [Pc.request, hp]; rfl, rfl, fun e =>
    ⟨{ w with jobs := (create w.jobs w.clock e.reading e.freshID p).1 },
      ofRow (create w.jobs w.clock e.reading e.freshID p).2, rfl, ?_⟩⟩
  rcases create_cases w.jobs w.clock e.reading e.freshID p with
    ⟨row, hrow, hnone, hret, hfind⟩ | hrefused
  · have hid := (newRow_fields hrow).1
    have hqueued : queuedRow w e (.create input) =
        if row.status = .queued then some row else none := by
      simp [queuedRow, hp, hrow, hid, hnone, Option.filter]
    rw [hret, ofRow, hqueued]
    dsimp only
    split
    · refine .queued (fun heq => ?_) rfl rfl (enqueues_create row)
      have hnew := hfind e.freshID
      rw [if_pos rfl, show (create w.jobs w.clock e.reading e.freshID p).1 = w.jobs from heq,
        hnone] at hnew
      cases hnew
    · exact .announced rfl fun _ => rfl
  · rw [queuedRow_of_refused hp hrefused, hrefused]
    exact .refused _

theorem retry_issues (w : World) (id userID : String) :
    ∃ cmd next, Issues w (.retry id userID) cmd next := by
  refine ⟨.requeueJob id userID, _, rfl, rfl, fun e =>
    ⟨{ w with jobs := (requeue w.jobs w.clock id userID).1 },
      ofRow (requeue w.jobs w.clock id userID).2, rfl, ?_⟩⟩
  rcases requeue_cases w.jobs w.clock id userID with ⟨row, hrow, hw, hret, hfind⟩ | ⟨hno, hsame⟩
  · have hqueued : queuedRow w e (.retry id userID) = some row := by
      simp [queuedRow, hrow, hw, Option.filter]
    rw [hqueued, hret]
    have hname : ((requeueSet w.clock).apply row).queueName = row.queueName := rfl
    refine .queued (fun heq => ?_) rfl hname (enqueues_retry _)
    have hnew := hfind id
    rw [if_pos rfl, show (requeue w.jobs w.clock id userID).1 = w.jobs from heq, hrow] at hnew
    have hst : row.status = .queued := congrArg Job.status (Option.some.inj hnew)
    simp [requeueWhere, hst] at hw
  · have hqueued : queuedRow w e (.retry id userID) = none := by
      simpa [queuedRow, Option.filter_eq_none_iff] using hno
    rw [hqueued, hsame]
    exact .refused _

theorem cancel_issues (w : World) (id userID : String) :
    ∃ cmd next, Issues w (.cancel id userID) cmd next := by
  refine ⟨.cancelJob id userID, _, rfl, rfl, fun e =>
    ⟨{ w with jobs := (cancel w.jobs w.clock id userID).1 },
      .affected (cancel w.jobs w.clock id userID).2, rfl, ?_⟩⟩
  rw [show queuedRow w e (.cancel id userID) = none from rfl]
  rcases cancel_cases w.jobs w.clock id userID with ⟨row, -, -, hret, -⟩ | ⟨-, hsame⟩
  · rw [hret]
    exact .announced rfl fun _ => rfl
  · rw [hsame]
    exact .refused _

theorem request_issues (w : World) (request : Request) :
    ((∃ e, Pc.request request = .returned (.error e)) ∧ ∀ e, queuedRow w e request = none) ∨
    ∃ cmd next, Issues w request cmd next := by
  cases request with
  | create input =>
    by_cases hty : input.jobType = ""
    · refine .inl ⟨⟨.typeRequired, ?_⟩, fun e => ?_⟩
      · simp [Pc.request, Pc.create, hty]
      · simp [queuedRow, Pc.create, hty]
    · exact .inr (create_issues (by rw [Pc.create, if_neg hty]))
  | cancel id userID => exact .inr (cancel_issues w id userID)
  | retry id userID => exact .inr (retry_issues w id userID)

/-- A call that has announced its result has succeeded. -/
theorem call_announced {w w' : World} {pc : Pc} {event : Event} {after : Reply → Pc}
    {result : Option Job} {choices : List Choice} {r : Except Err (Option Job)}
    (hcode : pc.code = some (.publish event, after)) (hret : ∀ r, after r = .returned (.ok result))
    (h : call w pc choices = some (w', r)) : r = .ok result := by
  cases choices with
  | nil =>
    rw [call_nil hcode] at h
    cases h
  | cons c rest =>
    rw [call_cons hcode] at h
    split at h <;> simp only [hret, exec, call_returned, Option.bind_some, Option.some.injEq,
      Prod.mk.injEq] at h <;> exact h.2.symm

/-- An error that does not come from the `Enqueue` of a row made queued leaves the
world as it was. -/
theorem unchanged_of_error {w w' : World} {request : Request} {choices : List Choice} {e : Err}
    (h : call w (Pc.request request) choices = some (w', .error e))
    (hno : ¬ HalfDone w request choices) : w' = w := by
  rcases request_issues w request with ⟨⟨x, hx⟩, -⟩ | ⟨cmd, next, hi⟩
  · rw [hx, call_returned] at h
    cases h
    rfl
  · cases choices with
    | nil =>
      rw [call_nil hi.code] at h
      cases h
    | cons c rest =>
      rw [call_cons hi.code] at h
      cases hc : c.fails with
      | true =>
        rw [hc, if_pos rfl, hi.failed, call_returned] at h
        cases h
        rfl
      | false =>
        obtain ⟨w₁, r, hx, hout⟩ := hi.outcome c.env
        rw [hc, if_neg (by simp), hx, Option.bind_some] at h
        generalize hq : queuedRow w c.env request = q at hout
        generalize next r = pc at hout h
        dsimp only at h
        cases hout with
        | refused x =>
          rw [call_returned] at h
          cases h
          rfl
        | announced hcode hret => cases call_announced hcode hret h
        | @queued w₁ pc row job hjobs hredis hname hpc =>
          obtain ⟨-, c', rest', rfl, hf⟩ := enqueue_of_error hpc h
          refine absurd ⟨c, c', rest', row, rfl, hc, hq, ?_⟩ hno
          simpa [EnqueueFails, hredis, hname] using hf

/-- `Create` and `Retry` are atomic on error exactly when it is not the `Enqueue` of the
row they made queued that fails. -/
theorem atomic_on_error_iff (w : World) (request : Request) (choices : List Choice) :
    Atomic w request choices ↔ ¬ HalfDone w request choices := by
  constructor
  · rintro hatomic ⟨c, c', rest, row, rfl, hc, hq, hf⟩
    rcases request_issues w request with ⟨-, hnone⟩ | ⟨cmd, next, hi⟩
    · cases (hnone c.env).symm.trans hq
    · obtain ⟨w₁, r, hx, hout⟩ := hi.outcome c.env
      have hcall : call w (Pc.request request) (c :: c' :: rest) = call w₁ (next r) (c' :: rest) := by
        rw [call_cons hi.code, hc, if_neg (by simp), hx, Option.bind_some]
      rw [hq] at hout
      generalize next r = pc at hout hcall
      cases hout with
      | @queued _ _ _ job hjobs hredis hname hpc =>
        have hf' : EnqueueFails w₁ job c' := by
          simpa [EnqueueFails, hredis, hname] using hf
        obtain ⟨e, herr⟩ := call_enqueue_fails hpc hf' rest
        exact hjobs (hatomic _ _ (hcall.trans herr)).1
  · intro hno w' e hcall
    obtain rfl := unchanged_of_error hcall hno
    exact ⟨rfl, rfl, fun _ => rfl⟩

/-- A job of `u1` in the dead-letter state, and nothing in Redis. -/
def deadLettered : World :=
  { World.initial with jobs := ⟨[{
      id := "j1", userID := some "u1", queueName := "default", jobType := "send_email"
      payload := .object [], status := .deadLetter, priority := 0, attempts := 3, maxAttempts := 3
      errorMessage := some "forced failure", scheduledAt := none, startedAt := some 0
      completedAt := none, createdAt := 0, updatedAt := 0 }], by decide⟩ }

/-- The `Enqueue` of a `Retry` fails: the row stays queued, and repeating the request
finds no job to retry. -/
theorem retry_not_atomic : ¬ ∀ w request choices,
    ((∃ input, request = .create input) ∨ ∃ id userID, request = .retry id userID) →
      Atomic w request choices := by
  intro hall
  have hcall : call deadLettered (Pc.request (.retry "j1" "u1")) [{}, { fails := true }] =
      some ({ deadLettered with jobs := (requeue deadLettered.jobs 0 "j1" "u1").1 },
        .error .unavailable) := rfl
  have hsame := (hall deadLettered _ _ (.inr ⟨"j1", "u1", rfl⟩) _ _ hcall).1
  have hstatus := congrArg (fun t => (t.find "j1").map Job.status) hsame
  revert hstatus
  decide

end JobFlow.Service.Atomicity
