import JobFlow.Model.Call

/-!
# One pass of the scheduler

`JobService.PromoteScheduled` with `RedisQueue.PromoteRetries`, which it calls last, run from
its call to its return while nothing else happens. Which commands fail is a pattern: every
id is handled at most once in a loop, so a command is known by its place and its id.
-/

namespace JobFlow.Model

open JobFlow.Model.JobRepository (JobTable)

/-- How the commands of a pass end, and what the clock says to those that read it. -/
structure Pattern where
  /-- `ReadyScheduled`, with the rows it picks. -/
  ready : Choice := {}
  /-- `Enqueue` and `Publish` of a promoted row. -/
  enqueue : String → Choice := fun _ => {}
  publish : String → Choice := fun _ => {}
  /-- `ZRangeByScore`. -/
  range : Choice := {}
  /-- `fetchJob`, `Enqueue` and `ZRem` of a delayed id. -/
  fetch : String → Choice := fun _ => {}
  requeue : String → Choice := fun _ => {}
  remove : String → Choice := fun _ => {}

/-- The result of a call that the environment may make fail. -/
def Choice.attempt {α : Type} (c : Choice) (x : Except Err α) : Except Err α :=
  if c.fails then .error .unavailable else x

/-- The world after a Redis command whose error is dropped. -/
def World.onRedis (w : World) : Except Err Redis → World
  | .ok r => { w with redis := r }
  | .error _ => w

namespace RedisQueue

/-- `_ = q.Enqueue(ctx, job)` if the job was fetched. -/
def fetchAndEnqueue (p : Pattern) (w : World) (id : String) : World :=
  match (p.fetch id).attempt (JobRepository.findJob w.jobs id) with
  | .error _ => w
  | .ok job =>
    w.onRedis ((p.requeue id).attempt (enqueue w.redis (p.requeue id).env.reading job))

/-- The body of the loop in `PromoteRetries`. -/
def promoteRetry (p : Pattern) (w : World) (id : String) : World :=
  let w := fetchAndEnqueue p w id
  w.onRedis ((p.remove id).attempt (removeRetry w.redis id))

def promoteRetries (p : Pattern) (w : World) : World × Except Err Unit :=
  match p.range.attempt (dueRetries w.redis p.range.env.reading) with
  | .error e => (w, .error e)
  | .ok ids => (ids.foldl (promoteRetry p) w, .ok ())

end RedisQueue

namespace JobService

/-- `s.events.Publish(event, job)`, which drops its error. -/
def publish (c : Choice) (w : World) (event : String) (job : Job) : World :=
  if c.fails then w else { w with events := w.events ++ [⟨event, .job job⟩] }

/-- The loop over the rows of the batch, and the call after it. -/
def promoteRows (p : Pattern) (w : World) : List Job → World × Except Err Unit
  | [] => RedisQueue.promoteRetries p w
  | job :: jobs =>
    let c := p.enqueue job.id
    match c.attempt (RedisQueue.enqueue w.redis c.env.reading job) with
    | .error e => (w, .error e)
    | .ok r => promoteRows p (publish (p.publish job.id) { w with redis := r } "job.queued" job) jobs

/-- `none` when the rows the pattern picks are no answer of `ReadyScheduled`. -/
def promoteScheduled (p : Pattern) (w : World) : Option (World × Except Err Unit) :=
  if p.ready.fails then some (w, .error .unavailable)
  else (JobRepository.readyScheduled w.jobs w.clock 100 p.ready.env.batch).map fun (t, rows) =>
    promoteRows p { w with jobs := t } rows

end JobService

/-- The choice for the command of the scheduler at a program point. -/
def Pattern.at (p : Pattern) : Pc → Choice
  | .schedulerTick => p.ready
  | .promoteEnqueue job _ => p.enqueue job.id
  | .promotePublish job _ => p.publish job.id
  | .retriesRange => p.range
  | .retriesFind id _ => p.fetch id
  | .retriesEnqueue _ id _ => p.requeue id
  | .retriesRemove id _ => p.remove id
  | _ => {}

/-- One command of the scheduler under a pattern. -/
def Pattern.Goes (p : Pattern) (x y : World × Pc) : Prop :=
  ∃ r, advance x.1 x.2 (p.at x.2).mode (p.at x.2).env = some (y.1, y.2, r)

open Relation (ReflTransGen TransGen)

theorem Pattern.goes_of_code {p : Pattern} {w w' : World} (pc : Pc) {cmd : Cmd}
    {next : Reply → Pc} {r : Reply} (hcode : pc.code = some (cmd, next))
    (h : (if (p.at pc).fails then some (w, .err .unavailable) else exec w (p.at pc).env cmd) =
      some (w', r)) : p.Goes (w, pc) (w', next r) := by
  refine ⟨r, ?_⟩
  simp only [advance, hcode, Choice.mode]
  cases hf : (p.at pc).fails with
  | true =>
    rw [hf, if_pos rfl] at h
    cases h
    rfl
  | false =>
    rw [hf, if_neg (by simp)] at h
    simp [h]

/-- What a Redis command leaves and replies under a choice. -/
theorem onRedis_attempt (w : World) (c : Choice) (x : Except Err Redis) :
    (if c.fails then some (w, Reply.err .unavailable) else some (onRedis w x)) =
      some (w.onRedis (c.attempt x), match c.attempt x with
        | .ok _ => .done
        | .error e => .err e) := by
  unfold Choice.attempt
  cases c.fails with
  | true => rfl
  | false => cases x <;> rfl

theorem goes_remove (p : Pattern) (w : World) (id : String) (ids : List String) :
    p.Goes (w, .retriesRemove id ids)
      (w.onRedis ((p.remove id).attempt (RedisQueue.removeRetry w.redis id)), Pc.retryNext ids) :=
  Pattern.goes_of_code (.retriesRemove id ids) rfl (onRedis_attempt w (p.remove id) (RedisQueue.removeRetry w.redis id))

theorem goes_fetchAndEnqueue (p : Pattern) (w : World) (id : String) (ids : List String) :
    ReflTransGen p.Goes (w, .retriesFind id ids)
      (RedisQueue.fetchAndEnqueue p w id, .retriesRemove id ids) := by
  unfold RedisQueue.fetchAndEnqueue Choice.attempt
  cases hf : (p.fetch id).fails with
  | true =>
    exact .single (Pattern.goes_of_code (.retriesFind id ids) rfl (r := .err .unavailable)
      (if_pos hf))
  | false =>
    have hfind := Pattern.goes_of_code (.retriesFind id ids) rfl (w := w)
      (r := ofRow (JobRepository.findJob w.jobs id)) (if_neg (ne_true_of_eq_false hf))
    rw [if_neg (by simp)]
    cases hjob : JobRepository.findJob w.jobs id with
    | error e =>
      rw [hjob] at hfind
      exact .single hfind
    | ok job =>
      rw [hjob] at hfind
      refine .tail (.single hfind) ?_
      exact Pattern.goes_of_code (.retriesEnqueue job id ids) rfl (onRedis_attempt w (p.requeue id)
        (RedisQueue.enqueue w.redis (p.requeue id).env.reading job))

theorem goes_promoteRetry (p : Pattern) (ids : List String) (w : World) :
    ReflTransGen p.Goes (w, Pc.retryNext ids)
      (ids.foldl (RedisQueue.promoteRetry p) w, .schedulerTick) := by
  induction ids generalizing w with
  | nil => exact .refl
  | cons id ids ih =>
    have hbody : ReflTransGen p.Goes (w, .retriesFind id ids)
        (RedisQueue.promoteRetry p w id, Pc.retryNext ids) :=
      (goes_fetchAndEnqueue p w id ids).tail (goes_remove p _ id ids)
    exact hbody.trans (ih _)

theorem goes_promoteRetries (p : Pattern) (w : World) :
    TransGen p.Goes (w, .retriesRange) ((RedisQueue.promoteRetries p w).1, .schedulerTick) := by
  unfold RedisQueue.promoteRetries Choice.attempt
  cases hf : p.range.fails with
  | true =>
    exact .single (Pattern.goes_of_code .retriesRange rfl (r := .err .unavailable) (if_pos hf))
  | false =>
    rw [if_neg (by simp)]
    cases hids : RedisQueue.dueRetries w.redis p.range.env.reading with
    | error e =>
      refine .single (Pattern.goes_of_code .retriesRange rfl (r := .err e) ?_)
      simp [Pattern.at, hf, exec, hids]
    | ok ids =>
      have hrange : p.Goes (w, .retriesRange) (w, Pc.retryNext ids) := by
        refine Pattern.goes_of_code .retriesRange rfl (r := .members ids) ?_
        simp [Pattern.at, hf, exec, hids]
      exact TransGen.trans_left (.single hrange) (goes_promoteRetry p ids w)

/-- What the `Enqueue` of a promoted row comes to. -/
def JobService.enqueued (p : Pattern) (w : World) (job : Job) : Except Err Redis :=
  (p.enqueue job.id).attempt (RedisQueue.enqueue w.redis (p.enqueue job.id).env.reading job)

theorem promoteRows_error {p : Pattern} {w : World} {job : Job} {e : Err}
    (h : JobService.enqueued p w job = .error e) (jobs : List Job) :
    JobService.promoteRows p w (job :: jobs) = (w, .error e) := by
  unfold JobService.enqueued at h
  simp only [JobService.promoteRows, h]

theorem promoteRows_ok {p : Pattern} {w : World} {job : Job} {r : Redis}
    (h : JobService.enqueued p w job = .ok r) (jobs : List Job) :
    JobService.promoteRows p w (job :: jobs) =
      JobService.promoteRows p
        (JobService.publish (p.publish job.id) { w with redis := r } "job.queued" job) jobs := by
  unfold JobService.enqueued at h
  simp only [JobService.promoteRows, h]

theorem goes_publish (p : Pattern) (w : World) (job : Job) (jobs : List Job) :
    p.Goes (w, .promotePublish job jobs)
      (JobService.publish (p.publish job.id) w "job.queued" job, Pc.promoteNext jobs) := by
  unfold JobService.publish
  cases hf : (p.publish job.id).fails with
  | true =>
    exact Pattern.goes_of_code (.promotePublish job jobs) rfl (r := .err .unavailable)
      (if_pos hf)
  | false =>
    exact Pattern.goes_of_code (.promotePublish job jobs) rfl (r := .done)
      (if_neg (ne_true_of_eq_false hf))

theorem goes_promoteRows (p : Pattern) (jobs : List Job) (w : World) :
    TransGen p.Goes (w, Pc.promoteNext jobs)
      ((JobService.promoteRows p w jobs).1, .schedulerTick) := by
  induction jobs generalizing w with
  | nil => exact goes_promoteRetries p w
  | cons job jobs ih =>
    have hstep := Pattern.goes_of_code (.promoteEnqueue job jobs) rfl
      (onRedis_attempt w (p.enqueue job.id)
        (RedisQueue.enqueue w.redis (p.enqueue job.id).env.reading job))
    cases hq : JobService.enqueued p w job with
    | error e =>
      rw [promoteRows_error hq]
      unfold JobService.enqueued at hq
      rw [hq] at hstep
      exact .single hstep
    | ok r =>
      rw [promoteRows_ok hq]
      unfold JobService.enqueued at hq
      rw [hq] at hstep
      exact (TransGen.single hstep).trans ((TransGen.single (goes_publish p _ job jobs)).trans (ih _))

/-- The function is a pass of the scheduler of the system. -/
theorem goes_promoteScheduled {p : Pattern} {w w' : World} {result : Except Err Unit}
    (h : JobService.promoteScheduled p w = some (w', result)) :
    TransGen p.Goes (w, .schedulerTick) (w', .schedulerTick) := by
  unfold JobService.promoteScheduled at h
  cases hf : p.ready.fails with
  | true =>
    rw [hf, if_pos rfl] at h
    cases h
    exact .single (Pattern.goes_of_code .schedulerTick rfl (r := .err .unavailable) (if_pos hf))
  | false =>
    rw [hf, if_neg (by simp)] at h
    obtain ⟨⟨t, rows⟩, hready, heq⟩ := Option.map_eq_some_iff.mp h
    have hstep : p.Goes (w, .schedulerTick) ({ w with jobs := t }, Pc.promoteNext rows) := by
      refine Pattern.goes_of_code .schedulerTick rfl (r := .jobs rows) ?_
      simp [Pattern.at, hf, exec, hready, onJobs]
    have hrows := goes_promoteRows p rows { w with jobs := t }
    rw [show JobService.promoteRows p { w with jobs := t } rows = (w', result) from heq] at hrows
    exact (TransGen.single hstep).trans hrows

end JobFlow.Model
