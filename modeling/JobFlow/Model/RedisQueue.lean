import JobFlow.Model.Redis

/-!
# `RedisQueue`

The queue operations as the Redis commands they issue. A reading is what
`time.Now()` returned to the caller, in microseconds; `UnixMilli` and `Unix`
round it down.
-/

namespace JobFlow.Model.RedisQueue

open JobFlow.Model.Redis

def queueKey (name : String) : String := "queue:" ++ name

def retriesKey : String := "scheduled:retries"

def deadLetterKey : String := "queue:dead-letter"

def unixMilli (t : Time) : Int := t / 1000

def unix (t : Time) : Int := t / 1000000

/-- `float64(-job.Priority)*1_000_000_000 + float64(time.Now().UnixMilli())`. -/
def score (priority : Int) (reading : Time) : Int := -priority * 1000000000 + unixMilli reading

def enqueue (r : Redis) (reading : Time) (job : Job) : Except Err Redis :=
  r.zadd (queueKey job.queueName) (score job.priority reading) job.id

/-- The delay is a `time.Duration`, in nanoseconds. -/
def enqueueAfter (r : Redis) (reading : Time) (job : Job) (delay : Int) : Except Err Redis :=
  r.zadd retriesKey ((reading * 1000 + delay) / 1000000000) job.id

/-- The `ZRANGEBYSCORE` of `PromoteRetries`. -/
def dueRetries (r : Redis) (reading : Time) : Except Err (List String) :=
  r.zrangebyscore retriesKey (unix reading)

/-- The `ZREM` of `PromoteRetries`. -/
def removeRetry (r : Redis) (id : String) : Except Err Redis :=
  r.zrem retriesKey id

/-- The `ZPOPMIN` of `Dequeue` on one queue. -/
def pop (r : Redis) (name : String) : Except Err (Redis × Option String) :=
  r.zpopmin (queueKey name)

def deadLetter (r : Redis) (job : Job) : Except Err Redis :=
  r.lpush deadLetterKey job.id

/-- `model.QueueStats`; the code leaves `Processing` at zero. -/
structure QueueStats where
  name : String
  waiting : Nat
  dlq : Nat

/-- The error of `LLEN` is dropped and leaves the count at zero. -/
def stats (r : Redis) (queues : List String) : Except Err (List QueueStats) :=
  let dlq := (r.llen deadLetterKey).toOption.getD 0
  queues.mapM fun name => do
    let waiting ← r.zcard (queueKey name)
    return ⟨name, waiting, dlq⟩

theorem queueKey_injective : Function.Injective queueKey := fun _ _ h =>
  (String.append_right_inj "queue:").mp h

@[simp] theorem queueKey_inj {a b : String} : queueKey a = queueKey b ↔ a = b :=
  queueKey_injective.eq_iff

/-- No queue name reaches the retry set. -/
@[simp] theorem queueKey_ne_retriesKey (name : String) : queueKey name ≠ retriesKey := by
  intro h
  have hl := congrArg String.toList h
  simp [queueKey, retriesKey] at hl

@[simp] theorem deadLetterKey_ne_retriesKey : deadLetterKey ≠ retriesKey := by decide

/-- Exactly one queue name denotes the dead-letter list. -/
theorem queueKey_eq_deadLetterKey_iff (name : String) :
    queueKey name = deadLetterKey ↔ name = "dead-letter" :=
  queueKey_inj (b := "dead-letter")

end JobFlow.Model.RedisQueue
