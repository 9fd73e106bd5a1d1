import JobFlow.Runs.Backoff
import Mathlib.Algebra.Order.Ring.Int
import Mathlib.Tactic.Positivity

/-!
# The delay of a retry

`handle` doubles the delay with every attempt and counts it in nanoseconds of 64 bits.
Nothing bounds `max_attempts`, so the attempts of a job that is still retrying may be
any number below it. The delay is what it should be up to 34 attempts, and for no number
of attempts after that.
-/

namespace JobFlow.Worker.Delay

open JobFlow.Model
open JobFlow.Model.JobRepository
open JobFlow.Model.RedisQueue
open JobFlow.Runs.Backoff

/-- What `handle` passes to `EnqueueAfter` once it has counted the failure of a job. -/
def delay (w : Pool) (failedJob : Job) : Option Int :=
  (Pc.countFailed w failedJob).code.bind fun (_, next) =>
    match (next .done).code with
    | some (.enqueueAfter _ d, _) => some d
    | _ => none

/-- The delay is `2^(attempts-1)` seconds. Hence it is positive, it is longer than after
any earlier attempt, and the score lies as many seconds after the time of the call. -/
structure Doubles (w : Pool) (failedJob : Job) : Prop where
  exact : delay w failedJob = some (2 ^ (failedJob.attempts - 1) * 1000000000)
  positive : ∀ d ∈ delay w failedJob, 0 < d
  increasing : ∀ n, 1 ≤ n → n < failedJob.attempts →
    ∀ d ∈ delay w { failedJob with attempts := n }, ∀ d' ∈ delay w failedJob, d < d'
  notPast : ∀ reading : Time, ∀ d ∈ delay w failedJob,
    (reading * 1000 + d) / 1000000000 = unix reading + 2 ^ (failedJob.attempts - 1)

theorem delay_retrying {w : Pool} {failedJob : Job} (hst : failedJob.status = .retrying) :
    delay w failedJob = some (retryDelay failedJob.attempts) := by
  simp only [delay, Pc.code, Option.bind_some, hst, if_true]

/-- No delay is as long as the least one that does not fit. -/
theorem retryDelay_lt (n : Nat) : retryDelay n < 2 ^ 34 * 1000000000 := by
  unfold retryDelay
  split
  · decide
  · have hlt := Int.bmod_lt (x := powToInt64 (n - 1) * 1000000000) (m := 2 ^ 64) (by decide)
    have hsize : (((2 ^ 64 : Nat) : Int) + 1) / 2 < 2 ^ 34 * 1000000000 := by decide
    exact hlt.trans hsize

theorem retryDelay_eq_iff {n : Nat} (hpos : 1 ≤ n) :
    retryDelay n = 2 ^ (n - 1) * 1000000000 ↔ n ≤ 34 := by
  refine ⟨fun h => ?_, retryDelay_eq hpos⟩
  by_contra hgt
  have hpow : (2 : Int) ^ 34 ≤ 2 ^ (n - 1) := pow_le_pow_right₀ (by decide) (by omega)
  have hlt := retryDelay_lt n
  omega

theorem retryDelay_lt_of_lt {m n : Nat} (hpos : 1 ≤ m) (hlt : m < n) (hle : n ≤ 34) :
    retryDelay m < retryDelay n := by
  rw [retryDelay_eq hpos (hlt.le.trans hle), retryDelay_eq (hpos.trans hlt.le) hle]
  have hpow : (2 : Int) ^ (m - 1) < 2 ^ (n - 1) := pow_lt_pow_right₀ (by decide) (by omega)
  omega

/-- Whole seconds of nanoseconds stay apart from the rest. -/
theorem second_add (reading k : Int) :
    (reading * 1000 + k * 1000000000) / 1000000000 = reading / 1000000 + k := by
  omega

/-- For a job that is left retrying, whatever its `max_attempts`, the delay is right exactly
up to the 34th attempt. -/
theorem delay_doubles_iff (w : Pool) {failedJob : Job} (hst : failedJob.status = .retrying)
    (hpos : 1 ≤ failedJob.attempts) : Doubles w failedJob ↔ failedJob.attempts ≤ 34 := by
  have hdelay := delay_retrying (w := w) hst
  constructor
  · intro h
    exact (retryDelay_eq_iff hpos).mp (Option.some.inj (hdelay.symm.trans h.exact))
  · intro hle
    have heq := retryDelay_eq hpos hle
    refine ⟨by rw [hdelay, heq], ?_, ?_, ?_⟩
    · intro d hd
      obtain rfl := Option.some.inj (hdelay.symm.trans hd)
      rw [heq]
      positivity
    · intro n hn hlt' d hd d' hd'
      have hst' : ({ failedJob with attempts := n } : Job).status = .retrying := hst
      have hdelay' := delay_retrying (w := w) hst'
      obtain rfl := Option.some.inj (hdelay'.symm.trans hd)
      obtain rfl := Option.some.inj (hdelay.symm.trans hd')
      exact retryDelay_lt_of_lt hn hlt' hle
    · intro reading d hd
      obtain rfl := Option.some.inj (hdelay.symm.trans hd)
      rw [heq]
      exact second_add reading _

/-- A job left retrying after some attempts. -/
def retrying (attempts : Nat) : Job where
  id := "j1"
  userID := some "u1"
  queueName := "default"
  jobType := "send_email"
  payload := .object []
  status := .retrying
  priority := 0
  attempts := attempts
  maxAttempts := 100
  errorMessage := some "payload requested failure"
  scheduledAt := none
  startedAt := some 0
  completedAt := none
  createdAt := 0
  updatedAt := 0

theorem delay_doubles_iff_first : Doubles ⟨"w1", "host", []⟩ (retrying 1) ↔ 1 ≤ 34 :=
  delay_doubles_iff _ rfl (by decide)

/-- The 35th retry is scheduled more than a thousand million seconds into the past. -/
theorem overflows : ¬ ∀ (w : Pool) (failedJob : Job), failedJob.status = .retrying →
    int4 failedJob.maxAttempts → 1 ≤ failedJob.attempts →
    (failedJob.attempts : Int) < failedJob.maxAttempts → Doubles w failedJob := by
  intro hall
  have h := hall ⟨"w1", "host", []⟩ (retrying 35) rfl (by decide) (by decide) (by decide)
  exact absurd (h.positive (-1266874889709551616) (by decide)) (by decide)

end JobFlow.Worker.Delay
