import JobFlow.Lib.Binary64
import JobFlow.Lib.Calendar
import JobFlow.Model.JobRepository
import JobFlow.Model.RedisQueue

/-!
# The scores of a queue in binary floating point

`Enqueue` computes a score in `float64`, and nothing before it bounds the priority more
than its column does. Where all terms are integers of 53 bits the computed score is the
exact one of `RedisQueue.score`, so jobs of one priority keep the order of their times.
-/

namespace JobFlow.Queue.ExactScores

open JobFlow.Model
open JobFlow.Model.JobRepository (int4)
open JobFlow.Model.RedisQueue
open JobFlow.Lib.Binary64

/-- `float64(-job.Priority)*1_000_000_000 + float64(time.Now().UnixMilli())`. Go may fuse the
product with the sum, which then rounds once. -/
def floatScore (fused : Bool) (priority : Int) (reading : Time) : ℚ :=
  let product := nearestSigned (-priority : Int) * 1000000000
  let term := if fused then product else nearestSigned product
  nearestSigned (term + nearestSigned (unixMilli reading))

/-- A priority that the column holds. -/
abbrev Priority := { priority : Int // int4 priority }

/-- What the clock may read from 1970 to 2100, in microseconds. -/
abbrev Reading := { micros : Int // 0 ≤ micros ∧ micros < 4133980800000000 }

example : Lib.Calendar.civil (4133980800000000 / 86400000000) = ⟨2101, 1, 1⟩ := by decide

variable {fused : Bool}

/-- Both terms and their sum are integers of 53 bits, the computed score is exact, and
every earlier job of the priority has a smaller one. -/
structure Exact (fused : Bool) (priority : Priority) (reading : Reading) : Prop where
  weight : (-priority.1 * 1000000000).natAbs ≤ 2 ^ 53
  millis : (unixMilli reading.1).natAbs ≤ 2 ^ 53
  sum : (score priority.1 reading.1).natAbs ≤ 2 ^ 53
  represented : floatScore fused priority.1 reading.1 = score priority.1 reading.1
  ordered : ∀ earlier : Reading, unixMilli earlier.1 < unixMilli reading.1 →
    floatScore fused priority.1 earlier.1 < floatScore fused priority.1 reading.1

theorem floatScore_eq {priority : Int} {reading : Time}
    (hweight : (-priority * 1000000000).natAbs ≤ 2 ^ 53)
    (hmillis : (unixMilli reading).natAbs ≤ 2 ^ 53)
    (hsum : (score priority reading).natAbs ≤ 2 ^ 53) :
    floatScore fused priority reading = score priority reading := by
  have hpriority : nearestSigned (-priority : Int) = (-priority : Int) := nearestSigned_intCast (by omega)
  have hproduct : ((-priority : Int) : ℚ) * 1000000000 = (-priority * 1000000000 : Int) := by
    push_cast
    rfl
  have hterms : ((-priority * 1000000000 : Int) : ℚ) + (unixMilli reading : Int) =
      (score priority reading : Int) := by
    rw [score]
    push_cast
    rfl
  rw [floatScore, hpriority, hproduct, nearestSigned_intCast hweight,
    nearestSigned_intCast hmillis, ite_self, hterms, nearestSigned_intCast hsum]

theorem unixMilli_reading (reading : Reading) :
    0 ≤ unixMilli reading.1 ∧ unixMilli reading.1 < 4133980800000 := by
  obtain ⟨hlo, hhi⟩ := reading.2
  unfold unixMilli
  omega

/-- A priority and a time whose score is an integer of 53 bits. -/
theorem bounds_of {priority : Int} {reading : Reading} (hp : priority ≤ 9007199)
    (ht : unixMilli reading.1 ≤ 2 ^ 53 + 1000000000 * priority) :
    (-priority * 1000000000).natAbs ≤ 2 ^ 53 ∧ (unixMilli reading.1).natAbs ≤ 2 ^ 53 ∧
      (score priority reading.1).natAbs ≤ 2 ^ 53 := by
  have hmillis := unixMilli_reading reading
  rw [score]
  omega

variable (fused) in
/-- The scores that are exact. -/
theorem score_exact_iff (priority : Priority) (reading : Reading) :
    Exact fused priority reading ↔
      priority.1 ≤ 9007199 ∧ unixMilli reading.1 ≤ 2 ^ 53 + 1000000000 * priority.1 := by
  constructor
  · intro h
    have hweight := h.weight
    have hsum := h.sum
    rw [score] at hsum
    omega
  · rintro ⟨hp, ht⟩
    obtain ⟨hweight, hmillis, hsum⟩ := bounds_of hp ht
    refine ⟨hweight, hmillis, hsum, floatScore_eq hweight hmillis hsum, fun earlier hlt => ?_⟩
    obtain ⟨-, hmillis', hsum'⟩ := bounds_of hp (hlt.le.trans ht)
    rw [floatScore_eq hweight hmillis hsum, floatScore_eq hweight hmillis' hsum', Int.cast_lt, score,
      score]
    omega

/-- At the greatest priority two jobs that follow each other by a millisecond have one score. -/
theorem scores_collide : ¬ ∀ fused priority reading, Exact fused priority reading := by
  intro hall
  have hsame : floatScore false 2147483647 1709214840000000 =
      floatScore false 2147483647 1709214840001000 := by decide +kernel
  have hlt := (hall false ⟨2147483647, by decide⟩ ⟨1709214840001000, by decide⟩).ordered
    ⟨1709214840000000, by decide⟩ (by decide)
  exact hlt.ne hsame

end JobFlow.Queue.ExactScores
