import JobFlow.Lib.Decimal
import JobFlow.Model.WorkerRepository

/-!
# `NewPool`

The id of a pool is the configured one, or else made of the host's name and the time of the
start.
-/

namespace JobFlow.Model

open JobFlow.Lib.Decimal

/-- What `Format` reads of a `time.Time`. -/
structure DateTime where
  year : Int
  month : Nat
  day : Nat
  hour : Nat
  minute : Nat
  second : Nat
  month_le : month ≤ 12
  day_le : day ≤ 31
  hour_lt : hour < 24
  minute_lt : minute < 60
  second_lt : second < 60

/-- `appendInt` of package time. -/
def appendInt (x : Int) (width : Nat) : List Char :=
  if x < 0 then '-' :: padded width x.natAbs else padded width x.natAbs

/-- `Format("20060102150405")` -/
def DateTime.format (t : DateTime) : List Char :=
  appendInt t.year 4 ++ (appendInt t.month 2 ++ (appendInt t.day 2 ++ (appendInt t.hour 2 ++
    (appendInt t.minute 2 ++ appendInt t.second 2))))

def newPool (id : String) (queues : List String) (hostname : String) (now : DateTime) : Pool where
  id := if id = "" then hostname ++ "-" ++ String.ofList now.format else id
  hostname := hostname
  queues := queues

theorem appendInt_natCast (n width : Nat) : appendInt n width = padded width n := by
  rw [appendInt, if_neg (by omega), Int.natAbs_natCast]

/-- What follows the year: ten digits. -/
theorem DateTime.format_eq (t : DateTime) :
    ∃ ds, t.format = appendInt t.year 4 ++ ds ∧ ds.length = 10 ∧ ∀ c ∈ ds, c.isDigit := by
  refine ⟨_, rfl, ?_, ?_⟩
  · have hmonth := t.month_le
    have hday := t.day_le
    have hhour := t.hour_lt
    have hminute := t.minute_lt
    have hsecond := t.second_lt
    simp only [List.length_append, appendInt_natCast]
    rw [length_padded_of_lt (by omega) (by omega), length_padded_of_lt (by omega) (by omega),
      length_padded_of_lt (by omega) (by omega), length_padded_of_lt (by omega) (by omega),
      length_padded_of_lt (by omega) (by omega)]
  · intro c hc
    simp only [List.mem_append, appendInt_natCast] at hc
    rcases hc with hc | hc | hc | hc | hc <;> exact isDigit_of_mem_padded hc

end JobFlow.Model
