import JobFlow.Lib.Calendar
import JobFlow.Lib.Decimal

/-!
# Dates and times as texts

The texts of ISO 8601 for a minute of a clock and for an instant of UTC, and the numbers
they are read as: minutes and milliseconds since 1970-01-01T00:00. Years of more than four
digits are written with a sign and six digits.
-/

namespace JobFlow.Lib.Timestamp

open Calendar (civil days Date days_civil civil_bounds)
open Decimal (padded)

/-- A number of a given width at the beginning of a text. -/
def field? (width : Nat) (text : List Char) : Option (Nat × List Char) :=
  let ds := text.take width
  if ds.length = width ∧ ds.all Char.isDigit then
    some (Nat.ofDigitChars 10 ds 0, text.drop width)
  else none

def expect (c : Char) : List Char → Option (List Char)
  | [] => none
  | d :: rest => if d = c then some rest else none

def yearText (year : Int) : List Char :=
  if 0 ≤ year ∧ year ≤ 9999 then padded 4 year.toNat
  else (if 0 ≤ year then '+' else '-') :: padded 6 year.natAbs

def year? : List Char → Option (Int × List Char)
  | '+' :: rest => (field? 6 rest).map fun x => ((x.1 : Int), x.2)
  | '-' :: rest => (field? 6 rest).map fun x => (-(x.1 : Int), x.2)
  | text => (field? 4 text).map fun x => ((x.1 : Int), x.2)

def dateText (d : Date) : List Char :=
  yearText d.year ++ '-' :: (padded 2 d.month.toNat ++ '-' :: padded 2 d.day.toNat)

/-- A date that there is. -/
def date? (text : List Char) : Option (Int × List Char) := do
  let (year, text) ← year? text
  let (month, text) ← field? 2 (← expect '-' text)
  let (day, text) ← field? 2 (← expect '-' text)
  if civil (days ⟨year, month, day⟩) = ⟨year, month, day⟩ then
    some (days ⟨year, month, day⟩, text)
  else none

/-- Hours and minutes. -/
def clockText (n : Nat) : List Char := padded 2 (n / 60) ++ ':' :: padded 2 (n % 60)

def clock? (text : List Char) : Option (Nat × List Char) := do
  let (hour, text) ← field? 2 text
  let (minute, text) ← field? 2 (← expect ':' text)
  if hour < 24 ∧ minute < 60 then some (60 * hour + minute, text) else none

/-- A minute of a clock. -/
def minuteText (n : Int) : List Char :=
  dateText (civil (n / 1440)) ++ 'T' :: clockText (n % 1440).toNat

def minute? (text : List Char) : Option (Int × List Char) := do
  let (day, text) ← date? text
  let (minute, text) ← clock? (← expect 'T' text)
  some (1440 * day + minute, text)

/-- An instant with its milliseconds. -/
def instantText (ms : Int) : List Char :=
  minuteText (ms / 60000) ++ ':' :: (padded 2 (ms % 60000 / 1000).toNat ++
    '.' :: (padded 3 (ms % 1000).toNat ++ ['Z']))

def instant? (text : List Char) : Option Int := do
  let (minute, text) ← minute? text
  let (second, text) ← field? 2 (← expect ':' text)
  let (milli, text) ← field? 3 (← expect '.' text)
  if second < 60 ∧ text = ['Z'] then some (60000 * minute + 1000 * second + milli) else none

example : instantText 1709214845006 = "2024-02-29T13:54:05.006Z".toList ∧
    minute? "2024-02-30T13:54".toList = none := by decide +kernel

theorem field?_padded {width n : Nat} (hw : 0 < width) (h : n < 10 ^ width) (rest : List Char) :
    field? width (padded width n ++ rest) = some (n, rest) := by
  have hlen := Decimal.length_padded_of_lt hw h
  have hall : (padded width n).all Char.isDigit :=
    List.all_eq_true.mpr fun c hc => Decimal.isDigit_of_mem_padded hc
  simp only [field?, List.take_left' hlen, List.drop_left' hlen]
  rw [if_pos ⟨hlen, hall⟩, Decimal.ofDigitChars_padded]

theorem expect_cons (c : Char) (rest : List Char) : expect c (c :: rest) = some rest := if_pos rfl

theorem year?_unsigned {text : List Char} (h : ∀ c ∈ text.head?, c.isDigit) :
    year? text = (field? 4 text).map fun x => ((x.1 : Int), x.2) := by
  unfold year?
  split
  · exact absurd (h '+' rfl) (by decide)
  · exact absurd (h '-' rfl) (by decide)
  · rfl

theorem year?_yearText {year : Int} (h : year.natAbs < 10 ^ 6) (rest : List Char) :
    year? (yearText year ++ rest) = some (year, rest) := by
  unfold yearText
  split
  next hsmall =>
    have hhead : ∀ c ∈ (padded 4 year.toNat ++ rest).head?, c.isDigit := by
      have hlen := Decimal.length_padded_of_lt (show 0 < 4 by decide) (show year.toNat < 10 ^ 4 by omega)
      obtain ⟨c, cs, hcs⟩ := List.exists_cons_of_length_pos (l := padded 4 year.toNat) (by omega)
      have hc : c.isDigit := Decimal.isDigit_of_mem_padded (hcs ▸ List.mem_cons_self)
      rw [hcs]
      intro d hd
      rw [List.cons_append, List.head?_cons, Option.mem_some_iff] at hd
      exact hd ▸ hc
    rw [year?_unsigned hhead, field?_padded (by decide) (by omega), Option.map_some,
      Int.toNat_of_nonneg hsmall.1]
  next hlarge =>
    have hfield := field?_padded (show 0 < 6 by decide) h rest
    split
    next hpos =>
      have hread : year? ('+' :: (padded 6 year.natAbs ++ rest)) =
          (field? 6 (padded 6 year.natAbs ++ rest)).map fun x => ((x.1 : Int), x.2) := rfl
      rw [List.cons_append, hread, hfield, Option.map_some, Int.natAbs_of_nonneg hpos]
    next hneg =>
      have hread : year? ('-' :: (padded 6 year.natAbs ++ rest)) =
          (field? 6 (padded 6 year.natAbs ++ rest)).map fun x => (-(x.1 : Int), x.2) := rfl
      rw [List.cons_append, hread, hfield, Option.map_some, Int.ofNat_natAbs_of_nonpos (by omega),
        Int.neg_neg]

/-- A day is read back from its date, whatever text follows. -/
theorem date?_dateText {n : Int} (h : (civil n).year.natAbs < 10 ^ 6) (rest : List Char) :
    date? (dateText (civil n) ++ rest) = some (n, rest) := by
  obtain ⟨hmonth1, hmonth12, hday1, hday31⟩ := civil_bounds n
  have hdate : (⟨(civil n).year, ((civil n).month.toNat : Int), ((civil n).day.toNat : Int)⟩ : Date)
      = civil n := by
    rw [Int.toNat_of_nonneg (by omega), Int.toNat_of_nonneg (by omega)]
  rw [date?, dateText, List.append_assoc, year?_yearText h]
  simp only [Option.bind_eq_bind, Option.bind_some, List.cons_append, List.append_assoc, expect_cons]
  rw [field?_padded (by decide) (by omega)]
  simp only [Option.bind_some, expect_cons]
  rw [field?_padded (by decide) (by omega)]
  simp only [Option.bind_some, hdate, days_civil, if_true]

theorem clock?_clockText {n : Nat} (h : n < 1440) (rest : List Char) :
    clock? (clockText n ++ rest) = some (n, rest) := by
  have hsum : 60 * (n / 60) + n % 60 = n := Nat.div_add_mod n 60
  rw [clock?, clockText, List.append_assoc, field?_padded (by decide) (by omega)]
  simp only [Option.bind_eq_bind, Option.bind_some, List.cons_append, expect_cons]
  rw [field?_padded (by decide) (by omega)]
  simp only [Option.bind_some, hsum]
  exact if_pos (by omega)

/-- A minute is read back. -/
theorem minute?_minuteText {n : Int} (h : (civil (n / 1440)).year.natAbs < 10 ^ 6)
    (rest : List Char) : minute? (minuteText n ++ rest) = some (n, rest) := by
  have hsum : 1440 * (n / 1440) + ((n % 1440).toNat : Int) = n := by omega
  rw [minute?, minuteText, List.append_assoc, date?_dateText h]
  simp only [Option.bind_eq_bind, Option.bind_some, List.cons_append, expect_cons]
  rw [clock?_clockText (by omega)]
  simp only [Option.bind_some, hsum]

/-- An instant is read back. -/
theorem instant?_instantText {ms : Int} (h : (civil (ms / 60000 / 1440)).year.natAbs < 10 ^ 6) :
    instant? (instantText ms) = some ms := by
  rw [instant?, instantText, minute?_minuteText h]
  simp only [Option.bind_eq_bind, Option.bind_some, expect_cons]
  rw [field?_padded (by decide) (by omega)]
  simp only [Option.bind_some, expect_cons]
  rw [field?_padded (by decide) (by omega)]
  have hsum : 60000 * (ms / 60000) + 1000 * ((ms % 60000 / 1000).toNat : Int) +
      ((ms % 1000).toNat : Int) = ms := by omega
  have hsecond : (ms % 60000 / 1000).toNat < 60 := by omega
  simp only [Option.bind_some, hsum, hsecond, true_and, if_true]

/-- In a year of four digits a minute has sixteen characters. -/
theorem length_minuteText {n : Int} (h0 : 0 ≤ (civil (n / 1440)).year)
    (h : (civil (n / 1440)).year ≤ 9999) : (minuteText n).length = 16 := by
  obtain ⟨hmonth1, hmonth12, hday1, hday31⟩ := civil_bounds (n / 1440)
  have hwidth {k : Nat} (hk : k < 10 ^ 2) := Decimal.length_padded_of_lt (by decide) hk
  have hyear := Decimal.length_padded_of_lt (show 0 < 4 by decide)
    (show (civil (n / 1440)).year.toNat < 10 ^ 4 by omega)
  simp only [minuteText, dateText, yearText, clockText, if_pos (And.intro h0 h), List.length_append,
    List.length_cons, hyear]
  rw [hwidth (by omega), hwidth (by omega), hwidth (by omega), hwidth (by omega)]

end JobFlow.Lib.Timestamp
