import JobFlow.Lib.Timestamp
import JobFlow.Model.JobHandler
import JobFlow.Model.Processor

/-!
# `JobHandler.Create`

The body of a request is decoded into a `createJobRequest`, which is checked and passed to
the service. Of an error of `ShouldBindJSON` it is kept that there is one. The text of a
time is one without escapes. The user is a row of `users`. Of what PostgreSQL refuses in a
payload, only the zero character is modelled, not its limits of depth and size.
-/

namespace JobFlow.Model.CreateJob

open JobFlow.Lib
open JobFlow.Lib.Timestamp (field? expect date?)
open JobFlow.Model.JobRepository (hasZero)
open JobFlow.Model.Processor (decodeString)

/-- The time is in nanoseconds. -/
structure CreateJobRequest where
  queue : String := ""
  type : String := ""
  payload : Option Json := none
  priority : Int := 0
  maxAttempts : Int := 0
  scheduledAt : Option Int := none

/-! ### Integers and times -/

/-- `strconv.ParseInt(text, 10, 64)`. -/
def parseInt (text : String) : Option Int :=
  (Numeral.signed? text.toList).filter fun n => -2 ^ 63 ≤ n ∧ n < 2 ^ 63

/-- A JSON value for a field of type `int`; `null` leaves it. -/
def decodeInt (current : Int) : Json → Option Int
  | .number text => parseInt text
  | .null => some current
  | _ => none

/-- The nanoseconds of a fraction of a second, if there is one. -/
def fraction : List Char → Nat × List Char
  | c :: rest =>
    let ds := rest.takeWhile Char.isDigit
    if (c = '.' ∨ c = ',') ∧ ds ≠ [] then
      (Nat.ofDigitChars 10 (ds.take 9) 0 * 10 ^ (9 - ds.length), rest.dropWhile Char.isDigit)
    else (0, c :: rest)
  | [] => (0, [])

/-- The seconds that the clock is ahead of UTC, at the end of the text. -/
def zone? : List Char → Option Int
  | ['Z'] => some 0
  | sign :: rest => do
    let (hour, rest) ← field? 2 rest
    let (minute, rest) ← field? 2 (← expect ':' rest)
    guard (rest = [] ∧ (sign = '+' ∨ sign = '-') ∧ hour ≤ 24 ∧ minute ≤ 60)
    some (if sign = '-' then -(3600 * hour + 60 * minute) else 3600 * hour + 60 * minute)
  | [] => none

/-- `time.Parse(time.RFC3339, text)`, in nanoseconds. The hour may have one digit. -/
def time? (text : List Char) : Option Int := do
  guard (text.head?.any Char.isDigit)
  let (day, text) ← date? text
  let text ← expect 'T' text
  let (hour, text) ← (field? 2 text).or (field? 1 text)
  let (minute, text) ← field? 2 (← expect ':' text)
  let (second, text) ← field? 2 (← expect ':' text)
  guard (hour < 24 ∧ minute < 60 ∧ second < 60)
  let (nanos, text) := fraction text
  let offset ← zone? text
  some (1000000000 * (86400 * day + 3600 * hour + 60 * minute + second - offset) + nanos)

example : time? "2024-02-29T13:54:05.25+05:30".toList = some 1709195045250000000 ∧
    time? "+010000-01-01T00:00:00Z".toList = none := by decide +kernel

/-- A JSON value for a field of type `*time.Time`. -/
def decodeTime : Json → Option (Option Int)
  | .null => some none
  | .string s => (time? s.toList).map some
  | _ => none

/-! ### `ShouldBindJSON` -/

/-- The one form of the letters that differ in case only. -/
def fold (c : Char) : Char :=
  if c = Char.ofNat 0x17F then 's' else if c = Char.ofNat 0x212A then 'k' else c.toLower

def foldName (key : String) : String := String.ofList (key.toList.map fold)

/-- One member of the body. -/
def CreateJobRequest.set (req : CreateJobRequest) (field : String × Json) :
    Option CreateJobRequest :=
  let name := foldName field.1
  if name = "queue" then (decodeString req.queue field.2).map fun s => { req with queue := s }
  else if name = "type" then (decodeString req.type field.2).map fun s => { req with type := s }
  else if name = "payload" then some { req with payload := some field.2 }
  else if name = "priority" then
    (decodeInt req.priority field.2).map fun n => { req with priority := n }
  else if name = "max_attempts" then
    (decodeInt req.maxAttempts field.2).map fun n => { req with maxAttempts := n }
  else if name = "scheduled_at" then
    (decodeTime field.2).map fun time => { req with scheduledAt := time }
  else some req

section

variable (req : CreateJobRequest) (v : Json)

end

def decode : Json → Option CreateJobRequest
  | .object fields => fields.foldlM CreateJobRequest.set {}
  | .null => some {}
  | _ => none

mutual

/-- How deep arrays and objects are nested. -/
def nesting : Json → Nat
  | .array items => nestingItems items + 1
  | .object fields => nestingFields fields + 1
  | .null | .bool _ | .number _ | .string _ => 0

def nestingItems : List Json → Nat
  | [] => 0
  | item :: items => max (nesting item) (nestingItems items)

def nestingFields : List (String × Json) → Nat
  | [] => 0
  | (_, value) :: fields => max (nesting value) (nestingFields fields)

end

/-- The decoder stops after the first value, and at more than 10000 levels. -/
def shouldBindJSON (text : String) : Option CreateJobRequest := do
  let (doc, _) ← JsonText.value text.toList.length text.toList
  guard (nesting doc ≤ 10000)
  let req ← decode doc
  guard (req.type ≠ "")
  some req

/-! ### The handler -/

def CreateJobRequest.input (req : CreateJobRequest) (userID : String) : CreateJobInput :=
  ⟨userID, req.queue, req.type, req.payload, req.priority, req.maxAttempts, req.scheduledAt⟩

mutual

/-- The zero character, which neither a text nor `JSONB` can hold, is in some string. -/
def zeroIn : Json → Bool
  | .string s => hasZero s
  | .array items => zeroInItems items
  | .object fields => zeroInFields fields
  | .null | .bool _ | .number _ => false

def zeroInItems : List Json → Bool
  | [] => false
  | item :: items => zeroIn item || zeroInItems items

def zeroInFields : List (String × Json) → Bool
  | [] => false
  | (key, value) :: fields => hasZero key || zeroIn value || zeroInFields fields

end

/-- What PostgreSQL refuses before the statement runs. -/
def CreateJobRequest.hasZero (req : CreateJobRequest) : Bool :=
  JobRepository.hasZero req.queue || JobRepository.hasZero req.type || req.payload.any zeroIn

/-- `Create`, from the body of the request. -/
def create (w : World) (userID text : String) (t : Turn) : Option (World × Response) :=
  match shouldBindJSON text with
  | none => some (w, ⟨400, .error t.failure⟩)
  | some req =>
    if req.hasZero then t.commands.head?.map fun _ => (w, ⟨400, .error t.failure⟩)
    else
      (call w (Pc.request (.create (req.input userID))) t.commands).map fun x =>
        (x.1, JobHandler.answered (fun job => ⟨201, (job.map Body.job).getD .empty⟩) t.failure x.2)

end JobFlow.Model.CreateJob
