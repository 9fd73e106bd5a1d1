import JobFlow.Model.CreateJob
import JobFlow.Service.Atomicity
import JobFlow.Web.RoundTrip

/-!
# From the form to the row

The body that the form sends is read by the handler as the job that the form shows. Which
forms are refused, and for what, is known from the form alone.
-/

namespace JobFlow.Web.Creation

open JobFlow.Model
open JobFlow.Model.CreateJob
open JobFlow.Model.JavaScript
open JobFlow.Model.JobComposer
open JobFlow.Model.JobRepository (int4 varchar newRow newRow_fields)
open JobFlow.Model.RedisQueue (queueKey)
open JobFlow.Service.Atomicity
open JobFlow.Lib
open JobFlow.Lib.Timestamp (minute? instantText)

/-! ### What the form shows -/

/-- The integer that a number is read as. What is not finite is sent as `null`, and that
leaves a zero. -/
def Amounts (x : Number) (n : Int) : Prop :=
  match x with
  | .finite x => x.value = n
  | .infinite _ | .nan => n = 0

/-- The value of the payload that the form shows, `{}` where it shows none. -/
def shownPayload (s : Composer) : Option JsValue :=
  parse (if s.payloadText = "" then "\x7b\x7d" else s.payloadText)

/-- The payload of the request `index`. -/
def composed (s : Composer) (payload : JsValue) (index : Nat) : JsValue :=
  let payloadBase :=
    if s.forceFail then .object (Members.put "force_fail" (.bool true) (spread payload))
    else payload
  if count s.batchCount = some 1 then payloadBase
  else .object (Members.put "batch_index" (.number (.read (toString (index + 1))))
    (spread payloadBase))

/-- The document that `JSON.stringify` writes. -/
def document (v : JsValue) : Json := Json.ofTree (v.bind Number.write)

/-- The row of the job that the form shows. -/
structure Shows (zone : LocalTime) (s : Composer) (payload : JsValue) (index : Nat) (row : Job) :
    Prop where
  jobType : varchar 100 s.type = some row.jobType
  queueName : varchar 100 (if s.queue = "" then "default" else s.queue) = some row.queueName
  priority : Amounts s.priority.toNumber row.priority
  maxAttempts : (row.maxAttempts : ℚ) = s.maxAttempts.shown.getD 3
  plain : s.forceFail = false → count s.batchCount = some 1 →
    row.payload.meaning = payload.bind Number.meaning
  marked : s.forceFail ∨ count s.batchCount ≠ some 1 → ∃ members,
    row.payload.meaning = .object members ∧ ∀ name, members.lookup name =
      if name = "batch_index" ∧ count s.batchCount ≠ some 1 then some (.number (index + 1))
      else if name = "force_fail" ∧ s.forceFail then some (.bool true)
      else ((spread payload).lookup name).map (·.bind Number.meaning)
  scheduledAt : row.scheduledAt =
    (minute? s.scheduledAt.toList).map fun x => 1000 * zone.instant x.1

/-- Half of a character is read as the replacement character here. The browser sends it as it
is, and PostgreSQL refuses it. A text that holds a replacement character of its own is left out
with them. -/
def Whole (text : String) : Prop := Char.ofNat 0xFFFD ∉ text.toList

instance (text : String) : Decidable (Whole text) := inferInstanceAs (Decidable (_ ∉ _))

/-! ### Numbers -/

variable {zone : LocalTime} {s : Composer} {payload : JsValue} {index : Nat} {text : String}
  {req : CreateJobRequest}

/-- The members of the body in the order of their keys. -/
def members (s : Composer) (payload : JsValue) (index : Nat) (iso : Option String) :
    List (String × JsValue) :=
  [("max_attempts", .number s.maxAttempts.toNumber), ("payload", composed s payload index),
      ("priority", .number s.priority.toNumber), ("queue", .string s.queue)] ++
    (iso.map fun time => ("scheduled_at", Value.string time)).toList ++ [("type", .string s.type)]

variable {w w' : World} {userID : String} {t : Turn} {r : Response} {choices : List Choice}
  {p : CreateJobParams} {row job : Job} {result : Except Err (Option Job)}

/-- The columns take the values. -/
def Storable (p : CreateJobParams) : Prop :=
  (varchar 100 p.queueName).isSome ∧ (varchar 100 p.jobType).isSome ∧ int4 p.priority ∧
    int4 p.maxAttempts

/-- The body leads to an insert with these values. -/
def Accepted (userID text : String) (p : CreateJobParams) : Prop :=
  ∃ req, shouldBindJSON text = some req ∧ req.hasZero = false ∧
    Pc.create (req.input userID) = .createInsert p

/-- The values of the insert that a body leads to. -/
def params (s : Composer) (payload : JsValue) (index : Nat) (userID : String) (m n : Int)
    (time : Option Int) : CreateJobParams where
  userID := userID
  queueName := if s.queue = "" then "default" else s.queue
  jobType := s.type
  payload := document (composed s payload index)
  priority := n
  maxAttempts := if m = 0 then 3 else m
  scheduledAt := time

end JobFlow.Web.Creation
