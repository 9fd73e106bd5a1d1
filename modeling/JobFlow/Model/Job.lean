import Mathlib.Data.List.Basic
import Mathlib.Data.Int.Order.Basic

/-!
# Jobs as the code and the `jobs` table hold them

Rows follow the columns of the `jobs` table and the fields of `model.Job`.
Integers are unbounded here; the bounds of the columns are checked where a row
is inserted. Instants are microseconds, the resolution of `TIMESTAMPTZ`.
-/

namespace JobFlow.Model

/-- A JSON document, after `encoding/json` or `JSONB` has accepted it. Numbers
keep their text. -/
inductive Json where
  | null
  | bool (b : Bool)
  | number (text : String)
  | string (s : String)
  | array (items : List Json)
  | object (fields : List (String × Json))

/-- The texts the status column takes: the `Status…` constants and `scheduled`,
which the SQL writes as a literal. -/
inductive Status where
  | queued
  | running
  | completed
  | failed
  | cancelled
  | retrying
  | deadLetter
  | scheduled
  deriving DecidableEq, Repr

def Status.text : Status → String
  | .queued => "queued"
  | .running => "running"
  | .completed => "completed"
  | .failed => "failed"
  | .cancelled => "cancelled"
  | .retrying => "retrying"
  | .deadLetter => "dead_letter"
  | .scheduled => "scheduled"

/-- Microseconds since the epoch. -/
abbrev Time := Int

/-- `model.Job`, one row of `jobs`. -/
structure Job where
  id : String
  userID : Option String
  queueName : String
  jobType : String
  payload : Json
  status : Status
  priority : Int
  attempts : Nat
  maxAttempts : Int
  errorMessage : Option String
  scheduledAt : Option Time
  startedAt : Option Time
  completedAt : Option Time
  createdAt : Time
  updatedAt : Time

/-- Why a call fails: `pgx.ErrNoRows`, a value the column refuses, a Redis
`WRONGTYPE` reply, the `type is required` check, and a connection, context or
server failure. -/
inductive Err where
  | noRows
  | constraint
  | wrongType
  | typeRequired
  | unavailable
  deriving DecidableEq, Repr

/-- Errors of the stores themselves. A statement that matches no row has run. -/
def Err.commandFailed : Err → Bool
  | .noRows => false
  | .typeRequired => false
  | .constraint => true
  | .wrongType => true
  | .unavailable => true

/-- `repository.CreateJobParams`. The time is the request's, in nanoseconds. -/
structure CreateJobParams where
  userID : String
  queueName : String
  jobType : String
  payload : Json
  priority : Int
  maxAttempts : Int
  scheduledAt : Option Int

/-- `service.CreateJobInput`. The payload is `none` when the raw message is
empty or not valid JSON. -/
structure CreateJobInput where
  userID : String
  queue : String
  jobType : String
  payload : Option Json
  priority : Int
  maxAttempts : Int
  scheduledAt : Option Int

/-- What the publishers put on the events channel: a whole job or its id. -/
inductive EventData where
  | job (job : Job)
  | id (id : String)

structure Event where
  event : String
  data : EventData

/-- One worker process, with the queues it pops from. -/
structure Pool where
  id : String
  hostname : String
  queues : List String

end JobFlow.Model
