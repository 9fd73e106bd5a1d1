import JobFlow.Lib.Binary64
import JobFlow.Model.JsonValue
import JobFlow.Model.JsonWriter

/-!
# `worker.Processor`

What the processor decodes of a payload, and the request it sends for a webhook. Numbers
held in an `any` are of type `float64`; one that is out of range is an error, which
`json.Unmarshal` reports once it has gone through the rest. Which methods and addresses
`http.NewRequest` takes, and what the client answers, are parameters.
-/

namespace JobFlow.Model.Processor

open JobFlow.Lib

/-- A number as `encoding/json` decodes it into an `any`. -/
def float64 (text : String) : Option Binary64 :=
  (Numeral.parse text.toList).bind Binary64.ofNumeral?

/-- What is decoded into an `any`. -/
def any (v : Json) : Value Binary64 :=
  v.tree.bind fun text =>
    match float64 text with
    | some x => .number x
    | none => .null

/-- No number is out of range. -/
def inRange (v : Json) : Bool := v.numbers.all fun text => (float64 text).isSome

/-- The shortest decimal that reads back to the number. -/
def numberText (x : Binary64) : String := String.ofList x.toNumeral.text

/-- `json.Marshal`, which writes the keys of a map in their order. -/
def marshal (v : Value Binary64) : String := Wire.compact (Json.ofTree (v.map numberText))

/-- The struct the payload of a webhook is decoded into, and whether decoding failed. -/
structure Payload where
  url : String := ""
  method : String := ""
  body : Option (List (String × Value Binary64)) := none
  failed : Bool := false

/-- A JSON value for a field of type `string`; `null` leaves it. -/
def decodeString (current : String) : Json → Option String
  | .string s => some s
  | .null => some current
  | _ => none

/-- One member of the payload. Keys are compared without regard to case, and a second
object for the map adds to what is there. -/
def Payload.set (p : Payload) (field : String × Json) : Payload :=
  if field.1.toLower = "url" then
    match decodeString p.url field.2 with
    | some s => { p with url := s }
    | none => { p with failed := true }
  else if field.1.toLower = "method" then
    match decodeString p.method field.2 with
    | some s => { p with method := s }
    | none => { p with failed := true }
  else if field.1.toLower = "body" then
    match field.2 with
    | .object fields =>
      { p with
        body := some (Members.putAll (p.body.getD []) (Members.mapValues any fields))
        failed := p.failed || !inRange (.object fields) }
    | .null => { p with body := none }
    | _ => { p with failed := true }
  else p

def unmarshal : Json → Payload
  | .object fields => fields.foldl Payload.set {}
  | .null => {}
  | _ => { failed := true }

structure Request where
  method : String
  url : String
  headers : List (String × String)
  body : String

structure Response where
  status : String
  statusCode : Nat

inductive Err where
  | unmarshal
  /-- `webhook url is required`. -/
  | urlRequired
  | badRequest
  | transport (message : String)
  /-- `webhook returned %s`. -/
  | returned (status : String)
  /-- `payload requested failure`. -/
  | forceFail
  /-- `unknown job type %q`. -/
  | unknownType (jobType : String)

variable (accepts : String → String → Bool) (send : Request → Except String Response)

/-- `Processor.webhook`: the request, if one is sent, and the result. -/
def webhook (payload : Json) : Option Request × Except Err Unit :=
  let p := unmarshal payload
  if p.failed then (none, .error .unmarshal)
  else if p.url = "" then (none, .error .urlRequired)
  else
    let method := if p.method = "" then "POST" else p.method
    let body := (p.body.map fun m => marshal (.object m)).getD "null"
    if accepts method p.url then
      let req : Request := ⟨method, p.url, [("Content-Type", "application/json")], body⟩
      (some req,
        match send req with
        | .error message => .error (.transport message)
        | .ok resp => if resp.statusCode ≥ 400 then .error (.returned resp.status) else .ok ())
    else (none, .error .badRequest)

/-- `simulate`, in a context that is not cancelled. -/
def simulate (payload : Json) : Except Err Unit :=
  match payload with
  | .object fields =>
    match Json.property fields "force_fail" with
    | some (.bool true) => .error .forceFail
    | _ => .ok ()
  | _ => .ok ()

/-- The types whose work is simulated. -/
def simulated : List String :=
  ["send_email", "send_notification", "resize_image", "generate_report", "process_data"]

/-- `Processor.Process`. -/
def process (job : Job) : Option Request × Except Err Unit :=
  if job.jobType ∈ simulated then (none, simulate job.payload)
  else if job.jobType = "send_webhook" then webhook accepts send job.payload
  else (none, .error (.unknownType job.jobType))

end JobFlow.Model.Processor
