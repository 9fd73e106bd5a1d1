import JobFlow.Lib.Timestamp
import JobFlow.Model.JavaScript

/-!
# The form for new jobs

`importJobFile` and `submit` of `JobComposer` with `createJobs` and `exportJobs` of the hook.
A file is modelled where its members have the types they have for a job; the name of the
file that is downloaded is not. A text of the engine for an error is only present or not.
-/

namespace JobFlow.Model.JobComposer

open JobFlow.Lib
open JobFlow.Lib.Timestamp (minute? instantText)
open JobFlow.Model.JavaScript

structure Template where
  queue : String
  priority : Number
  payload : JsValue

def texts (members : List (String × String)) : JsValue :=
  .object (Members.putAll [] (Members.mapValues .string members))

/-- `jobTemplates`, without the labels. -/
def jobTemplates : List (String × Template) :=
  [("send_email", ⟨"emails", .read "5", texts [("to", "user@example.com"), ("subject", "Welcome"),
      ("body", "Hello from JobFlow")]⟩),
    ("resize_image", ⟨"images", .read "3", .object [("height", .number (.read "600")),
      ("image_url", .string "https://example.com/image.jpg"), ("width", .number (.read "800"))]⟩),
    ("send_notification", ⟨"default", .read "6", texts [("recipient", "Rensith Udara"),
      ("message", "Your report is ready")]⟩),
    ("generate_report", ⟨"reports", .read "2", texts [("report", "monthly_revenue"),
      ("format", "pdf"), ("account", "Operations Team")]⟩),
    ("send_webhook", ⟨"webhooks", .read "8", .object [("body", texts [("event", "jobflow.test")]),
      ("url", .string "https://httpbin.org/post")]⟩),
    ("process_data", ⟨"default", .read "4", texts [("dataset", "imports/customers.csv"),
      ("mode", "dedupe")]⟩)]

/-- What `jobTemplates[name]` finds in `Object.prototype`. -/
def inherited : List String :=
  ["__defineGetter__", "__defineSetter__", "__lookupGetter__", "__lookupSetter__", "__proto__",
    "constructor", "hasOwnProperty", "isPrototypeOf", "propertyIsEnumerable", "toLocaleString",
    "toString", "valueOf"]

/-- What a control for a number holds: a number the code has set, or the text of the input. -/
inductive Field where
  | number (x : Number)
  | text (s : String)

/-- The state of the component. Of the error it is kept whether there is one. -/
structure Composer where
  type : String
  queue : String
  priority : Field
  maxAttempts : Field
  forceFail : Bool
  scheduledAt : String
  batchCount : Field
  payloadText : String
  jsonError : Bool

/-! ### `importJobFile` -/

/-- How an import ends before its last line: at a `TypeError`, with some fields set, or at
a value of a type that is not modelled. -/
inductive Stop where
  | typeError (s : Composer)
  | unmodelled

def asText : JsValue → Except Stop String
  | .string s => .ok s
  | _ => .error .unmodelled

def asField : JsValue → Except Stop Field
  | .number x => .ok (.number x)
  | .string s => .ok (.text s)
  | _ => .error .unmodelled

/-- `job.type && jobTemplates[job.type] ? job.type : type`. -/
def nextType (type : String) (job : JsValue) : Except Stop String :=
  match taken (get "type" job) with
  | some (.string t) =>
    if t ∈ inherited then .error .unmodelled
    else .ok (if (jobTemplates.lookup t).isSome then t else type)
  | some (.array _) | some (.object _) => .error .unmodelled
  | _ => .ok type

/-- `value.slice(0, 16)` of a text of ASCII. -/
def slice (s : String) : String := String.ofList (s.toList.take 16)

/-- `job.queue || template.queue`; without a template there is a `TypeError`. -/
def nextQueue (s : Composer) (template : Option Template) (job : JsValue) : Except Stop String :=
  match taken (get "queue" job), template with
  | some v, _ => asText v
  | none, some template => .ok template.queue
  | none, none => .error (.typeError s)

/-- `job.priority ?? template.priority`. -/
def nextPriority (s : Composer) (template : Option Template) (job : JsValue) : Except Stop Field :=
  match present (get "priority" job), template with
  | some v, _ => asField v
  | none, some template => .ok (.number template.priority)
  | none, none => .error (.typeError s)

/-- `job.max_attempts || job.maxAttempts || maxAttempts`. -/
def nextMaxAttempts (maxAttempts : Field) (job : JsValue) : Except Stop Field :=
  match (taken (get "max_attempts" job)).or (taken (get "maxAttempts" job)) with
  | some v => asField v
  | none => .ok maxAttempts

/-- `job.batchCount || 1`. -/
def nextBatchCount (job : JsValue) : Except Stop Field :=
  match taken (get "batchCount" job) with
  | some v => asField v
  | none => .ok (.number (.read "1"))

/-- `job.scheduled_at ? job.scheduled_at.slice(0, 16) : ""`. -/
def nextScheduledAt (s : Composer) (job : JsValue) : Except Stop String :=
  match taken (get "scheduled_at" job) with
  | none => .ok ""
  | some (.string t) => .ok (slice t)
  | some (.array _) => .error .unmodelled
  | some _ => .error (.typeError s)

/-- The assignments of `importJobFile`, one after the other. -/
def importJob (s : Composer) (job : JsValue) : Except Stop Composer := do
  let type ← nextType s.type job
  let template := jobTemplates.lookup type
  let s := { s with type := type }
  let s := { s with queue := ← nextQueue s template job }
  let s := { s with priority := ← nextPriority s template job }
  let s := { s with maxAttempts := ← nextMaxAttempts s.maxAttempts job }
  let s := { s with batchCount := ← nextBatchCount job }
  let s := { s with scheduledAt := ← nextScheduledAt s job }
  let payload := get "payload" job
  .ok { s with
    forceFail := (taken (payload.bind (get "force_fail"))).isSome
    payloadText := stringify 2 ((taken payload).getD job) }

/-- `importJobFile` with the text of the file. -/
def importJobFile (s : Composer) (text : String) : Option Composer :=
  match parse text with
  | none => some { s with jsonError := true }
  | some data =>
    let job := match data with
      | .array items => items.head?
      | v => some v
    match job with
    | none | some .null => some { s with jsonError := true }
    | some job =>
      match importJob s job with
      | .ok s' => some { s' with jsonError := false }
      | .error (.typeError s') => some { s' with jsonError := true }
      | .error .unmodelled => none

/-- The text that `exportJobs` downloads. -/
def exportJobs (scope : JsValue) : String := stringify 2 scope

/-! ### `submit` -/

/-- The decimal numbers among the texts that `Number` takes. -/
def unsigned? (negative : Bool) (text : List Char) : Option Numeral :=
  let whole := text.takeWhile Char.isDigit
  match text.dropWhile Char.isDigit with
  | '.' :: rest =>
    let fraction := rest.takeWhile Char.isDigit
    if whole = [] ∧ fraction = [] then none
    else (Numeral.exponent? (rest.dropWhile Char.isDigit)).map fun e =>
      ⟨negative, Nat.ofDigitChars 10 (whole ++ fraction) 0, e - fraction.length⟩
  | rest =>
    if whole = [] then none
    else (Numeral.exponent? rest).map fun e => ⟨negative, Nat.ofDigitChars 10 whole 0, e⟩

def decimal? : List Char → Option Numeral
  | '-' :: text => unsigned? true text
  | '+' :: text => unsigned? false text
  | text => unsigned? false text

/-- `Number(value)` for the texts that an input for numbers gives. -/
def Field.toNumber : Field → Number
  | .number x => x
  | .text "" => .read "0"
  | .text s =>
    match decimal? s.toList with
    | none => .nan
    | some n =>
      match Binary64.ofNumeral? n with
      | some x => .finite x
      | none => .infinite n.negative

/-- The number that an input shows; it is empty where there is no finite one. -/
def Field.shown : Field → Option ℚ
  | .text "" => none
  | f =>
    match f.toNumber with
    | .finite x => some x.value
    | .infinite _ | .nan => none

/-- The browser submits no form with a number out of range or between two steps. -/
def Field.within (least greatest : Int) (f : Field) : Bool :=
  match f.shown with
  | none => true
  | some q => least ≤ q && q ≤ greatest && q.den = 1

/-- The inputs with `min` and `max`; the slider for the priority corrects what it shows. -/
def Composer.valid (s : Composer) : Bool :=
  s.maxAttempts.within 1 10 && s.batchCount.within 1 25

/-- How many seconds local time is ahead of UTC when a clock shows a minute. -/
structure LocalTime where
  offset : Int → Int
  within : ∀ minute, (offset minute).natAbs < 86400

/-- Milliseconds. -/
def LocalTime.instant (zone : LocalTime) (minute : Int) : Int :=
  60000 * minute - 1000 * zone.offset minute

/-- `new Date(text).toISOString()` for the texts of a `datetime-local` input; `none` stands
for the `RangeError`. -/
def toISOString (zone : LocalTime) (text : String) : Option String :=
  match minute? text.toList with
  | some (minute, []) =>
    if (zone.instant minute).natAbs ≤ 8640000000000000 then
      some (String.ofList (instantText (zone.instant minute)))
    else none
  | _ => none

/-- `Math.max(1, Number(form.batchCount) || 1)`; `none` is infinity. -/
def count (batchCount : Field) : Option ℚ :=
  match batchCount.toNumber with
  | .finite x => some (if x.value < 1 then 1 else x.value)
  | .infinite false => none
  | .infinite true | .nan => some 1

/-- The request that `createJobs` sends in the turn `index` of its loop, as long as those
before were answered. -/
def createJobs (zone : LocalTime) (s : Composer) (payload : JsValue) (index : Nat) :
    Option String := do
  let payloadBase :=
    if s.forceFail then .object (Members.put "force_fail" (.bool true) (spread payload)) else payload
  let count := count s.batchCount
  guard (∀ n ∈ count, index < n)
  let payload :=
    if count = some 1 then payloadBase
    else .object (Members.put "batch_index" (.number (.read (toString (index + 1))))
      (spread payloadBase))
  let body := Members.putAll [] [("queue", .string s.queue), ("type", .string s.type),
    ("priority", .number s.priority.toNumber), ("max_attempts", .number s.maxAttempts.toNumber),
    ("payload", payload)]
  if s.scheduledAt = "" then some (stringify 0 (.object body))
  else do
    let text ← toISOString zone s.scheduledAt
    some (stringify 0 (.object (Members.put "scheduled_at" (.string text) body)))

/-- `submit`, once the button is pressed, with the requests that are sent. -/
def submit (zone : LocalTime) (s : Composer) : Composer × (Nat → Option String) :=
  if s.valid then
    match parse (if s.payloadText = "" then "\x7b\x7d" else s.payloadText) with
    | none => ({ s with jsonError := true }, fun _ => none)
    | some payload => ({ s with jsonError := false }, createJobs zone s payload)
  else (s, fun _ => none)

end JobFlow.Model.JobComposer
