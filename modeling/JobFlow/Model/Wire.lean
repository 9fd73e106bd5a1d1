import JobFlow.Model.Job

/-!
# What goes over the events channel and to the subscribers

`json.Marshal` of an event and the frame `ServeHTTP` writes around it. The text of a time
depends on the zone of the server and is a parameter. A payload is a `json.RawMessage`,
which `Marshal` copies in compact form, with the same escapes as in a string.
-/

namespace JobFlow.Model.Wire

def hexDigit (n : Nat) : Char := "0123456789abcdef".toList.getD n '0'

/-- One character inside a string, with what HTML would read escaped too. -/
def escape (c : Char) : List Char :=
  if c = '"' then ['\\', '"']
  else if c = '\\' then ['\\', '\\']
  else if c.toNat = 8 then ['\\', 'b']
  else if c.toNat = 9 then ['\\', 't']
  else if c.toNat = 10 then ['\\', 'n']
  else if c.toNat = 12 then ['\\', 'f']
  else if c.toNat = 13 then ['\\', 'r']
  else if c.toNat < 32 ∨ c = '<' ∨ c = '>' ∨ c = '&' then
    ['\\', 'u', '0', '0', hexDigit (c.toNat / 16), hexDigit (c.toNat % 16)]
  else if c.toNat = 0x2028 ∨ c.toNat = 0x2029 then
    ['\\', 'u', '2', '0', '2', hexDigit (c.toNat % 16)]
  else [c]

def quote (s : String) : String := String.ofList ('"' :: s.toList.flatMap escape ++ ['"'])

mutual

def compact : Json → String
  | .null => "null"
  | .bool b => if b then "true" else "false"
  | .number text => text
  | .string s => quote s
  | .array items => "[" ++ compactItems items ++ "]"
  | .object fields => "\x7b" ++ compactFields fields ++ "\x7d"

def compactItems : List Json → String
  | [] => ""
  | [item] => compact item
  | item :: items => compact item ++ "," ++ compactItems items

def compactFields : List (String × Json) → String
  | [] => ""
  | [(key, value)] => quote key ++ ":" ++ compact value
  | (key, value) :: fields => quote key ++ ":" ++ compact value ++ "," ++ compactFields fields

end

/-- The members of an object whose values have been marshalled. -/
def members : List (String × String) → String
  | [] => ""
  | [(key, value)] => quote key ++ ":" ++ value
  | (key, value) :: rest => quote key ++ ":" ++ value ++ "," ++ members rest

def object (fields : List (String × String)) : String := "\x7b" ++ members fields ++ "\x7d"

/-- A pointer under `omitempty`. -/
def optional (key : String) (value : Option String) : List (String × String) :=
  (value.map fun text => (key, text)).toList

section Time

variable (timeText : Time → String)

/-- The fields of `model.Job` in their order. -/
def marshalJob (job : Job) : String :=
  object ((("id", quote job.id) :: optional "user_id" (job.userID.map quote) ++
      [("queue", quote job.queueName), ("type", quote job.jobType)]) ++
    ("payload", compact job.payload) ::
    ([("status", quote job.status.text), ("priority", toString job.priority),
      ("attempts", toString job.attempts), ("max_attempts", toString job.maxAttempts)] ++
      optional "error_message" (job.errorMessage.map quote) ++
      optional "scheduled_at" (job.scheduledAt.map timeText) ++
      optional "started_at" (job.startedAt.map timeText) ++
      optional "completed_at" (job.completedAt.map timeText) ++
      [("created_at", timeText job.createdAt), ("updated_at", timeText job.updatedAt)]))

def marshalData : EventData → String
  | .job job => marshalJob timeText job
  | .id id => object [("id", quote id)]

/-- `json.Marshal` of the map with the keys `event` and `data`, which it sorts. -/
def marshal (e : Event) : String :=
  object [("data", marshalData timeText e.data), ("event", quote e.event)]

end Time

/-- `fmt.Fprintf(w, "data: %s\n\n", msg)`. -/
def frame (msg : String) : String := "data: " ++ msg ++ "\n\n"

/-- A value stands between texts that do not depend on it. -/
theorem members_context (before : List (String × String)) (key : String)
    (after : List (String × String)) : ∃ left right : String, ∀ value,
      members (before ++ (key, value) :: after) = left ++ value ++ right := by
  induction before with
  | nil =>
    cases after with
    | nil =>
      refine ⟨quote key ++ ":", "", fun value => ?_⟩
      rw [List.nil_append, members, String.append_empty]
    | cons next rest =>
      refine ⟨quote key ++ ":", "," ++ members (next :: rest), fun value => ?_⟩
      simp only [List.nil_append, members, String.append_assoc]
  | cons field before ih =>
    obtain ⟨left, right, h⟩ := ih
    refine ⟨quote field.1 ++ ":" ++ field.2 ++ "," ++ left, right, fun value => ?_⟩
    have hcons : members ((field :: before) ++ (key, value) :: after) =
        quote field.1 ++ ":" ++ field.2 ++ "," ++ members (before ++ (key, value) :: after) := by
      cases before <;> rfl
    rw [hcons, h value]
    simp only [String.append_assoc]

/-- Objects that differ in one value are told apart by it. -/
theorem object_inj_value {before after : List (String × String)} {key value value' : String} :
    object (before ++ (key, value) :: after) = object (before ++ (key, value') :: after) ↔
      value = value' := by
  obtain ⟨left, right, h⟩ := members_context before key after
  rw [object, object, h, h, String.append_left_inj, String.append_right_inj,
    String.append_left_inj, String.append_right_inj]

/-- Two jobs that differ in their payloads alone. -/
theorem marshalJob_payload (timeText : Time → String) (job : Job) (payload payload' : Json) :
    marshalJob timeText { job with payload := payload } =
        marshalJob timeText { job with payload := payload' } ↔
      compact payload = compact payload' := object_inj_value

theorem marshal_data (timeText : Time → String) (event : String) (d d' : EventData) :
    marshal timeText ⟨event, d⟩ = marshal timeText ⟨event, d'⟩ ↔
      marshalData timeText d = marshalData timeText d' := by
  have h := @object_inj_value [] [("event", quote event)] "data" (marshalData timeText d)
    (marshalData timeText d')
  exact h

end JobFlow.Model.Wire
