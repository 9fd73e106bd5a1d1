import JobFlow.Lib.Timestamp
import JobFlow.Model.JsonValue
import JobFlow.Model.JsonWriter
import Mathlib.Data.List.DropRight

/-!
# What the API answers with for a list of jobs

The text of a time as `time.Time` marshals itself, in the zone of the server, and the
documents that `json.Marshal` writes for the jobs. A year of more than four digits is
refused by `MarshalJSON`, so no answer has one.
-/

namespace JobFlow.Model.JobListing

open JobFlow.Lib
open JobFlow.Lib.Timestamp (minuteText)
open JobFlow.Lib.Decimal (padded)

section Time

-- how many seconds the clock of the server is ahead of UTC
variable (zone : Time → Int)

/-- What the clock of the server shows, in microseconds. -/
def clock (t : Time) : Int := t + 1000000 * zone t

/-- Decimals without the zeros at their end. -/
def fraction (micros : Nat) : List Char :=
  if micros = 0 then [] else '.' :: (padded 6 micros).rdropWhile (· == '0')

/-- `Z07:00`. -/
def zoneText (seconds : Int) : List Char :=
  if seconds = 0 then ['Z']
  else (if seconds.tdiv 60 < 0 then '-' else '+') ::
    (padded 2 (seconds.natAbs / 3600) ++ ':' :: padded 2 (seconds.natAbs / 60 % 60))

/-- `time.RFC3339Nano`. -/
def rfc3339 (t : Time) : String :=
  String.ofList (minuteText (clock zone t / 60000000) ++
    ':' :: (padded 2 (clock zone t % 60000000 / 1000000).toNat ++
      (fraction (clock zone t % 1000000).toNat ++ zoneText (zone t))))

/-- `Time.MarshalJSON` of a time it does not refuse. -/
def marshalTime (t : Time) : String := Wire.quote (rfc3339 zone t)

/-- What `MarshalJSON` does not refuse. -/
def Marshals (t : Time) : Prop :=
  0 ≤ (Calendar.civil (clock zone t / 60000000 / 1440)).year ∧
    (Calendar.civil (clock zone t / 60000000 / 1440)).year ≤ 9999

instance (t : Time) : Decidable (Marshals zone t) := inferInstanceAs (Decidable (_ ∧ _))

example : rfc3339 (fun _ => -12600) 1709214845006700 = "2024-02-29T10:24:05.0067-03:30" := by
  decide +kernel

def integer (n : Int) : Json := .number (toString n)

/-- A pointer under `omitempty`. -/
def omitempty (key : String) (value : Option Json) : List (String × Json) :=
  (value.map fun v => (key, v)).toList

/-- The fields of a job, as `Wire.marshalJob` writes them. -/
def jobFields (job : Job) : List (String × Json) :=
  let time (t : Time) : Json := .string (rfc3339 zone t)
  (("id", .string job.id) :: omitempty "user_id" (job.userID.map .string) ++
      [("queue", .string job.queueName), ("type", .string job.jobType)]) ++
    ("payload", job.payload) ::
    ([("status", .string job.status.text), ("priority", integer job.priority),
      ("attempts", integer job.attempts), ("max_attempts", integer job.maxAttempts)] ++
      omitempty "error_message" (job.errorMessage.map .string) ++
      omitempty "scheduled_at" (job.scheduledAt.map time) ++
      omitempty "started_at" (job.startedAt.map time) ++
      omitempty "completed_at" (job.completedAt.map time) ++
      [("created_at", time job.createdAt), ("updated_at", time job.updatedAt)])

/-- `json.Marshal` of the slice. -/
def marshalJobs (jobs : List Job) : String :=
  "[" ++ String.intercalate "," (jobs.map (Wire.marshalJob (marshalTime zone))) ++ "]"

end Time

variable {zone : Time → Int}

theorem compactFields_eq (fields : List (String × Json)) :
    Wire.compactFields fields = Wire.members (Members.mapValues Wire.compact fields) := by
  induction fields with
  | nil => rfl
  | cons f fields ih =>
    cases fields with
    | nil => rfl
    | cons next fields =>
      rw [Wire.compactFields, ih]
      · rfl
      · exact List.cons_ne_nil _ _

theorem compactItems_eq (items : List Json) :
    Wire.compactItems items = String.intercalate "," (items.map Wire.compact) := by
  induction items with
  | nil => rfl
  | cons item items ih =>
    cases items with
    | nil => exact String.intercalate_singleton.symm
    | cons next items =>
      rw [Wire.compactItems, ih]
      · exact String.intercalate_cons_cons.symm
      · exact List.cons_ne_nil _ _

theorem mapValues_omitempty (key : String) (value : Option Json) :
    Members.mapValues Wire.compact (omitempty key value) =
      Wire.optional key (value.map Wire.compact) := by
  cases value <;> rfl

/-- The text of a job is the text of a document. -/
theorem marshalJob_eq (job : Job) :
    Wire.marshalJob (marshalTime zone) job = Wire.compact (.object (jobFields zone job)) := by
  rw [Wire.compact, compactFields_eq, Wire.marshalJob, Wire.object]
  congr 3
  have homitempty := mapValues_omitempty
  unfold Members.mapValues at homitempty ⊢
  simp only [jobFields, List.map_append, List.map_cons, List.map_nil, homitempty, Option.map_map]
  rfl

theorem marshalJobs_eq (jobs : List Job) :
    marshalJobs zone jobs = Wire.compact (.array (jobs.map fun j => .object (jobFields zone j))) := by
  rw [Wire.compact, compactItems_eq, List.map_map, marshalJobs]
  congr 3
  exact List.map_congr_left fun j _ => marshalJob_eq j

theorem valid_integer (n : Int) : (integer n).valid := by
  rw [integer, Json.valid, Numeral.parse_toString]
  rfl

theorem valid_omitempty {key : String} {value : Option Json} (h : ∀ v ∈ value, v.valid) :
    ∀ p ∈ omitempty key value, p.2.valid := by
  intro p hp
  cases value with
  | none => cases hp
  | some v => exact List.mem_singleton.mp hp ▸ h v rfl

theorem valid_job {job : Job} (h : job.payload.valid) : (Json.object (jobFields zone job)).valid := by
  have hstring {α : Type} (f : α → String) (key : String) (value : Option α) :
      ∀ p ∈ omitempty key (value.map fun a => .string (f a)), p.2.valid :=
    valid_omitempty fun v hv => by
      obtain ⟨a, -, rfl⟩ := Option.mem_map.mp hv
      rfl
  have htext (s : String) : (Json.string s).valid := rfl
  rw [Json.valid_object]
  simp only [jobFields, List.forall_mem_append, List.forall_mem_cons, List.not_mem_nil, false_imp_iff,
    implies_true, and_true, htext, valid_integer, h, true_and]
  exact ⟨hstring id _ _, ⟨⟨hstring id _ _, hstring _ _ _⟩, hstring _ _ _⟩, hstring _ _ _⟩

theorem reverse_omitempty (key : String) (value : Option Json) :
    (omitempty key value).reverse = omitempty key value := by
  cases value <;> rfl

theorem lookup_omitempty (name key : String) (value : Option Json) :
    (omitempty key value).lookup name = if name = key then value else none := by
  cases value with
  | none => exact (ite_self none).symm
  | some v =>
    rw [omitempty, Option.map_some, Option.toList_some, List.lookup_cons]
    split
    next h => rw [if_pos (beq_iff_eq.mp h)]
    next h => rw [if_neg (beq_eq_false_iff_ne.mp h), List.lookup_nil]

variable (zone) in
/-- The members that an import of the job reads. -/
theorem property_jobFields (job : Job) :
    Json.property (jobFields zone job) "type" = some (.string job.jobType) ∧
      Json.property (jobFields zone job) "queue" = some (.string job.queueName) ∧
      Json.property (jobFields zone job) "priority" = some (integer job.priority) ∧
      Json.property (jobFields zone job) "max_attempts" = some (integer job.maxAttempts) ∧
      Json.property (jobFields zone job) "maxAttempts" = none ∧
      Json.property (jobFields zone job) "batchCount" = none ∧
      Json.property (jobFields zone job) "scheduled_at" =
        job.scheduledAt.map (fun t => .string (rfc3339 zone t)) ∧
      Json.property (jobFields zone job) "payload" = some job.payload := by
  simp [Json.property, jobFields, List.reverse_append, List.lookup_append, List.lookup_cons,
    lookup_omitempty, reverse_omitempty]

/-- The answer is read as the documents of the jobs. -/
theorem parse_marshalJobs {jobs : List Job} (h : ∀ j ∈ jobs, j.payload.valid) :
    JsonText.parse (marshalJobs zone jobs) =
      some (.array (jobs.map fun j => .object (jobFields zone j))) := by
  have hvalid : (Json.array (jobs.map fun j => .object (jobFields zone j))).valid := by
    rw [Json.valid_array]
    intro v hv
    obtain ⟨j, hj, rfl⟩ := List.mem_map.mp hv
    exact valid_job (h j hj)
  rw [marshalJobs_eq]
  exact JsonText.parse_compact ⟨_, hvalid⟩

end JobFlow.Model.JobListing
