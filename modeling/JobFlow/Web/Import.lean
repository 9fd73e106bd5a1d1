import JobFlow.Model.JobComposer
import JobFlow.Model.JobListing

/-!
# The import of a job that was exported

What the composer holds after the import, from whatever it held before. The list that the
API answers with is read, written to a file and read again.
-/

namespace JobFlow.Web.Import

open JobFlow.Model
open JobFlow.Model.JavaScript
open JobFlow.Model.JobComposer
open JobFlow.Model.JobListing (rfc3339 jobFields integer marshalJobs)
open JobFlow.Lib

/-- A value of the answer, read from the file it was exported to. -/
def carried (v : Json) : JsValue := (ofJson v).bind Number.settled

theorem canonical_carried (v : Json) : (carried v).Canonical := canonical_settled (canonical_ofJson v)

theorem get_carried (name : String) (fields : List (String × Json)) :
    get name (carried (.object fields)) = (Json.property fields name).map carried := by
  rw [carried, get_bind, get_ofJson, Option.map_map]
  rfl

theorem carried_integer {n : Int} (h : n.natAbs < 2 ^ 53) :
    carried (integer n) = .number (.read (toString n)) := by
  obtain ⟨x, hx, -, hmag⟩ := read_toString h
  have hread : carried (integer n) = (Number.read (toString n)).settled := rfl
  rw [hread, hx, Number.settled]
  split
  next hzero =>
    have hn : n = 0 := by
      rw [hmag] at hzero
      have : n.natAbs = 0 := by exact_mod_cast hzero
      omega
    rw [← hx, hn]
    rfl
  · rfl

theorem truthy_integer {n : Int} (h : n.natAbs < 2 ^ 53) :
    truthy (.number (.read (toString n))) = decide (n ≠ 0) := by
  obtain ⟨x, hx, -, hmag⟩ := read_toString h
  rw [truthy, hx, Number.truthy, hmag]
  simp

theorem taken_some (v : JsValue) : taken (some v) = if truthy v then some v else none :=
  Option.filter_some

/-- The composer after the import of a job. -/
def imported (server : Time → Int) (s : Composer) (template : Template) (job : Job) : Composer where
  type := job.jobType
  queue := if job.queueName = "" then template.queue else job.queueName
  priority := .number (.read (toString job.priority))
  maxAttempts :=
    if job.maxAttempts = 0 then s.maxAttempts else .number (.read (toString job.maxAttempts))
  forceFail := (taken (get "force_fail" (carried job.payload))).isSome
  scheduledAt := (job.scheduledAt.map fun t => slice (rfc3339 server t)).getD ""
  batchCount := .number (.read "1")
  payloadText :=
    stringify 2 ((taken (some (carried job.payload))).getD (carried (.object (jobFields server job))))
  jsonError := false

variable {server : Time → Int} {s : Composer} {template : Template} {job : Job}

theorem not_inherited {type : String} (h : jobTemplates.lookup type = some template) :
    type ∉ inherited ∧ type ≠ "" := by
  have hall : ∀ p ∈ jobTemplates, p.1 ∉ inherited ∧ p.1 ≠ "" := by decide
  obtain ⟨before, after, hsplit, -⟩ := List.lookup_eq_some_iff.mp h
  exact hall (type, template) (hsplit ▸ List.mem_append_right _ List.mem_cons_self)

theorem nextType_carried (ht : jobTemplates.lookup job.jobType = some template) (type : String) :
    nextType type (carried (.object (jobFields server job))) = .ok job.jobType := by
  obtain ⟨hown, hne⟩ := not_inherited ht
  have hget : get "type" (carried (.object (jobFields server job))) = some (.string job.jobType) := by
    rw [get_carried, (JobListing.property_jobFields server job).1]
    rfl
  rw [nextType, hget, taken_some, truthy, if_pos (by simpa using hne)]
  simp only [if_neg hown, ht, Option.isSome_some, if_true]

theorem nextQueue_carried (s : Composer) :
    nextQueue s (some template) (carried (.object (jobFields server job))) =
      .ok (if job.queueName = "" then template.queue else job.queueName) := by
  have hget : get "queue" (carried (.object (jobFields server job))) = some (.string job.queueName) := by
    rw [get_carried, (JobListing.property_jobFields server job).2.1]
    rfl
  unfold nextQueue
  rw [hget, taken_some, truthy]
  by_cases h : job.queueName = ""
  · rw [if_neg (by simpa using h), if_pos h]
  · rw [if_pos (by simpa using h), if_neg h]
    rfl

theorem nextPriority_carried (s : Composer) (hp : job.priority.natAbs < 2 ^ 53) :
    nextPriority s (some template) (carried (.object (jobFields server job))) =
      .ok (.number (.read (toString job.priority))) := by
  unfold nextPriority
  rw [get_carried, (JobListing.property_jobFields server job).2.2.1, Option.map_some,
    carried_integer hp]
  rfl

theorem nextMaxAttempts_carried (maxAttempts : Field) (hm : job.maxAttempts.natAbs < 2 ^ 53) :
    nextMaxAttempts maxAttempts (carried (.object (jobFields server job))) =
      .ok (if job.maxAttempts = 0 then maxAttempts
        else .number (.read (toString job.maxAttempts))) := by
  obtain ⟨-, -, -, hmax, hmax', -⟩ := JobListing.property_jobFields server job
  rw [nextMaxAttempts, get_carried, get_carried, hmax, hmax', Option.map_some, Option.map_none,
    carried_integer hm, taken_some, truthy_integer hm]
  by_cases h : job.maxAttempts = 0
  · rw [if_neg (by simpa using h), if_pos h]
    rfl
  · rw [if_pos (by simpa using h), if_neg h]
    rfl

theorem nextBatchCount_carried :
    nextBatchCount (carried (.object (jobFields server job))) = .ok (.number (.read "1")) := by
  obtain ⟨-, -, -, -, -, hbatch, -⟩ := JobListing.property_jobFields server job
  rw [nextBatchCount, get_carried, hbatch]
  rfl

theorem rfc3339_ne_empty (zone : Time → Int) (t : Time) : rfc3339 zone t ≠ "" := by
  intro h
  have hlist := congrArg String.toList h
  rw [rfc3339, String.toList_ofList] at hlist
  exact absurd hlist (by simp)

theorem nextScheduledAt_carried (s : Composer) :
    nextScheduledAt s (carried (.object (jobFields server job))) =
      .ok ((job.scheduledAt.map fun t => slice (rfc3339 server t)).getD "") := by
  obtain ⟨-, -, -, -, -, -, hscheduled, -⟩ := JobListing.property_jobFields server job
  rw [nextScheduledAt, get_carried, hscheduled]
  cases job.scheduledAt with
  | none => rfl
  | some t =>
    have hstring : carried (.string (rfc3339 server t)) = .string (rfc3339 server t) := rfl
    rw [Option.map_some, Option.map_some, hstring, taken_some, truthy,
      if_pos (by simpa using rfc3339_ne_empty server t)]
    rfl

variable (server s) in
theorem importJob_carried (ht : jobTemplates.lookup job.jobType = some template)
    (hp : job.priority.natAbs < 2 ^ 53) (hm : job.maxAttempts.natAbs < 2 ^ 53) :
    importJob s (carried (.object (jobFields server job))) =
      .ok { imported server s template job with jsonError := s.jsonError } := by
  have hpayload : get "payload" (carried (.object (jobFields server job))) =
      some (carried job.payload) := by
    rw [get_carried, (JobListing.property_jobFields server job).2.2.2.2.2.2.2, Option.map_some]
  rw [importJob, nextType_carried ht]
  simp only [bind, Except.bind, ht, nextQueue_carried, nextPriority_carried _ hp,
    nextMaxAttempts_carried _ hm, nextBatchCount_carried, nextScheduledAt_carried, hpayload,
    Option.bind_some]
  rfl

variable (server) in
/-- What is read from the file, for the whole list. -/
theorem parse_exported (jobs : List Job) (h : ∀ j ∈ jobs, j.payload.valid) :
    ∃ scope, parse (marshalJobs server jobs) = some scope ∧
      parse (exportJobs scope) =
        some (.array (jobs.map fun j => carried (.object (jobFields server j)))) := by
  refine ⟨_, congrArg (Option.map ofJson) (JobListing.parse_marshalJobs h), ?_⟩
  rw [exportJobs, parse_stringify (canonical_ofJson _), ofJson, Json.tree_array, Value.map,
    Value.bind_array, Value.bind_array, List.map_map, List.map_map, List.map_map]
  rfl

variable (server) in
/-- From whatever state of the composer, the first job of the list is imported. -/
theorem importJobFile_exported {rest : List Job} (h : ∀ j ∈ job :: rest, j.payload.valid)
    (ht : jobTemplates.lookup job.jobType = some template) (hp : job.priority.natAbs < 2 ^ 53)
    (hm : job.maxAttempts.natAbs < 2 ^ 53) :
    ∃ scope, parse (marshalJobs server (job :: rest)) = some scope ∧
      ∀ s, importJobFile s (exportJobs scope) = some (imported server s template job) := by
  obtain ⟨scope, hscope, hfile⟩ := parse_exported server (job :: rest) h
  refine ⟨scope, hscope, fun s => ?_⟩
  have hjob := importJob_carried server s ht hp hm
  obtain ⟨members, hmembers⟩ : ∃ members, carried (.object (jobFields server job)) = .object members := by
    rw [carried, ofJson, Json.tree_object, Value.map, Value.bind_object, Value.bind_object]
    exact ⟨_, rfl⟩
  rw [importJobFile, hfile]
  simp only [List.map_cons, List.head?_cons, hmembers] at hjob ⊢
  rw [hjob]
  rfl

end JobFlow.Web.Import
