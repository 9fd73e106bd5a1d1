import JobFlow.Model.Job
import Mathlib.Logic.Function.Basic

/-!
# The `workers` table

The key column is a `UUID`, so a worker id is first read by PostgreSQL's UUID
syntax; texts of one UUID name one row. The statements are those of
`WorkerRepository`.
-/

namespace JobFlow.Model.WorkerRepository

def isHex (c : Char) : Bool :=
  ('0' ≤ c && c ≤ '9') || ('a' ≤ c && c ≤ 'f') || ('A' ≤ c && c ≤ 'F')

def dropHyphen : List Char → List Char
  | '-' :: cs => cs
  | cs => cs

/-- Read `n` bytes of two hex digits; the hyphen is optional after every second
byte but the last. Returns the digits and the unread rest. -/
def uuidBytes : Nat → List Char → Option (List Char × List Char)
  | 0, cs => some ([], cs)
  | n + 1, a :: b :: cs =>
    if isHex a && isHex b then
      (uuidBytes n (if n % 2 = 0 ∧ n ≠ 0 then dropHyphen cs else cs)).map fun (ds, rest) =>
        (a.toLower :: b.toLower :: ds, rest)
    else none
  | _ + 1, _ => none

/-- The UUID a text denotes, as its 32 digits. -/
def uuid (text : String) : Option String :=
  match text.toList with
  | '{' :: cs =>
    match uuidBytes 16 cs with
    | some (ds, ['}']) => some (String.ofList ds)
    | _ => none
  | cs =>
    match uuidBytes 16 cs with
    | some (ds, []) => some (String.ofList ds)
    | _ => none

/-- `model.Worker` without its id, which is the key. -/
structure Worker where
  hostname : String
  status : String
  lastHeartbeat : Time
  jobsProcessed : Nat
  jobsFailed : Nat
  createdAt : Time

abbrev WorkerTable := String → Option Worker

def heartbeat (t : WorkerTable) (now : Time) (id hostname status : String) :
    Except Err WorkerTable :=
  match uuid id with
  | none => .error .constraint
  | some key =>
    .ok (Function.update t key (some (match t key with
      | none => ⟨hostname, status, now, 0, 0, now⟩
      | some row => { row with hostname := hostname, status := status, lastHeartbeat := now })))

/-- `failed` selects the column the statement increments. -/
def incrementProcessed (t : WorkerTable) (now : Time) (id : String) (failed : Bool) :
    Except Err WorkerTable :=
  match uuid id with
  | none => .error .constraint
  | some key =>
    .ok (Function.update t key ((t key).map fun row =>
      if failed then { row with jobsFailed := row.jobsFailed + 1, lastHeartbeat := now }
      else { row with jobsProcessed := row.jobsProcessed + 1, lastHeartbeat := now }))

variable {id key : String}

/-- A text that is no `UUID` names no row, and the statements fail. -/
theorem statements_refused (h : uuid id = none) (t : WorkerTable) (now : Time) :
    (∀ hostname status, heartbeat t now id hostname status = .error .constraint) ∧
    ∀ failed, incrementProcessed t now id failed = .error .constraint := by
  unfold heartbeat incrementProcessed
  rw [h]
  exact ⟨fun _ _ => rfl, fun _ => rfl⟩

/-- A heartbeat writes its row, which keeps its counters and starts at zero. -/
theorem heartbeat_spec (h : uuid id = some key) (t : WorkerTable) (now : Time)
    (hostname status : String) :
    ∃ t' row, heartbeat t now id hostname status = .ok t' ∧ t' key = some row ∧
      row.hostname = hostname ∧ row.status = status ∧
      row.jobsProcessed = ((t key).map Worker.jobsProcessed).getD 0 ∧
      row.jobsFailed = ((t key).map Worker.jobsFailed).getD 0 ∧
      ∀ key', key' ≠ key → t' key' = t key' := by
  unfold heartbeat
  rw [h]
  refine ⟨_, _, rfl, Function.update_self .., ?_, ?_, ?_, ?_,
    fun key' hne => Function.update_of_ne hne ..⟩ <;> cases t key <;> rfl

/-- An increment counts in its row if there is one. -/
theorem incrementProcessed_spec (h : uuid id = some key) (t : WorkerTable) (now : Time)
    (failed : Bool) :
    ∃ t', incrementProcessed t now id failed = .ok t' ∧ (t key = none → t' key = none) ∧
      (∀ row, t key = some row → ∃ row', t' key = some row' ∧
        row'.jobsProcessed = row.jobsProcessed + (if failed then 0 else 1) ∧
        row'.jobsFailed = row.jobsFailed + (if failed then 1 else 0)) ∧
      ∀ key', key' ≠ key → t' key' = t key' := by
  unfold incrementProcessed
  rw [h]
  refine ⟨_, rfl, fun hnone => ?_, fun row hrow => ?_, fun key' hne => Function.update_of_ne hne ..⟩
  · rw [Function.update_self, hnone]
    rfl
  · rw [Function.update_self, hrow]
    refine ⟨_, rfl, ?_, ?_⟩ <;> cases failed <;> rfl

end JobFlow.Model.WorkerRepository
