import JobFlow.Model.Job
import Mathlib.Data.List.Nodup
import Mathlib.Data.Option.Basic

/-!
# The statements of `JobRepository`

A table is its list of rows with the primary key as a field. Each SQL
statement is one function on the table, at the instant `NOW()` returns, and
gives the new table together with what the Go method returns.
-/

namespace JobFlow.Model.JobRepository

structure JobTable where
  rows : List Job
  key : (rows.map Job.id).Nodup

namespace JobTable

def empty : JobTable := ⟨[], .nil⟩

/-- `SELECT … WHERE id = $1`. -/
def find (t : JobTable) (id : String) : Option Job := t.rows.find? fun r => r.id = id

/-- A `SET` clause; none of them assigns the primary key. -/
structure Assignment where
  apply : Job → Job
  keepsID : ∀ r, (apply r).id = r.id

/-- `UPDATE … SET … WHERE … RETURNING …`. -/
def update (t : JobTable) (matching : Job → Bool) (set : Assignment) : JobTable × List Job :=
  (⟨t.rows.map fun r => if matching r then set.apply r else r, by
      rw [List.map_map, List.map_congr_left (g := Job.id)]
      · exact t.key
      · intro r _
        simp only [Function.comp_apply]
        split
        · exact set.keepsID r
        · rfl⟩,
    (t.rows.filter matching).map set.apply)

def insert (t : JobTable) (row : Job) (h : row.id ∉ t.rows.map Job.id) : JobTable :=
  ⟨t.rows ++ [row], by
    rw [List.map_append, List.map_singleton]
    exact t.key.append (List.nodup_singleton _) (by simpa using h)⟩

theorem mem_rows_iff (t : JobTable) (r : Job) : r ∈ t.rows ↔ t.find r.id = some r := by
  constructor
  · intro h
    cases hf : t.find r.id with
    | none => simpa using List.find?_eq_none.mp hf r h
    | some r' =>
      have hid : r'.id = r.id := by simpa using List.find?_some hf
      rw [List.inj_on_of_nodup_map t.key (List.mem_of_find?_eq_some hf) h hid]
  · exact fun h => List.mem_of_find?_eq_some h

theorem find_id {t : JobTable} {id : String} {r : Job} (h : t.find id = some r) : r.id = id := by
  simpa using List.find?_some h

theorem find_eq_none_iff (t : JobTable) (id : String) :
    t.find id = none ↔ id ∉ t.rows.map Job.id := by
  simp [find, List.find?_eq_none]

@[simp] theorem find_empty (id : String) : empty.find id = none := rfl

/-- An `UPDATE` acts on each row separately. -/
theorem find_update (t : JobTable) (matching : Job → Bool) (set : Assignment) (id : String) :
    (t.update matching set).1.find id =
      (t.find id).map fun r => if matching r then set.apply r else r := by
  have hid : (fun r : Job => decide ((if matching r then set.apply r else r).id = id)) =
      fun r => decide (r.id = id) := by
    funext r
    split
    · rw [set.keepsID]
    · rfl
  simp only [update, find, List.find?_map, Function.comp_def, hid]

/-- A statement on the row of one id, whatever the row holds. -/
theorem find_update_id (t : JobTable) (set : Assignment) (id : String) :
    (t.update (fun r => r.id = id) set).1.find id = (t.find id).map set.apply := by
  rw [find_update]
  cases hf : t.find id with
  | none => rfl
  | some r => simp [find_id hf]

theorem find_insert (t : JobTable) (row : Job) (h : row.id ∉ t.rows.map Job.id) (id : String) :
    (t.insert row h).find id = if id = row.id then some row else t.find id := by
  simp only [insert, find, List.find?_append, List.find?_singleton]
  by_cases heq : id = row.id
  · subst heq
    have hn := (t.find_eq_none_iff row.id).mpr h
    unfold find at hn
    simp [hn]
  · simp [heq, Ne.symm heq]

/-- A statement that names one id returns the row it changed, if it changed one. -/
theorem update_returned (t : JobTable) {matching : Job → Bool} (set : Assignment) {id : String}
    (hm : ∀ r, matching r → r.id = id) :
    (t.update matching set).2 =
      (((t.find id).filter matching).map set.apply).toList := by
  have hsub : t.rows.filter matching = ((t.find id).filter matching).toList := by
    have hlen : ∀ (rows : List Job), (rows.map Job.id).Nodup → rows.filter matching =
        ((rows.find? fun r => r.id = id).filter matching).toList := by
      intro rows
      induction rows with
      | nil => intro _; rfl
      | cons r rows ih =>
        intro hn
        rw [List.map_cons, List.nodup_cons] at hn
        by_cases hid : r.id = id
        · have hrest : rows.filter matching = [] := by
            rw [List.filter_eq_nil_iff]
            intro x hx hxm
            exact hn.1 (List.mem_map.mpr ⟨x, hx, (hm x hxm).trans hid.symm⟩)
          by_cases hr : matching r <;> simp [hid, hr, hrest, Option.filter]
        · have hr : ¬ matching r := fun h => hid (hm r h)
          rw [List.filter_cons_of_neg hr, ih hn.2, List.find?_cons_of_neg (by simpa using hid)]
    exact hlen t.rows t.key
  cases hf : (t.find id).filter matching <;> simp [update, hsub, hf]

/-- A statement that names one id changes that row alone, and only when the row
exists and satisfies the rest of the condition. -/
theorem update_one (t : JobTable) {matching : Job → Bool} (set : Assignment) {id : String}
    (hm : ∀ r, matching r → r.id = id) :
    (∃ row, t.find id = some row ∧ matching row ∧
      (t.update matching set).2 = [set.apply row] ∧
      ∀ j, (t.update matching set).1.find j = if j = id then some (set.apply row) else t.find j) ∨
    ((∀ row, t.find id = some row → ¬ matching row) ∧ (t.update matching set).2 = [] ∧
      ∀ j, (t.update matching set).1.find j = t.find j) := by
  have hother : ∀ j, j ≠ id → (t.update matching set).1.find j = t.find j := by
    intro j hj
    rw [find_update]
    cases hf : t.find j with
    | none => rfl
    | some r =>
      have hr : ¬ matching r := fun h => hj ((find_id hf).symm.trans (hm r h))
      simp [hr]
  have hself := find_update t matching set id
  have hret := update_returned t set hm
  cases hf : t.find id with
  | none =>
    refine .inr ⟨by simp, by simp [hret, hf], fun j => ?_⟩
    by_cases hj : j = id
    · rw [hj, hself, hf]; rfl
    · exact hother j hj
  | some row =>
    by_cases hr : matching row
    · refine .inl ⟨row, rfl, hr, by simp [hret, hf, hr, Option.filter], fun j => ?_⟩
      split
      · next hj => rw [hj, hself, hf]; simp [hr]
      · next hj => exact hother j hj
    · refine .inr ⟨by simp [hr], by simp [hret, hf, hr, Option.filter], fun j => ?_⟩
      by_cases hj : j = id
      · rw [hj, hself, hf]; simp [hr]
      · exact hother j hj

/-- A statement that matches no row leaves the table as it is. -/
theorem update_eq_self {t : JobTable} {matching : Job → Bool} {set : Assignment}
    (h : (t.update matching set).2 = []) : (t.update matching set).1 = t := by
  have hno : ∀ r ∈ t.rows, ¬ matching r :=
    List.filter_eq_nil_iff.mp (List.map_eq_nil_iff.mp h)
  have hrows : (t.rows.map fun r => if matching r then set.apply r else r) = t.rows :=
    (List.map_congr_left fun r hr => if_neg (hno r hr)).trans (List.map_id _)
  cases t
  simp only [update] at hrows ⊢
  congr 1

/-- The ids of the rows that satisfy a condition, each once. -/
theorem count_filter (t : JobTable) (P : Job → Bool) (id : String) :
    ((t.rows.filter P).map Job.id).count id = if (t.find id).any P then 1 else 0 := by
  have hmem : id ∈ (t.rows.filter P).map Job.id ↔ (t.find id).any P := by
    rw [List.mem_map]
    constructor
    · rintro ⟨r, hr, rfl⟩
      obtain ⟨hr, hP⟩ := List.mem_filter.mp hr
      rwa [(t.mem_rows_iff r).mp hr]
    · intro h
      cases hf : t.find id with
      | none => simp [hf] at h
      | some r =>
        rw [hf] at h
        have hrow := (t.mem_rows_iff r).mpr ((find_id hf).symm ▸ hf)
        exact ⟨r, List.mem_filter.mpr ⟨hrow, h⟩, find_id hf⟩
  split
  · next h =>
    exact List.count_eq_one_of_mem (t.key.sublist (List.filter_sublist.map _)) (hmem.mpr h)
  · next h => exact List.count_eq_zero.mpr (mt hmem.mp h)

end JobTable

open JobTable

/-- `VARCHAR(n)`: a longer text is refused unless only blanks are cut off. -/
def varchar (n : Nat) (s : String) : Option String :=
  if s.length ≤ n then some s
  else if (s.toList.drop n).all (· = ' ') then some (String.ofList (s.toList.take n))
  else none

/-- `INTEGER`. -/
def int4 (n : Int) : Bool := -2147483648 ≤ n && n ≤ 2147483647

/-- The row `Create` inserts: the status test of the Go code at its own clock
`reading`, the column types, and the column defaults at `now`. -/
def newRow (now reading : Time) (id : String) (p : CreateJobParams) : Option Job := do
  let queueName ← varchar 100 p.queueName
  let jobType ← varchar 100 p.jobType
  guard (int4 p.priority && int4 p.maxAttempts)
  return {
    id := id, userID := some p.userID, queueName := queueName, jobType := jobType
    payload := p.payload
    -- p.ScheduledAt != nil && p.ScheduledAt.After(time.Now().UTC())
    status := if p.scheduledAt.any (fun at_ => reading * 1000 < at_) then .scheduled else .queued
    priority := p.priority, attempts := 0, maxAttempts := p.maxAttempts, errorMessage := none
    -- the driver sends whole microseconds
    scheduledAt := p.scheduledAt.map (· / 1000)
    startedAt := none, completedAt := none, createdAt := now, updatedAt := now }

def create (t : JobTable) (now reading : Time) (id : String) (p : CreateJobParams) :
    JobTable × Except Err Job :=
  match newRow now reading id p with
  | none => (t, .error .constraint)
  | some row =>
    if h : row.id ∈ t.rows.map Job.id then (t, .error .constraint)
    else (t.insert row h, .ok row)

/-- `QueryRow(…).Scan(…)` on the rows a statement returned. -/
def scanRow (rows : List Job) : Except Err Job :=
  match rows with
  | [] => .error .noRows
  | row :: _ => .ok row

def findJob (t : JobTable) (id : String) : Except Err Job :=
  scanRow (t.find id).toList

def cancelWhere (id userID : String) (r : Job) : Bool :=
  r.id = id && r.userID = some userID &&
    (r.status = .queued || r.status = .scheduled || r.status = .retrying)

def cancelSet (now : Time) : Assignment :=
  ⟨fun r => { r with status := .cancelled, updatedAt := now }, fun _ => rfl⟩

/-- The number of rows affected; the Go method makes 0 an error. -/
def cancel (t : JobTable) (now : Time) (id userID : String) : JobTable × Nat :=
  let (t', rows) := t.update (cancelWhere id userID) (cancelSet now)
  (t', rows.length)

def runningWhere (id : String) (r : Job) : Bool :=
  r.id = id && (r.status = .queued || r.status = .retrying)

def runningSet (now : Time) : Assignment :=
  ⟨fun r => { r with status := .running, attempts := r.attempts + 1, startedAt := some now,
                     updatedAt := now }, fun _ => rfl⟩

def markRunning (t : JobTable) (now : Time) (id : String) : JobTable × Except Err Job :=
  let (t', rows) := t.update (runningWhere id) (runningSet now)
  (t', scanRow rows)

/-- `MarkRunning` starts a job that is queued or retrying and finds no other. -/
theorem markRunning_cases (t : JobTable) (now : Time) (id : String) :
    (∃ r, t.find id = some r ∧ runningWhere id r ∧
      (markRunning t now id).2 = .ok ((runningSet now).apply r) ∧
      (markRunning t now id).1.find id = some ((runningSet now).apply r)) ∨
    ((∀ r, t.find id = some r → ¬ runningWhere id r) ∧
      (markRunning t now id).2 = .error .noRows ∧
      (markRunning t now id).1.find id = t.find id) := by
  have hm : ∀ r, runningWhere id r → r.id = id := by
    intro r hw
    simp only [runningWhere, Bool.and_eq_true, decide_eq_true_eq] at hw
    exact hw.1
  unfold markRunning
  rcases update_one t (runningSet now) hm with ⟨r, hr, hw, hret, hfind⟩ | ⟨hno, hret, hfind⟩
  · exact .inl ⟨r, hr, hw, by simp [hret, scanRow], by simp [hfind]⟩
  · exact .inr ⟨hno, by simp [hret, scanRow], hfind id⟩

def completedSet (now : Time) : Assignment :=
  ⟨fun r => { r with status := .completed, errorMessage := none, completedAt := some now,
                     updatedAt := now }, fun _ => rfl⟩

/-- The Go method ignores the number of rows affected. -/
def markCompleted (t : JobTable) (now : Time) (id : String) : JobTable × Nat :=
  let (t', rows) := t.update (fun r => r.id = id) (completedSet now)
  (t', rows.length)

/-- No text parameter may hold the zero character. -/
def hasZero (text : String) : Bool := text.toList.contains (Char.ofNat 0)

def failedSet (now : Time) (message : String) : Assignment :=
  ⟨fun r => { r with status := if (r.attempts : Int) < r.maxAttempts then .retrying
                                else .deadLetter
                     errorMessage := some message, updatedAt := now }, fun _ => rfl⟩

/-- PostgreSQL refuses a message with a zero character, or one that is not UTF-8. This is the
statement where it runs; that it fails is a choice of the run, as for any other command. -/
def markFailed (t : JobTable) (now : Time) (id message : String) : JobTable × Except Err Job :=
  let (t', rows) := t.update (fun r => r.id = id) (failedSet now message)
  (t', scanRow rows)

/-- `MarkFailed` returns the row it wrote. -/
theorem markFailed_of_find {t : JobTable} {id : String} {r : Job} (hr : t.find id = some r)
    (now : Time) (message : String) :
    (markFailed t now id message).2 = .ok ((failedSet now message).apply r) ∧
      (markFailed t now id message).1.find id = some ((failedSet now message).apply r) := by
  have hm : ∀ r : Job, decide (r.id = id) → r.id = id := fun _ h => of_decide_eq_true h
  unfold markFailed
  rcases update_one t (failedSet now message) hm with ⟨r', hr', -, hret, hfind⟩ | ⟨hno, -⟩
  · obtain rfl : r = r' := Option.some.inj (hr.symm.trans hr')
    exact ⟨by simp [hret, scanRow], by simp [hfind]⟩
  · exact absurd (find_id hr) (by simpa using hno r hr)

def requeueWhere (id userID : String) (r : Job) : Bool :=
  r.id = id && r.userID = some userID && (r.status = .failed || r.status = .deadLetter)

def requeueSet (now : Time) : Assignment :=
  ⟨fun r => { r with status := .queued, errorMessage := none, updatedAt := now }, fun _ => rfl⟩

def requeue (t : JobTable) (now : Time) (id userID : String) : JobTable × Except Err Job :=
  let (t', rows) := t.update (requeueWhere id userID) (requeueSet now)
  (t', scanRow rows)

/-- `Requeue` revives the row of that user and id if it has failed, and otherwise
reports that there is none. -/
theorem requeue_cases (t : JobTable) (now : Time) (id userID : String) :
    (∃ r, t.find id = some r ∧ requeueWhere id userID r ∧
      (requeue t now id userID).2 = .ok ((requeueSet now).apply r) ∧
      ∀ j, (requeue t now id userID).1.find j =
        if j = id then some ((requeueSet now).apply r) else t.find j) ∨
    ((∀ r, t.find id = some r → ¬ requeueWhere id userID r) ∧
      requeue t now id userID = (t, .error .noRows)) := by
  have hm : ∀ r, requeueWhere id userID r → r.id = id := by
    intro r hw
    simp only [requeueWhere, Bool.and_eq_true, decide_eq_true_eq] at hw
    exact hw.1.1
  unfold requeue
  rcases update_one t (requeueSet now) hm with ⟨r, hr, hw, hret, hfind⟩ | ⟨hno, hret, -⟩
  · exact .inl ⟨r, hr, hw, by simp [hret, scanRow], hfind⟩
  · exact .inr ⟨hno, by simp [hret, scanRow, update_eq_self hret]⟩

/-- `Cancel` stops the row of that user and id if it has not started, and otherwise
affects none. -/
theorem cancel_cases (t : JobTable) (now : Time) (id userID : String) :
    (∃ r, t.find id = some r ∧ cancelWhere id userID r ∧ (cancel t now id userID).2 = 1 ∧
      ∀ j, (cancel t now id userID).1.find j =
        if j = id then some ((cancelSet now).apply r) else t.find j) ∨
    ((∀ r, t.find id = some r → ¬ cancelWhere id userID r) ∧
      cancel t now id userID = (t, 0)) := by
  have hm : ∀ r, cancelWhere id userID r → r.id = id := by
    intro r hw
    simp only [cancelWhere, Bool.and_eq_true, decide_eq_true_eq] at hw
    exact hw.1.1
  unfold cancel
  rcases update_one t (cancelSet now) hm with ⟨r, hr, hw, hret, hfind⟩ | ⟨hno, hret, -⟩
  · exact .inl ⟨r, hr, hw, by simp [hret], hfind⟩
  · exact .inr ⟨hno, by simp [hret, update_eq_self hret]⟩

/-- `status = 'scheduled' AND scheduled_at <= NOW()`; a null time is not due. -/
def isDue (now : Time) (r : Job) : Bool :=
  r.status = .scheduled && r.scheduledAt.any (· ≤ now)

/-- A possible answer of the inner `SELECT … ORDER BY scheduled_at ASC LIMIT $2`.
The order of equal times, and the order in which `UPDATE … RETURNING` reports
rows, are not fixed by SQL, so the answer is a choice. -/
def IsBatch (t : JobTable) (now : Time) (limit : Nat) (batch : List String) : Prop :=
  let due := t.rows.filter (isDue now)
  batch.Nodup ∧ (∀ id ∈ batch, id ∈ due.map Job.id) ∧
    batch.length = min limit due.length ∧
    ∀ r ∈ due, ∀ r' ∈ due, r.id ∈ batch → r'.id ∉ batch →
      r.scheduledAt.getD 0 ≤ r'.scheduledAt.getD 0

instance (t : JobTable) (now : Time) (limit : Nat) (batch : List String) :
    Decidable (IsBatch t now limit batch) := by
  unfold IsBatch
  infer_instance

def promotedSet (now : Time) : Assignment :=
  ⟨fun r => { r with status := .queued, updatedAt := now }, fun _ => rfl⟩

def readyScheduled (t : JobTable) (now : Time) (limit : Nat) (batch : List String) :
    Option (JobTable × List Job) :=
  if IsBatch t now limit batch then
    let t' := (t.update (fun r => r.id ∈ batch) (promotedSet now)).1
    some (t', batch.filterMap t'.find)
  else none

/-- Exactly the rows of the batch change, and all of them were due. -/
theorem readyScheduled_rows {t t' : JobTable} {now : Time} {limit : Nat} {batch : List String}
    {rows : List Job} (h : readyScheduled t now limit batch = some (t', rows)) :
    rows.map Job.id = batch ∧
    (∀ id ∈ batch, ∃ r, t.find id = some r ∧ isDue now r ∧
      t'.find id = some ((promotedSet now).apply r)) ∧
    ∀ id, id ∉ batch → t'.find id = t.find id := by
  unfold readyScheduled at h
  split at h
  case isFalse => cases h
  case isTrue hb =>
  obtain ⟨rfl, rfl⟩ := Prod.mk.inj (Option.some.inj h)
  have hdue : ∀ id ∈ batch, ∃ r, t.find id = some r ∧ isDue now r := by
    intro id hid
    obtain ⟨r, hr, rfl⟩ := List.mem_map.mp (hb.2.1 id hid)
    obtain ⟨hmem, hd⟩ := List.mem_filter.mp hr
    exact ⟨r, (t.mem_rows_iff r).mp hmem, hd⟩
  have hin : ∀ id ∈ batch, ∃ r, t.find id = some r ∧ isDue now r ∧
      (t.update (fun r => r.id ∈ batch) (promotedSet now)).1.find id =
        some ((promotedSet now).apply r) := by
    intro id hid
    obtain ⟨r, hr, hd⟩ := hdue id hid
    refine ⟨r, hr, hd, ?_⟩
    rw [find_update, hr, Option.map_some, if_pos]
    simpa [find_id hr] using hid
  refine ⟨?_, hin, ?_⟩
  · have hids : ∀ l : List String, l ⊆ batch →
        (l.filterMap (t.update (fun r => r.id ∈ batch) (promotedSet now)).1.find).map Job.id =
          l := by
      intro l
      induction l with
      | nil => intro _; rfl
      | cons id l ih =>
        intro hl
        obtain ⟨r, hr, _, hf⟩ := hin id (hl List.mem_cons_self)
        rw [List.filterMap_cons_some hf, List.map_cons,
          ih fun x hx => hl (List.mem_cons_of_mem _ hx)]
        exact congrArg (· :: l) (find_id hf)
    exact hids batch fun _ h => h
  · intro id hid
    rw [find_update]
    cases hf : t.find id with
    | none => rfl
    | some r =>
      have hr : r.id ∉ batch := find_id hf ▸ hid
      simp [hr]

/-- The fields of an inserted row that the other statements depend on. -/
theorem newRow_fields {now reading : Time} {id : String} {p : CreateJobParams} {row : Job}
    (h : newRow now reading id p = some row) :
    row.id = id ∧ row.userID = some p.userID ∧ varchar 100 p.queueName = some row.queueName ∧
    row.status = (if p.scheduledAt.any (fun at_ => reading * 1000 < at_) then .scheduled
      else .queued) ∧
    row.attempts = 0 ∧ row.maxAttempts = p.maxAttempts ∧ row.errorMessage = none ∧
    row.scheduledAt = p.scheduledAt.map (· / 1000) ∧ row.startedAt = none ∧
    row.completedAt = none ∧ row.createdAt = now := by
  simp only [newRow, Option.bind_eq_bind, Option.bind_eq_some_iff] at h
  obtain ⟨q, hq, ty, hty, _, hg, hrow⟩ := h
  cases hrow
  exact ⟨rfl, rfl, hq, rfl, rfl, rfl, rfl, rfl, rfl, rfl, rfl⟩

/-- A new row waits for its time if that lies after the reading, and is queued
otherwise. -/
theorem newRow_status {now reading : Time} {id : String} {p : CreateJobParams} {row : Job}
    (h : newRow now reading id p = some row) :
    (row.status = .scheduled ∧ ∃ t, p.scheduledAt = some t ∧ reading * 1000 < t) ∨
    (row.status = .queued ∧ ∀ t, p.scheduledAt = some t → t ≤ reading * 1000) := by
  rw [(newRow_fields h).2.2.2.1]
  cases ht : p.scheduledAt with
  | none => exact .inr ⟨rfl, by simp⟩
  | some t =>
    by_cases hlt : reading * 1000 < t
    · exact .inl ⟨by simp [hlt], t, rfl, hlt⟩
    · exact .inr ⟨by simp [hlt], by simpa using hlt⟩

/-- An insert adds one row under an unused id or changes nothing. -/
theorem create_cases (t : JobTable) (now reading : Time) (id : String) (p : CreateJobParams) :
    (∃ row, newRow now reading id p = some row ∧ t.find id = none ∧
      (create t now reading id p).2 = .ok row ∧
      ∀ j, (create t now reading id p).1.find j = if j = id then some row else t.find j) ∨
    create t now reading id p = (t, .error .constraint) := by
  unfold create
  split
  · exact .inr rfl
  · next row hrow =>
    have hid := (newRow_fields hrow).1
    split
    · exact .inr rfl
    · next hmem =>
      refine .inl ⟨row, hrow, (t.find_eq_none_iff id).mpr (hid ▸ hmem), rfl, fun j => ?_⟩
      rw [find_insert, hid]

end JobFlow.Model.JobRepository
