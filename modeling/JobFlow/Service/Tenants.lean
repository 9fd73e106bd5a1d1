import JobFlow.Lib.Unwinding
import JobFlow.Model.JobHandler
import JobFlow.Service.Atomicity

/-!
# A user sees and changes only the user's own jobs

`List` filters in SQL, `Cancel` and `Retry` guard in SQL, and `Get` compares in Go. All
four depend on nothing but the rows of the user who asks: in two states that agree on
these rows every request is answered alike.
-/

namespace JobFlow.Service.Tenants

open JobFlow.Lib.Transition
open JobFlow.Model
open JobFlow.Model.JobRepository
open JobFlow.Model.RedisQueue
open Atomicity

variable {u id : String} {t t' t₁ t₂ : JobTable} {w w' w₁ w₂ w₁' w₂' : World} {turn : Turn}
  {response : Response} {P : Job → Bool} {choices : List Choice}

/-- Both tables hold the same rows of the user. -/
def Agree (u : String) (t t' : JobTable) : Prop :=
  ∀ row : Job, row.userID = some u → (t.find row.id = some row ↔ t'.find row.id = some row)

/-- Both tables hold the same rows of all others. -/
def Untouched (u : String) (t t' : JobTable) : Prop :=
  ∀ row : Job, row.userID ≠ some u → (t.find row.id = some row ↔ t'.find row.id = some row)

theorem Agree.refl (u : String) (t : JobTable) : Agree u t t := fun _ _ => .rfl

theorem Agree.symm (h : Agree u t t') : Agree u t' t := fun row hrow => (h row hrow).symm

theorem Agree.trans (h : Agree u t t₁) (h' : Agree u t₁ t₂) : Agree u t t₂ :=
  fun row hrow => (h row hrow).trans (h' row hrow)

theorem Untouched.refl (u : String) (t : JobTable) : Untouched u t t := fun _ _ => .rfl

theorem Untouched.trans (h : Untouched u t t₁) (h' : Untouched u t₁ t₂) : Untouched u t t₂ :=
  fun row hrow => (h row hrow).trans (h' row hrow)

/-- A condition that only the user's own rows satisfy. -/
def Owned (u : String) (P : Job → Bool) : Prop := ∀ row, P row → row.userID = some u

theorem owned_listWhere (u status : String) : Owned u (listWhere u status) := by
  intro row h
  simp only [listWhere, Bool.and_eq_true, decide_eq_true_eq] at h
  exact h.1

theorem owned_cancelWhere (u id : String) : Owned u (cancelWhere id u) := by
  intro row h
  simp only [cancelWhere, Bool.and_eq_true, decide_eq_true_eq] at h
  exact h.1.2

theorem owned_requeueWhere (u id : String) : Owned u (requeueWhere id u) := by
  intro row h
  simp only [requeueWhere, Bool.and_eq_true, decide_eq_true_eq] at h
  exact h.1.2

/-- Such a condition finds the same rows in both tables. -/
theorem Agree.find_filter (h : Agree u t t') (hP : Owned u P) (id : String) :
    (t.find id).filter P = (t'.find id).filter P := by
  have hmem : ∀ {t t' : JobTable}, Agree u t t' → ∀ row, (t.find id).filter P = some row →
      (t'.find id).filter P = some row := by
    intro t t' h row hrow
    obtain ⟨hfind, hPr⟩ := Option.filter_eq_some_iff.mp hrow
    obtain rfl := JobTable.find_id hfind
    exact Option.filter_eq_some_iff.mpr ⟨(h row (hP row hPr)).mp hfind, hPr⟩
  exact Option.ext fun row => ⟨hmem h row, hmem h.symm row⟩

theorem Agree.filter_perm (h : Agree u t t') (hP : Owned u P) :
    (t.rows.filter P).Perm (t'.rows.filter P) := by
  have hnodup : ∀ t : JobTable, (t.rows.filter P).Nodup := fun t =>
    (List.Nodup.of_map _ t.key).filter _
  rw [List.perm_ext_iff_of_nodup (hnodup t) (hnodup t')]
  intro row
  simp only [List.mem_filter, JobTable.mem_rows_iff]
  exact and_congr_left fun hPr => h row (hP row hPr)

/-- A listing of the user's rows is possible in both tables or in neither. -/
theorem Agree.isListing (h : Agree u t t') {status : String} {limit : Nat} {ids : List String}
    (hl : IsListing t u status limit ids) :
    IsListing t' u status limit ids ∧ ids.filterMap t.find = ids.filterMap t'.find := by
  obtain ⟨hnodup, hmem, hlen, hsorted, hnewest⟩ := hl
  have hperm := h.filter_perm (owned_listWhere u status)
  have hsame : ids.filterMap t.find = ids.filterMap t'.find := by
    refine List.filterMap_congr fun id hid => ?_
    obtain ⟨row, hrow, rfl⟩ := List.mem_map.mp (hmem id hid)
    obtain ⟨hin, hw⟩ := List.mem_filter.mp hrow
    have hfind := (t.mem_rows_iff row).mp hin
    rw [hfind, (h row (owned_listWhere u status row hw)).mp hfind]
  refine ⟨⟨hnodup, fun id hid => ?_, hlen.trans (by rw [hperm.length_eq]), hsame ▸ hsorted, ?_⟩,
    hsame⟩
  · exact ((hperm.map Job.id).mem_iff).mp (hmem id hid)
  · intro r hr r' hr'
    exact hnewest r (hperm.mem_iff.mpr hr) r' (hperm.mem_iff.mpr hr')

theorem Agree.list (h : Agree u t t') (status : String) (limit : Int) (ids : List String) :
    JobRepository.list t u status limit ids = JobRepository.list t' u status limit ids := by
  unfold JobRepository.list
  by_cases hl : IsListing t u status (listLimit limit) ids
  · obtain ⟨hl', hsame⟩ := h.isListing hl
    rw [if_pos hl, if_pos hl', hsame]
  · rw [if_neg hl, if_neg fun hl' => hl (h.symm.isListing hl').1]

/-- The table after a statement has set the row of `id`. -/
def SetRow (id : String) (row : Job) (t t' : JobTable) : Prop :=
  ∀ j, t'.find j = if j = id then some row else t.find j

/-- The same change of one of the user's rows keeps both tables in agreement. -/
theorem Agree.setRow {row : Job} (h : Agree u t t') (hset : SetRow id row t t₁)
    (hset' : SetRow id row t' t₂) : Agree u t₁ t₂ := by
  intro r hr
  rw [hset, hset']
  split
  · exact .rfl
  · exact h r hr

theorem untouched_setRow {row row' : Job} (hrow : t.find id = some row)
    (howner : row.userID = some u) (hset : SetRow id row' t t')
    (hkeeps : row'.userID = row.userID) : Untouched u t t' := by
  intro r hr
  rw [hset]
  split
  · next hid =>
    rw [hid, hrow]
    constructor
    · intro heq
      obtain rfl := Option.some.inj heq
      exact absurd howner hr
    · intro heq
      obtain rfl := Option.some.inj heq
      exact absurd (hkeeps.trans howner) hr
  · exact .rfl

/-- A request that found the two tables answered alike, and left in each the rows of
the others. -/
inductive Alike {α : Type} (u : String) (t t' : JobTable) :
    Option (World × α) → Option (World × α) → Prop
  | stuck : Alike u t t' none none
  | answered {w w' : World} (a : α) (h : Agree u w.jobs w'.jobs) (hw : Untouched u t w.jobs)
      (hw' : Untouched u t' w'.jobs) : Alike u t t' (some (w, a)) (some (w', a))

/-- Both worlds agree now, and nobody else's rows have changed since the tables. -/
structure Kept (u : String) (t t' : JobTable) (w w' : World) : Prop where
  agree : Agree u w.jobs w'.jobs
  left : Untouched u t w.jobs
  right : Untouched u t' w'.jobs

theorem Kept.alike {α : Type} (h : Kept u t t' w w') (a : α) :
    Alike u t t' (some (w, a)) (some (w', a)) := .answered a h.agree h.left h.right

theorem Alike.map {α β : Type} {x x' : Option (World × α)} (h : Alike u t t' x x') (f : α → β) :
    Alike u t t' (x.map fun y => (y.1, f y.2)) (x'.map fun y => (y.1, f y.2)) := by
  cases h with
  | stuck => exact .stuck
  | answered a h hw hw' => exact .answered (f a) h hw hw'

/-- Two calls at a point with a command are alike if their first choices lead to it. -/
theorem Alike.call {pc : Pc} {cmd : Cmd} {next : Reply → Pc} (hcode : pc.code = some (cmd, next))
    (hstep : ∀ c rest, choices = c :: rest → Alike u t t'
      (if c.fails then call w (next (.err .unavailable)) rest
        else (exec w c.env cmd).bind fun x => call x.1 (next x.2) rest)
      (if c.fails then call w' (next (.err .unavailable)) rest
        else (exec w' c.env cmd).bind fun x => call x.1 (next x.2) rest)) :
    Alike u t t' (call w pc choices) (call w' pc choices) := by
  cases choices with
  | nil =>
    rw [call_nil hcode, call_nil hcode]
    exact .stuck
  | cons c rest =>
    rw [call_cons hcode, call_cons hcode]
    exact hstep c rest rfl

/-- Publishing an event and returning does not touch the table. -/
theorem Kept.call_announced (h : Kept u t t' w w') {pc : Pc} {event : Event} {after : Reply → Pc}
    {result : Option Job} (hcode : pc.code = some (.publish event, after))
    (hret : ∀ r, after r = .returned (.ok result)) :
    Alike u t t' (call w pc choices) (call w' pc choices) := by
  refine .call hcode fun c rest _ => ?_
  cases c.fails with
  | true =>
    simp only [if_true, hret, call_returned]
    exact h.alike _
  | false =>
    simp only [Bool.false_eq_true, if_false, exec, Option.bind_some, hret, call_returned]
    exact .answered _ h.agree h.left h.right

/-- Nor does an `Enqueue` that succeeds in both worlds. -/
theorem Kept.call_enqueued (h : Kept u t t' w w') {pc : Pc} {row : Job} (hpc : Enqueues pc row)
    (hok : ∀ c rest, choices = c :: rest → ¬ EnqueueFails w row c)
    (hok' : ∀ c rest, choices = c :: rest → ¬ EnqueueFails w' row c) :
    Alike u t t' (call w pc choices) (call w' pc choices) := by
  obtain ⟨next, hcode, -, event, after, hpub, hret⟩ := hpc.code
  refine .call hcode fun c rest heq => ?_
  obtain ⟨hc, hlist⟩ := not_or.mp (hok c rest heq)
  obtain ⟨-, hlist'⟩ := not_or.mp (hok' c rest heq)
  obtain ⟨w₁, hx⟩ := exec_enqueue_ok (not_exists.mp hlist) c.env
  obtain ⟨w₂, hx'⟩ := exec_enqueue_ok (not_exists.mp hlist') c.env
  rw [if_neg hc, if_neg hc, hx, hx']
  have hjobs : w₁.jobs = w.jobs := Runs.Steps.exec_jobs hx rfl
  have hjobs' : w₂.jobs = w'.jobs := Runs.Steps.exec_jobs hx' rfl
  have hkept : Kept u t t' w₁ w₂ :=
    ⟨hjobs ▸ hjobs' ▸ h.agree, hjobs ▸ h.left, hjobs' ▸ h.right⟩
  exact hkept.call_announced hpub hret

/-- Both worlds are as they were before the request. -/
theorem Agree.kept (h : Agree u w.jobs w'.jobs) : Kept u w.jobs w'.jobs w w' :=
  ⟨h, .refl u _, .refl u _⟩

/-- A row that the user's condition selects in one table is in both. -/
theorem Agree.find_both (h : Agree u t t') (hP : Owned u P) {row : Job}
    (hrow : t.find id = some row) (hPr : P row) : t'.find id = some row := by
  obtain rfl := JobTable.find_id hrow
  exact (h row (hP row hPr)).mp hrow

theorem Agree.call_cancel (h : Agree u w.jobs w'.jobs) (hclock : w.clock = w'.clock) :
    Alike u w.jobs w'.jobs (call w (Pc.request (.cancel id u)) choices)
      (call w' (Pc.request (.cancel id u)) choices) := by
  have hcode : (Pc.request (.cancel id u)).code = some (.cancelJob id u, _) := rfl
  refine .call hcode fun c rest _ => ?_
  cases c.fails with
  | true =>
    simp only [if_true, call_returned]
    exact h.kept.alike _
  | false =>
    simp only [Bool.false_eq_true, if_false, exec, Option.bind_some]
    rcases cancel_cases w.jobs w.clock id u with ⟨row, hrow, hw, hn, hset⟩ | ⟨hno, hsame⟩
    · have hrow' := h.find_both (owned_cancelWhere u id) hrow hw
      rcases cancel_cases w'.jobs w'.clock id u with ⟨_, hrow₁, -, hn', hset'⟩ | ⟨hno', -⟩
      · cases hrow'.symm.trans hrow₁
        rw [← hclock] at hn' hset' ⊢
        rw [hn, hn']
        have howner := owned_cancelWhere u id row hw
        refine Kept.call_announced ⟨?_, ?_, ?_⟩ rfl fun _ => rfl
        · exact h.setRow hset hset'
        · exact untouched_setRow hrow howner hset rfl
        · exact untouched_setRow hrow' howner hset' rfl
      · exact absurd hw (hno' row hrow')
    · rcases cancel_cases w'.jobs w'.clock id u with ⟨row, hrow', hw, -⟩ | ⟨-, hsame'⟩
      · exact absurd hw (hno row (h.symm.find_both (owned_cancelWhere u id) hrow' hw))
      · simp only [hsame, hsame', onJobs, call_returned]
        exact h.kept.alike _

theorem Agree.call_retry (h : Agree u w.jobs w'.jobs) (hclock : w.clock = w'.clock)
    (hok : ¬ HalfDone w (.retry id u) choices) (hok' : ¬ HalfDone w' (.retry id u) choices) :
    Alike u w.jobs w'.jobs (call w (Pc.request (.retry id u)) choices)
      (call w' (Pc.request (.retry id u)) choices) := by
  have hcode : (Pc.request (.retry id u)).code = some (.requeueJob id u, _) := rfl
  refine .call hcode fun c rest heq => ?_
  subst heq
  cases hc : c.fails with
  | true =>
    simp only [if_true, call_returned]
    exact h.kept.alike _
  | false =>
    simp only [Bool.false_eq_true, if_false, exec, Option.bind_some]
    rcases requeue_cases w.jobs w.clock id u with ⟨row, hrow, hw, hret, hset⟩ | ⟨hno, hsame⟩
    · have hrow' := h.find_both (owned_requeueWhere u id) hrow hw
      rcases requeue_cases w'.jobs w'.clock id u with ⟨_, hrow₁, -, hret', hset'⟩ | ⟨hno', -⟩
      · cases hrow'.symm.trans hrow₁
        rw [← hclock] at hret' hset' ⊢
        rw [hret, hret']
        have howner := owned_requeueWhere u id row hw
        have hqueued : ∀ {w : World}, w.jobs.find id = some row → ∀ {c' : Choice} {later},
            rest = c' :: later → ¬ HalfDone w (.retry id u) (c :: rest) →
            ¬ EnqueueFails w row c' := by
          rintro w hrow c' later rfl hok hf
          exact hok ⟨c, c', later, row, rfl, hc, by simp [queuedRow, hrow, hw, Option.filter], hf⟩
        refine Kept.call_enqueued ⟨?_, ?_, ?_⟩ (enqueues_retry _) ?_ ?_
        · exact h.setRow hset hset'
        · exact untouched_setRow hrow howner hset rfl
        · exact untouched_setRow hrow' howner hset' rfl
        · exact fun c' later heq => hqueued hrow heq hok
        · exact fun c' later heq => hqueued hrow' heq hok'
      · exact absurd hw (hno' row hrow')
    · rcases requeue_cases w'.jobs w'.clock id u with ⟨row, hrow', hw, -⟩ | ⟨-, hsame'⟩
      · exact absurd hw (hno row (h.symm.find_both (owned_requeueWhere u id) hrow' hw))
      · simp only [hsame, hsame', onJobs, ofRow, call_returned]
        exact h.kept.alike _

/-- `Get` answers with the user's job under that id, and makes no difference between the
job of somebody else and none. -/
theorem found_eq (w : World) (u id : String) (turn : Turn) :
    JobHandler.found u (JobHandler.find w id turn) =
      match (if turn.commands.head?.map Choice.fails = some false then parseID id else none).bind
        fun key => (w.jobs.find key).filter fun row => row.userID = some u with
      | none => ⟨404, .error "job not found"⟩
      | some job => ⟨200, .job job⟩ := by
  unfold JobHandler.find
  generalize turn.commands.head?.map Choice.fails = c
  cases parseID id with
  | none => rcases c with - | - | - <;> rfl
  | some key =>
    rcases c with - | - | -
    · rfl
    · cases hf : w.jobs.find key with
      | none => simp [findJob, hf, scanRow, Except.mapError, JobHandler.found]
      | some job =>
        by_cases howner : job.userID = some u <;>
          simp [findJob, hf, scanRow, Except.mapError, JobHandler.found, howner, Option.filter]
    · rfl

theorem Agree.get (h : Agree u w.jobs w'.jobs) (id : String) (turn : Turn) :
    Alike u w.jobs w'.jobs (JobHandler.get w u id turn) (JobHandler.get w' u id turn) := by
  unfold JobHandler.get
  split
  · exact .stuck
  · have howned : Owned u fun row => row.userID = some u := fun _ hrow => of_decide_eq_true hrow
    simp only [found_eq, h.find_filter howned]
    exact h.kept.alike _

theorem Agree.listed (h : Agree u w.jobs w'.jobs) (status limit : Option String) (turn : Turn) :
    Alike u w.jobs w'.jobs (JobHandler.list w u status limit turn)
      (JobHandler.list w' u status limit turn) := by
  unfold JobHandler.list
  split
  · exact .stuck
  · rw [h.list]
    split
    · exact h.kept.alike _
    · split
      · exact h.kept.alike _
      · cases JobRepository.list w'.jobs u _ _ _ with
        | none => exact .stuck
        | some jobs => exact h.kept.alike _

/-- The `Enqueue` of a `Retry` does not fail. Every other request issues no Redis command
that it waits for. -/
def RedisSucceeds (u : String) (w : World) : JobRequest × Turn → Prop
  | (.retry id, turn) => ∀ key, parseID id = some key →
      ¬ HalfDone { w with clock := turn.now } (.retry key u) turn.commands
  | _ => True

theorem serve_alike (h : Agree u w.jobs w'.jobs) {l : JobRequest × Turn}
    (hok : RedisSucceeds u w l) (hok' : RedisSucceeds u w' l) :
    Alike u w.jobs w'.jobs (JobHandler.serve u w l) (JobHandler.serve u w' l) := by
  obtain ⟨request, turn⟩ := l
  have hnow : Agree u { w with clock := turn.now }.jobs { w' with clock := turn.now }.jobs := h
  have hrefused : ∀ f : Choice → Response, Alike u w.jobs w'.jobs
      (turn.commands.head?.map fun c => ({ w with clock := turn.now }, f c))
      (turn.commands.head?.map fun c => ({ w' with clock := turn.now }, f c)) := by
    intro f
    cases turn.commands with
    | nil => exact .stuck
    | cons c rest => exact hnow.kept.alike _
  cases request with
  | list status limit => exact hnow.listed status limit turn
  | get id => exact hnow.get id turn
  | cancel id =>
    simp only [JobHandler.serve, JobHandler.cancel, JobHandler.act]
    split
    · exact hrefused _
    · exact (hnow.call_cancel rfl).map _
  | retry id =>
    simp only [JobHandler.serve, JobHandler.retry, JobHandler.act]
    split
    · exact hrefused _
    · next key hkey => exact (hnow.call_retry rfl (hok key hkey) (hok' key hkey)).map _

/-- For any two states that agree on the rows of a user and any sequence of requests by
that user, with the same choices of the environment and no Redis command failing: the
responses are the same, the rows of the user end up the same, and all other rows are
left as they were. -/
theorem tenant_isolation {requests : List (JobRequest × Turn)} {responses : List Response}
    (h : Agree u w₁.jobs w₂.jobs)
    (hok₁ : Admitted (JobHandler.serve u) (RedisSucceeds u) w₁ requests)
    (hok₂ : Admitted (JobHandler.serve u) (RedisSucceeds u) w₂ requests)
    (hrun : execute (JobHandler.serve u) w₁ requests = some (w₁', responses)) :
    ∃ w₂', execute (JobHandler.serve u) w₂ requests = some (w₂', responses) ∧
      Agree u w₁'.jobs w₂'.jobs ∧ Untouched u w₁.jobs w₁'.jobs ∧
      Untouched u w₂.jobs w₂'.jobs := by
  have hunwinds : Unwinds (JobHandler.serve u) (JobHandler.serve u) (RedisSucceeds u)
      (RedisSucceeds u) (Kept u w₁.jobs w₂.jobs) Eq Eq := by
    rintro w w' l _ v a hkept rfl hok hok' hs
    have halike := serve_alike hkept.agree hok hok'
    rw [hs] at halike
    generalize hs' : JobHandler.serve u w' l = x at halike
    cases halike with
    | answered _ hagree hleft hright =>
      exact ⟨_, a, rfl, ⟨hagree, hkept.left.trans hleft, hkept.right.trans hright⟩, rfl⟩
  obtain ⟨w₂', responses', hrun', hkept, hsame⟩ := hunwinds.execute h.kept
    (List.forall₂_eq_eq_eq ▸ rfl) hok₁ hok₂ hrun
  obtain rfl : responses = responses' := by rwa [List.forall₂_eq_eq_eq] at hsame
  exact ⟨w₂', hrun', hkept.agree, hkept.left, hkept.right⟩

theorem agree_of_rows (h : (t.rows.filter fun row => row.userID = some u) =
    t'.rows.filter fun row => row.userID = some u) : Agree u t t' := by
  intro row hrow
  have hmem : row ∈ t.rows ↔ row ∈ t'.rows := by
    simpa [List.mem_filter, hrow] using congrArg (row ∈ ·) h
  rw [← t.mem_rows_iff, hmem, t'.mem_rows_iff]

/-- With no list in Redis an `Enqueue` fails only by choice. -/
theorem redisSucceeds_of_choices (hlist : ∀ key items, w.redis key ≠ some (.list items))
    {request : JobRequest} (hc : ∀ c ∈ turn.commands, c.fails = false) :
    RedisSucceeds u w (request, turn) := by
  cases request with
  | list | get | cancel => trivial
  | retry id =>
    rintro key - ⟨c, c', rest, row, hcommands, -, -, hfails | ⟨items, hitems⟩⟩
    · have hc' := hc c' (by simp [hcommands])
      cases hc'.symm.trans hfails
    · exact hlist _ items hitems

/-- The dead-lettered job of `u1`, under an id of the form the column gives back. -/
def ownJob : Job where
  id := "00000000-0000-0000-0000-000000000001"
  userID := some "u1"
  queueName := "default"
  jobType := "send_email"
  payload := .object []
  status := .deadLetter
  priority := 0
  attempts := 3
  maxAttempts := 3
  errorMessage := some "forced failure"
  scheduledAt := none
  startedAt := some 0
  completedAt := none
  createdAt := 0
  updatedAt := 0

def alone : World := { World.initial with jobs := ⟨[ownJob], by decide⟩ }

/-- With a queued job of `u2` beside it. -/
def shared : World :=
  { World.initial with jobs := ⟨[
      { ownJob with id := "00000000-0000-0000-0000-000000000002", userID := some "u2"
                    status := .queued }, ownJob], by decide⟩ }

/-- Without a `Retry` no request waits for Redis. -/
theorem admitted_of_not_retry {ls : List (JobRequest × Turn)}
    (h : ∀ l ∈ ls, ∀ id, l.1 ≠ .retry id) (w : World) :
    Admitted (JobHandler.serve u) (RedisSucceeds u) w ls := by
  induction ls generalizing w with
  | nil => trivial
  | cons l ls ih =>
    obtain ⟨request, turn⟩ := l
    constructor
    · cases request with
      | list | get | cancel => trivial
      | retry id => exact absurd rfl (h _ List.mem_cons_self id)
    · split
      · trivial
      · exact ih (fun l hl => h l (List.mem_cons_of_mem _ hl)) _

/-- `u1` retries its own job, and then lists, asks for the job of `u2` and tries to
cancel that. -/
def requests : List (JobRequest × Turn) :=
  [(.retry "00000000000000000000000000000001", { now := 1, commands := [{}, {}, {}] }),
    (.list none none, { now := 2, commands := [{}], listing := [ownJob.id] }),
    (.get "00000000-0000-0000-0000-000000000002", { now := 3, commands := [{}] }),
    (.cancel "00000000-0000-0000-0000-000000000002", { now := 4, commands := [{}] })]

theorem requests_run : (execute (JobHandler.serve "u1") alone requests).isSome := by decide

theorem requests_admitted {w : World} (h : w.redis = .empty) :
    Admitted (JobHandler.serve "u1") (RedisSucceeds "u1") w requests := by
  constructor
  · refine redisSucceeds_of_choices (fun key items hlist => ?_) (by decide)
    rw [h] at hlist
    cases hlist
  · split
    · trivial
    · exact admitted_of_not_retry (by simp) _

theorem tenant_isolation_shared : ∃ w₁ w₂ responses,
    execute (JobHandler.serve "u1") alone requests = some (w₁, responses) ∧
    execute (JobHandler.serve "u1") shared requests = some (w₂, responses) ∧
    responses.map Response.status = [200, 200, 404, 400] ∧
    Agree "u1" w₁.jobs w₂.jobs ∧ Untouched "u1" alone.jobs w₁.jobs ∧
    Untouched "u1" shared.jobs w₂.jobs := by
  have hagree : Agree "u1" alone.jobs shared.jobs := agree_of_rows rfl
  have hrun := (Option.some_get requests_run).symm
  obtain ⟨w₂, hrun', hagree', hleft, hright⟩ :=
    tenant_isolation hagree (requests_admitted rfl) (requests_admitted rfl) hrun
  exact ⟨_, w₂, _, hrun, hrun', by decide, hagree', hleft, hright⟩

end JobFlow.Service.Tenants
