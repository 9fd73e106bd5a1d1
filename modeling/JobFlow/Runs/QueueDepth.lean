import JobFlow.Model.Dashboard
import JobFlow.Runs.Ownership
import JobFlow.Runs.Tokens

/-!
# The depth of a queue

The entries of a queue are the jobs a worker could start next, as long as nothing
takes a job away from its entry. `Cancel` does, since it changes the row alone, and
so does `PromoteRetries` where it enqueues a job that was cancelled or started in
the meantime. In runs without these two the token of each job is where its row says.
-/

namespace JobFlow.Runs.QueueDepth

open JobFlow.Lib
open JobFlow.Model
open JobFlow.Model.JobRepository
open JobFlow.Model.RedisQueue
open JobFlow.Lib.Transition
open ControlFlow Steps Carried Entries History Ownership Delivery Batches Tokens

variable {s s' : State} {l : Label} {a : Act} {p q : Pid} {m : Mode} {e : Env} {cmd : Cmd}
  {next : Reply → Pc} {r : Reply} {id : String} {job : Job} {x : Place} {tr : List Act}

/-- A `Cancel` takes effect only on a job that is in no queue and that no goroutine is
about to enqueue. -/
def CancelsUnqueued (s : State) (l : Label) : Prop :=
  ∀ s' id, step s l = some (s', .cancelled id) →
    .queue ∉ places s id ∧ ∀ q, ¬ readies id (s.procs q)

/-- `PromoteRetries` enqueues only a job that is still retrying and that no worker has. -/
def EnqueuesRetrying (s : State) : Label → Prop
  | .run p _ _ => ∀ job id ids, s.procs p = .retriesEnqueue job id ids →
      (∃ r, row s id = some r ∧ r.status = .retrying) ∧ ∀ q, ¬ handles id (s.procs q)
  | _ => True

/-- The conditions under which a queue holds what it should. -/
structure Orderly (s : State) (l : Label) : Prop where
  steady : Steady s l
  apart : Apart s l
  cancels : CancelsUnqueued s l
  promotes : EnqueuesRetrying s l

/-- The row of a job has one of the given statuses. -/
def RowIs (s : State) (id : String) (P : Status → Prop) : Prop :=
  ∃ r, row s id = some r ∧ P r.status

def IsWaiting (st : Status) : Prop := st = .queued ∨ st = .retrying

/-- The status, or the job was cancelled in it. -/
def OrCancelled (P : Status → Prop) (st : Status) : Prop := P st ∨ st = .cancelled

/-- Where the token of a job is agrees with its row. -/
structure Placed (s : State) : Prop where
  one : ∀ id, (places s id).Subsingleton
  queued : ∀ id, .queue ∈ places s id → RowIs s id IsWaiting
  readied : ∀ p id, readies id (s.procs p) → RowIs s id (· = .queued)
  popped : ∀ p w id, s.procs p = .markRunning w id → RowIs s id (OrCancelled IsWaiting)
  executed : ∀ p id, executes id (s.procs p) → RowIs s id (· = .running)
  delayed : ∀ p job, delays (s.procs p) = some job →
    RowIs s job.id (OrCancelled (· = .retrying))
  resting : ∀ id, s.world.redis.zscore retriesKey id ≠ none →
    (∀ q, ¬ removing id (s.procs q)) →
    RowIs s id (OrCancelled (· = .retrying)) ∧ places s id = ∅

/-- The three stages in which a worker has a job. -/
theorem handles_cases {pc : Pc} (h : handles id pc) :
    (∃ w, pc = .markRunning w id) ∨ executes id pc ∨ ∃ job, delays pc = some job ∧ job.id = id := by
  cases pc with
  | markRunning w i =>
    obtain rfl : i = id := h
    exact .inl ⟨w, rfl⟩
  | publishRunning | process | markCompleted | markFailed => exact .inr (.inl h)
  | countFailed w job => exact .inr (.inr ⟨job, by simp [delays, h.2], h.1⟩)
  | enqueueAfter w job => exact .inr (.inr ⟨job, rfl, h⟩)
  | _ => exact h.elim

theorem handles_of_executes {pc : Pc} (h : executes id pc) : handles id pc := by
  cases pc <;> first | exact h | exact h.elim

/-- The job waits, is running or was cancelled. -/
def IsActive (st : Status) : Prop := OrCancelled (fun st => IsWaiting st ∨ st = .running) st

theorem RowIs.imp {P Q : Status → Prop} (h : RowIs s id P) (hPQ : ∀ st, P st → Q st) :
    RowIs s id Q := by
  obtain ⟨r, hr, hst⟩ := h
  exact ⟨r, hr, hPQ _ hst⟩

/-- A job with a token has an active row. -/
theorem Placed.occupied (h : Placed s) (hx : x ∈ places s id) : RowIs s id IsActive := by
  cases x with
  | queue => exact (h.queued id hx).imp fun _ hst => .inl (.inl hst)
  | holder p =>
    rcases hx with hr | hh
    · exact (h.readied p id hr).imp fun _ hst => .inl (.inl (.inl hst))
    · rcases handles_cases hh with ⟨w, hpc⟩ | hex | ⟨job, hd, rfl⟩
      · exact (h.popped p w id hpc).imp fun _ hst => hst.imp_left .inl
      · exact (h.executed p id hex).imp fun _ hst => .inl (.inr hst)
      · exact (h.delayed p job hd).imp fun _ hst => hst.imp_left fun hst => .inl (.inr hst)

/-- An active row is changed only by a `Cancel`, by the goroutine that marks it running,
or by one that executes it. -/
theorem row_kept_of_active (hs : step s l = some (s', a)) (hrow : RowIs s id IsActive) :
    row s' id = row s id ∨ (a = .cancelled id ∧ RowIs s' id (· = .cancelled)) ∨
      ∃ p, actedBy p a ∧ ((∃ w, s.procs p = .markRunning w id) ∨ executes id (s.procs p)) := by
  obtain ⟨r₀, hr₀, hst⟩ := hrow
  have hstep := step_row hs id
  rw [hr₀] at hstep
  generalize hnew : row s' id = row' at hstep
  have hno : ∀ {Q : Prop}, r₀.status = .failed ∨ r₀.status = .deadLetter ∨
      r₀.status = .scheduled → Q := by
    rintro Q hvacant
    unfold IsActive OrCancelled IsWaiting at hst
    rcases hvacant with h | h | h <;> simp [h] at hst
  cases hstep with
  | same => exact .inl hr₀.symm
  | cancelled => exact .inr (.inl ⟨rfl, _, hnew, rfl⟩)
  | requeued hpc hw =>
    simp only [requeueWhere, Bool.and_eq_true, Bool.or_eq_true, decide_eq_true_eq] at hw
    exact hno (hw.2.imp_right .inl)
  | promoted hpc hid hd =>
    simp only [isDue, Bool.and_eq_true, decide_eq_true_eq] at hd
    exact hno (.inr (.inr hd.1))
  | @running p w _ hpc hw => exact .inr (.inr ⟨p, rfl, .inl ⟨w, hpc⟩⟩)
  | @completed p w job _ hpc hid => exact .inr (.inr ⟨p, rfl, .inr (by rw [hpc]; exact hid)⟩)
  | @failed p w job _ message hpc hid =>
    exact .inr (.inr ⟨p, rfl, .inr (by rw [hpc]; exact hid)⟩)

theorem holds_of_moves (h : (∃ w, s.procs p = .markRunning w id) ∨ executes id (s.procs p)) :
    holds id (s.procs p) := by
  rcases h with ⟨w, hpc⟩ | hex
  · rw [hpc]
    exact .inr rfl
  · exact .inr (handles_of_executes hex)

/-- The row of a job with a token is changed only by a `Cancel` or by the goroutine that
holds it. -/
theorem Placed.row_kept (h : Placed s) (hs : step s l = some (s', a)) (hx : x ∈ places s id) :
    row s' id = row s id ∨ (a = .cancelled id ∧ RowIs s' id (· = .cancelled)) ∨
      ∃ p, x = .holder p ∧ actedBy p a ∧
        ((∃ w, s.procs p = .markRunning w id) ∨ executes id (s.procs p)) :=
  (row_kept_of_active hs (h.occupied hx)).imp_right fun h' => h'.imp_right
    fun ⟨p, hact, hmoves⟩ => ⟨p, h.one id hx (holds_of_moves hmoves), hact, hmoves⟩

/-- So the row of a job in its queue is not changed. -/
theorem Placed.row_of_queue (h : Placed s) (hc : CancelsUnqueued s l)
    (hs : step s l = some (s', a)) (hx : .queue ∈ places s id) : row s' id = row s id := by
  rcases h.row_kept hs hx with hrow | ⟨rfl, -⟩ | ⟨p, hp, -⟩
  · exact hrow
  · exact absurd hx (hc s' id hs).1
  · cases hp

/-- A goroutine that readies or delays a job leaves its row as it is. -/
theorem Placed.row_of_holder (h : Placed s) (hs : step s l = some (s', a))
    (hx : holds id (s.procs q)) (hq : ∀ w, s.procs q ≠ .markRunning w id)
    (hq' : ¬ executes id (s.procs q)) :
    row s' id = row s id ∨ (a = .cancelled id ∧ RowIs s' id (· = .cancelled)) := by
  rcases h.row_kept hs (x := .holder q) hx with hrow | hcancel | ⟨p, hp, -, ⟨w, hpc⟩ | hex⟩
  · exact .inl hrow
  · exact .inr hcancel
  · cases hp
    exact absurd hpc (hq w)
  · cases hp
    exact absurd hex hq'

theorem not_executes_of_readies {pc : Pc} (h : readies id pc) : ¬ executes id pc := by
  cases pc <;> first | exact fun hex => hex | (obtain ⟨j, hj, -⟩ := h; cases hj)

theorem not_markRunning_of_readies {pc : Pc} (h : readies id pc) (w : Pool) (i : String) :
    pc ≠ .markRunning w i := by
  rintro rfl
  obtain ⟨j, hj, -⟩ := h
  cases hj

theorem executes_none_of_delays {pc : Pc} (h : delays pc = some job) (i : String) :
    ¬ executes i pc := by
  cases pc <;> first | exact fun hex => hex | cases h

theorem queueNames_run {ok : State → Label → Prop} (h : Run step ok State.initial tr s) :
    QueueNames s :=
  h.invariant (I := fun _ s => QueueNames s) (fun _ _ hsc => absurd rfl hsc)
    fun hrun hq _ hs => queueNames_step (carried_run hrun) hq hs

theorem RowIs.congr {P : Status → Prop} (h : row s' id = row s id) (hr : RowIs s id P) :
    RowIs s' id P := by
  obtain ⟨r, hr, hst⟩ := hr
  exact ⟨r, h.trans hr, hst⟩

theorem RowIs.orCancelled {P : Status → Prop}
    (h : row s' id = row s id ∨ (a = .cancelled id ∧ RowIs s' id (· = .cancelled)))
    (hr : RowIs s id (OrCancelled P)) : RowIs s' id (OrCancelled P) := by
  rcases h with hsame | ⟨-, hcancelled⟩
  · exact hr.congr hsame
  · exact hcancelled.imp fun _ => .inr

/-- An `Enqueue` is issued for a job that waits. -/
theorem Placed.enqueued (h : Placed s) (hl : Listed s) (hfound : FoundByID s)
    (ho : EnqueuesRetrying s (.run p m e)) (hran : Ran s p m e s' a (.enqueue job) next r) :
    RowIs s job.id IsWaiting := by
  rcases holds_enqueue (follows hran.code (heard m r)) (hl.distinct p) with
    ⟨hread, -⟩ | ⟨i, ids, hpc, -⟩
  · obtain ⟨r₁, hr₁, hst⟩ := h.readied p _ hread
    exact ⟨r₁, hr₁, .inl hst⟩
  · obtain rfl := hfound p job i ids hpc
    obtain ⟨r₁, hr₁, hst⟩ := (ho job _ ids hpc).1
    exact ⟨r₁, hr₁, .inr hst⟩

/-- An `Enqueue` leaves the rows as they are. -/
theorem row_of_enqueue (hran : Ran s p m e s' a (.enqueue job) next r) (id : String) :
    row s' id = row s id := by
  rcases hran.effect with ⟨-, hx⟩ | ⟨-, hw, -⟩
  · rw [row, exec_jobs hx rfl]
    rfl
  · rw [row, hw]
    rfl

theorem queued_step (h : Placed s) (hl : Listed s) (hfound : FoundByID s) (ho : Orderly s l)
    (hs : step s l = some (s', a)) (hx : .queue ∈ places s' id) : RowIs s' id IsWaiting := by
  rcases queue_step hs hx with hold | ⟨p, m, e, next, r, job, rfl, hran, rfl⟩
  · exact (h.queued id hold).congr (h.row_of_queue ho.cancels hs hold)
  · exact (h.enqueued hl hfound ho.promotes hran).congr (row_of_enqueue hran _)

theorem readied_step (h : Placed s) (ho : Orderly s l) (hs : step s l = some (s', a))
    (hx : readies id (s'.procs q)) : RowIs s' id (· = .queued) := by
  rcases readies_from hs hx with hold | ⟨-, r, hr, hst⟩
  · have hkept := h.row_of_holder hs (.inl hold) (fun w => not_markRunning_of_readies hold w id)
      (not_executes_of_readies hold)
    rcases hkept with hsame | ⟨rfl, -⟩
    · exact (h.readied q id hold).congr hsame
    · exact absurd hold ((ho.cancels s' id hs).2 q)
  · exact ⟨r, hr, hst⟩

theorem popped_from {pc : Pc} {w : Pool} (hf : Follows pc cmd r (.markRunning w id)) :
    ∃ name, cmd = .pop name ∧ r = .popped (some id) := by
  cases hf
  exact ⟨_, rfl, rfl⟩

/-- A worker that has popped an id has it from its queue. -/
theorem popped_step (h : Placed s) (ho : Orderly s l) (hs : step s l = some (s', a)) {w : Pool}
    (hx : s'.procs q = .markRunning w id) : RowIs s' id (OrCancelled IsWaiting) := by
  have hm := step_moves hs q
  rw [hx] at hm
  generalize hpc : Pc.markRunning w id = pc at hm
  cases hm with
  | stays ha =>
    refine (h.popped q w id hpc.symm).orCancelled (a := a) ?_
    rcases h.row_kept hs (x := .holder q) (.inr (by rw [← hpc]; rfl)) with
      hrow | hcancel | ⟨p, hp, hact, -⟩
    · exact .inl hrow
    · exact .inr hcancel
    · cases hp
      exact absurd hact ha
  | @starts role =>
    have hno := not_holds_entry (entry_point role) id
    rw [← hpc] at hno
    exact absurd (.inr rfl) hno
  | crashes | stops => cases hpc
  | @finishes w job outcome => cases outcome <;> cases hpc
  | @runs m e cmd next r hl hran =>
    have hf := follows hran.code (heard m r)
    rw [← hpc] at hf
    obtain ⟨name, rfl, hr⟩ := popped_from hf
    obtain ⟨rfl, rfl⟩ := heard_ok hr (by simp)
    rcases hran.effect with ⟨-, hexec⟩ | ⟨hne, -⟩
    · have hin : .queue ∈ places s id := ⟨name, (exec_pop_some hexec).1⟩
      exact ((h.queued id hin).congr (h.row_of_queue ho.cancels hs hin)).imp fun _ => .inl
    · cases hne

theorem delayed_step (h : Placed s) (hs : step s l = some (s', a))
    (hx : delays (s'.procs q) = some job) : RowIs s' job.id (OrCancelled (· = .retrying)) := by
  rcases delays_from hs hx with hold | ⟨hrow, hst⟩
  · refine (h.delayed q job hold).orCancelled (h.row_of_holder hs
      (.inr (delays_handles hold)) ?_ (executes_none_of_delays hold _))
    rintro w hpc
    rw [hpc] at hold
    cases hold
  · exact ⟨job, hrow, .inl hst⟩

/-- A job whose row is vacant has no token. -/
theorem Placed.empty_of_vacant (h : Placed s) (hv : Vacant (row s id)) : places s id = ∅ := by
  refine Set.eq_empty_iff_forall_notMem.mpr fun x hx => ?_
  obtain ⟨r, hr, hst⟩ := h.occupied hx
  unfold IsActive OrCancelled IsWaiting at hst
  rcases hv r hr with hvst | hvst | hvst <;> simp [hvst] at hst

theorem one_step (h : Placed s) (hl : Listed s) (hq : QueueNames s) (hq' : QueueNames s')
    (hfound : FoundByID s) (ho : Orderly s l) (hs : step s l = some (s', a)) (id : String) :
    (places s' id).Subsingleton := by
  cases token_step hl hq hq' hfound hs id with
  | handoff hh => exact hh.subsingleton (h.one id)
  | made hm hsub =>
    rw [h.empty_of_vacant hm.1] at hsub
    exact Set.subsingleton_of_subset_singleton (by simpa using hsub)
  | copied hp hsub =>
    by_cases hin : .queue ∈ places s id ∨ .queue ∉ places s' id
    · refine (h.one id).anti fun x hx => ?_
      rcases hsub hx with rfl | hold
      · exact hin.resolve_right fun hno => hno hx
      · exact hold
    · -- the entry is new, so the step is an `Enqueue`
      simp only [not_or, not_not] at hin
      obtain ⟨p, m, e, next, r, job, rfl, hran, rfl⟩ :=
        (queue_step hs hin.2).resolve_left hin.1
      refine Set.subsingleton_of_subset_singleton (a := .queue) fun x hx => ?_
      refine (hsub hx).elim id fun hold => ?_
      have hself := hran.procs_self
      rcases holds_enqueue (follows hran.code (heard m r)) (hl.distinct p) with
        ⟨hread, hgone⟩ | ⟨i, ids, hpc, -⟩
      · have hxp : x = .holder p := h.one _ hold (.inl hread)
        rw [hxp, mem_places_holder, hself] at hx
        exact absurd hx hgone
      · obtain rfl := hfound p job i ids hpc
        obtain ⟨⟨r₁, hr₁, hst⟩, hfree⟩ := ho.promotes job _ ids hpc
        cases x with
        | queue => rfl
        | holder q =>
          rcases hold with hread | hh
          · obtain ⟨r₂, hr₂, hst'⟩ := h.readied q _ hread
            rw [hr₁] at hr₂
            cases hr₂
            cases hst.symm.trans hst'
          · exact absurd hh (hfree q)

theorem not_removing_of_atRest {pc : Pc} (h : atRest pc) (id : String) : ¬ removing id pc := by
  cases pc <;> first | exact fun hr => hr | exact absurd h (by simp [atRest])

theorem removing_point {pc : Pc} (h : removing id pc) : ∃ ids, pc = .retriesRemove id ids := by
  cases pc <;> first | exact h.elim | skip
  next ids =>
  obtain rfl : _ = id := h
  exact ⟨ids, rfl⟩

/-- A goroutine leaves the point before the `ZREM` only by it. -/
theorem removing_left (ho : Steady s l) (hs : step s l = some (s', a))
    (hr : removing id (s.procs q)) (hr' : ¬ removing id (s'.procs q)) :
    ∃ m e cmd next r, l = .run q m e ∧ Ran s q m e s' a cmd next r := by
  have hm := step_moves hs q
  generalize s'.procs q = pc at hm hr'
  cases hm with
  | stays => exact absurd hr hr'
  | starts hl hpc | stops hl hpc | finishes hl hpc =>
    rw [hpc] at hr
    exact hr.elim
  | crashes hl =>
    subst hl
    exact absurd hr (not_removing_of_atRest ho id)
  | runs hl hran => exact ⟨_, _, _, _, _, hl, hran⟩

/-- The `ZREM` that the store does not refuse leaves no entry. -/
theorem removed_entry {w w' : World} (hx : exec w e (.removeRetry id) = some (w', r))
    (hok : r.commandFailed = false) : w'.redis.zscore retriesKey id = none := by
  simp only [exec, Option.some.injEq] at hx
  cases hr : RedisQueue.removeRetry w.redis id with
  | ok r' =>
    rw [hr] at hx
    cases hx
    rw [Redis.zscore_zrem hr, if_pos ⟨rfl, rfl⟩]
  | error y =>
    rw [hr] at hx
    cases hx
    cases Redis.zrem_error hr
    cases hok

/-- A job that rests keeps its row and gets no token, but by `PromoteRetries`. -/
theorem resting_kept (hl : Listed s) (hq : QueueNames s) (hq' : QueueNames s')
    (hfound : FoundByID s) (ho : Orderly s l) (hs : step s l = some (s', a))
    (hrow : RowIs s id (OrCancelled (· = .retrying))) (hempty : places s id = ∅)
    (hfree : ∀ q, ¬ removing id (s'.procs q)) :
    RowIs s' id (OrCancelled (· = .retrying)) ∧ places s' id = ∅ := by
  have hno : ∀ q, ¬ holds id (s.procs q) := fun q hh =>
    Set.eq_empty_iff_forall_notMem.mp hempty (.holder q) hh
  constructor
  · have hactive : RowIs s id IsActive := hrow.imp fun _ hst => hst.imp_left fun hst =>
      .inl (.inr hst)
    rcases row_kept_of_active hs hactive with hsame | hcancel | ⟨p, -, hmoves⟩
    · exact hrow.orCancelled (a := a) (.inl hsame)
    · exact hrow.orCancelled (.inr hcancel)
    · exact absurd (holds_of_moves hmoves) (hno p)
  · cases token_step hl hq hq' hfound hs id with
    | handoff hh => exact hh.empty hempty
    | made hm =>
      obtain ⟨r₀, hr₀, hst⟩ := hrow
      unfold OrCancelled at hst
      rcases hm.1 r₀ hr₀ with hv | hv | hv <;> simp [hv] at hst
    | copied hp hsub =>
      rw [hempty] at hsub
      refine Set.eq_empty_iff_forall_notMem.mpr fun x hx => ?_
      obtain rfl : x = .queue := (hsub hx).resolve_right fun hn => hn
      rcases queue_step hs hx with hold | ⟨p, m, e, next, r, job, rfl, hran, rfl⟩
      · exact Set.eq_empty_iff_forall_notMem.mp hempty _ hold
      · have hself := hran.procs_self
        rcases holds_enqueue (follows hran.code (heard m r)) (hl.distinct p) with
          ⟨hread, -⟩ | ⟨i, ids, hpc, hpc'⟩
        · exact hno p (.inl hread)
        · refine hfree p ?_
          rw [hself, hpc']
          exact (hfound p job i ids hpc).symm

/-- An `EnqueueAfter` lays down the token. -/
theorem delay_rests {w : Pool} (h : Placed s) (hpc : s.procs p = .enqueueAfter w job)
    {delay : Int} (hran : Ran s p m e s' a (.enqueueAfter job delay) next r) :
    RowIs s' job.id (OrCancelled (· = .retrying)) ∧ places s' job.id = ∅ := by
  have hself : s'.procs p = .publishRetrying w job := by
    have hcode := hran.code
    rw [hpc] at hcode
    cases hcode
    rw [hran.procs_self]
  have hheld : .holder p ∈ places s job.id := .inr (by rw [hpc]; rfl)
  have hgone : ¬ holds job.id (s'.procs p) := by
    rw [hself]
    exact not_holds rfl (by simp) (by simp) fun hh => hh
  constructor
  · refine (h.delayed p job (by rw [hpc]; rfl)).congr ?_
    rcases hran.effect with ⟨-, hx⟩ | ⟨-, hw, -⟩
    · rw [row, exec_jobs hx rfl]
      rfl
    · rw [row, hw]
      rfl
  · refine Set.eq_empty_iff_forall_notMem.mpr fun x hx => ?_
    rcases places_from hran hx with hold | ⟨rfl, hh⟩ | ⟨-, _, hcmd, -⟩
    · obtain rfl := h.one job.id hold hheld
      exact hgone hx
    · exact hgone hh
    · cases hcmd

/-- An id that rests in the retry set belongs to a job nobody has. -/
theorem resting_step (h : Placed s) (hl : Listed s) (hq : QueueNames s) (hq' : QueueNames s')
    (hfound : FoundByID s) (ho : Orderly s l) (hs : step s l = some (s', a))
    (hsc : s'.world.redis.zscore retriesKey id ≠ none) (hfree : ∀ q, ¬ removing id (s'.procs q)) :
    RowIs s' id (OrCancelled (· = .retrying)) ∧ places s' id = ∅ := by
  by_cases hdelay : ∃ p m e job delay next r, l = .run p m e ∧
      Ran s p m e s' a (.enqueueAfter job delay) next r ∧ job.id = id
  · obtain ⟨p, m, e, job, delay, next, r, rfl, hran, rfl⟩ := hdelay
    obtain ⟨w, hpc, -⟩ := delay_point (follows hran.code r)
    exact delay_rests h hpc hran
  · -- the entry was there before, and nobody was about to remove it
    have hold : s.world.redis.zscore retriesKey id ≠ none := by
      by_cases hrun : ∃ p m e, l = .run p m e
      · obtain ⟨p, m, e, rfl⟩ := hrun
        obtain ⟨cmd, next, r, hran⟩ := step_run hs
        obtain ⟨rfl, hx, -⟩ := ho.steady.command hran
        have hent := exec_entry hx retriesKey id
        generalize s.world.redis.zscore retriesKey id = sc₀ at hent ⊢
        generalize s'.world.redis.zscore retriesKey id = sc at hent hsc
        cases hent with
        | same => exact hsc
        | enqueued _ _ hk | popped _ _ hk => exact absurd hk.symm (queueKey_ne_retriesKey _)
        | delayed hcmd _ _ hid =>
          subst hcmd
          exact absurd ⟨p, _, e, _, _, next, r, rfl, hran, hid.symm⟩ hdelay
        | removed => exact absurd rfl hsc
      · simp only [not_exists] at hrun
        rcases (step_local hs hrun).1 with hw | ⟨_, -, hw⟩ <;> rwa [hw] at hsc
    have hfree₀ : ∀ q, ¬ removing id (s.procs q) := by
      intro q hr
      obtain ⟨m, e, cmd, next, r, rfl, hran⟩ := removing_left ho.steady hs hr (hfree q)
      obtain ⟨rfl, hx, hok⟩ := ho.steady.command hran
      obtain ⟨ids, hpc⟩ := removing_point hr
      have hcode := hran.code
      rw [hpc] at hcode
      cases hcode
      exact hsc (removed_entry hx hok)
    obtain ⟨hrow, hempty⟩ := h.resting id hold hfree₀
    exact resting_kept hl hq hq' hfound ho hs hrow hempty hfree

theorem placed_step (h : Placed s) (hown : Owned (tr ++ [a]) s') (hl : Listed s)
    (hq : QueueNames s) (hq' : QueueNames s') (hfound : FoundByID s) (ho : Orderly s l)
    (hs : step s l = some (s', a)) : Placed s' where
  one := one_step h hl hq hq' hfound ho hs
  queued _ hx := queued_step h hl hfound ho hs hx
  readied _ _ hx := readied_step h ho hs hx
  popped _ _ _ hx := popped_step h ho hs hx
  executed p id hx := hown.running p id (hown.executing p id hx)
  delayed _ _ hx := delayed_step h hs hx
  resting _ hsc hfree := resting_step h hl hq hq' hfound ho hs hsc hfree

theorem placed_run (h : Run step Orderly State.initial tr s) : Placed s := by
  refine h.invariant (I := fun _ s => Placed s) ?_ ?_
  · have hempty := places_initial
    exact {
      one := fun id => by simp [hempty]
      queued := fun id hx => by simp [hempty] at hx
      readied := fun p id hx => by
        have hx : .holder p ∈ places State.initial id := .inl hx
        simp [hempty] at hx
      popped := fun _ _ _ hx => by cases hx
      executed := fun _ _ hx => hx.elim
      delayed := fun _ _ hx => by cases hx
      resting := fun _ hsc => absurd rfl hsc }
  · intro tr s s' l a hrun hp ho hs
    have hnext := hrun.next ho hs
    exact placed_step hp (owned_run hnext) (listed_run hrun) (queueNames_run hrun)
      (queueNames_run hnext) (foundByID_run hrun) ho hs

/-- The job is queued, or is retrying and has been promoted out of the retry set. -/
def runnable (s : State) (r : Job) : Bool :=
  r.status = .queued || (r.status = .retrying && (s.world.redis.zscore retriesKey r.id).isNone)

/-- What `Stats` reports as waiting are the runnable jobs of the queue, and `MarkRunning`
would accept every entry of a queue. -/
def DepthExact (s : State) : Prop :=
  (∀ queues stats, RedisQueue.stats s.world.redis queues = .ok stats → ∀ q ∈ stats,
    q.waiting = s.world.jobs.rows.countP fun r => r.queueName = q.name && runnable s r) ∧
  ∀ name id, s.world.redis.zscore (queueKey name) id ≠ none →
    ∃ r, row s id = some r ∧ runningWhere id r

/-- With no operation half done, the entries of a queue are its runnable jobs. -/
theorem entry_iff (h : Run step Orderly State.initial tr s) (hq : Quiescent s)
    (name id : String) : s.world.redis.zscore (queueKey name) id ≠ none ↔
      ∃ r, row s id = some r ∧ r.queueName = name ∧ runnable s r := by
  have hp := placed_run h
  have hfree : ∀ i q, ¬ removing i (s.procs q) := fun i q => not_removing_of_atRest (hq q) i
  constructor
  · intro hsc
    obtain ⟨r, hr, hname⟩ := queueNames_run h name id hsc
    obtain ⟨r', hr', hst⟩ := hp.queued id ⟨name, hsc⟩
    obtain rfl := Option.some.inj (hr.symm.trans hr')
    refine ⟨r, hr, hname, ?_⟩
    rcases hst with hst | hst
    · simp [runnable, hst]
    · have hnone : s.world.redis.zscore retriesKey id = none := by
        by_contra hret
        exact Set.eq_empty_iff_forall_notMem.mp (hp.resting id hret (hfree id)).2 .queue ⟨name, hsc⟩
      simp [runnable, hst, JobTable.find_id hr, hnone]
  · rintro ⟨r, hr, rfl, hrun⟩
    simp only [runnable, Bool.or_eq_true, Bool.and_eq_true, decide_eq_true_eq,
      Option.isNone_iff_eq_none, JobTable.find_id hr] at hrun
    have hkept := allKept_run (fun _ _ ho => ⟨ho.steady.available, ho.apart⟩) h id r hr
      (hrun.imp_right And.left)
    rcases hkept with hsc | ⟨q, ho⟩ | ⟨hret, -⟩
    · exact hsc
    · exact absurd ho (not_owes_of_atRest id (hq q))
    · obtain ⟨r', hr', hst'⟩ := (hp.resting id hret (hfree id)).1
      obtain rfl := Option.some.inj (hr.symm.trans hr')
      rcases hrun with hst | ⟨-, hnone⟩
      · rcases hst' with hst' | hst' <;> cases hst.symm.trans hst'
      · exact absurd hnone hret

/-- In runs without failing commands in which a `Cancel` takes effect only on jobs that
are in no queue and are not about to be enqueued, `PromoteRetries` enqueues only jobs
that are retrying and in no worker's hands, and no `EnqueueAfter` falls between its
`Enqueue` and `ZREM`, the depth of every queue is the number of its runnable jobs
whenever no operation is half done. -/
theorem queue_depth_exact (h : Run step Orderly State.initial tr s) (hq : Quiescent s) :
    DepthExact s := by
  have hentry := entry_iff h hq
  constructor
  · intro queues stats hstats q hmem
    obtain ⟨members, hnodup, hlen, hin⟩ := Redis.zcard_ok (stats_ok hstats q hmem).1
    have hperm : members.Perm ((s.world.jobs.rows.filter fun r =>
        r.queueName = q.name && runnable s r).map Job.id) := by
      rw [List.perm_ext_iff_of_nodup hnodup
        (s.world.jobs.key.sublist (List.filter_sublist.map _))]
      intro id
      rw [hin, hentry, List.mem_map]
      constructor
      · rintro ⟨r, hr, hname, hrun⟩
        have hrow := (s.world.jobs.mem_rows_iff r).mpr ((JobTable.find_id hr).symm ▸ hr)
        exact ⟨r, List.mem_filter.mpr ⟨hrow, by simp [hname, hrun]⟩, JobTable.find_id hr⟩
      · rintro ⟨r, hr, rfl⟩
        obtain ⟨hrow, hP⟩ := List.mem_filter.mp hr
        simp only [Bool.and_eq_true, decide_eq_true_eq] at hP
        exact ⟨r, (s.world.jobs.mem_rows_iff r).mp hrow, hP⟩
    rw [← hlen, hperm.length_eq, List.length_map, List.countP_eq_length_filter]
  · intro name id hsc
    obtain ⟨r, hr, -, hrun⟩ := (hentry name id).mp hsc
    refine ⟨r, hr, ?_⟩
    simp only [runnable, Bool.or_eq_true, Bool.and_eq_true, decide_eq_true_eq] at hrun
    simpa [runningWhere, JobTable.find_id hr] using hrun.imp_right And.left

/-- The step is no `EnqueueAfter`, no `Cancel` and no `Enqueue` of `PromoteRetries`. -/
def plain (s : State) : Label → Bool
  | .run p _ _ => match s.procs p with
    | .enqueueAfter _ _ | .cancelUpdate _ _ | .retriesEnqueue _ _ _ => false
    | _ => true
  | _ => true

theorem orderly_of_plain (hst : Steady s l) (hp : plain s l) : Orderly s l where
  steady := hst
  apart := by
    cases l
    case run p m e =>
      intro pool job hpc
      simp [plain, hpc] at hp
    all_goals trivial
  cancels := by
    intro s' id hs
    rcases step_run_or_not hs with ⟨p, m, e, cmd, next, rep, rfl, hran⟩ | hl
    · have hact := hran.act
      unfold observe at hact
      split at hact <;> cases hact
      next hpc => simp [plain, hpc] at hp
    · rcases (step_local hs hl).2 with ha | ⟨_, _, _, ha⟩ <;> cases ha
  promotes := by
    cases l
    case run p m e =>
      intro job id ids hpc
      simp [plain, hpc] at hp
    all_goals trivial

/-- A job (0) waits in its queue. -/
def waiting : List Label :=
  [.start 0 (.request (.create ⟨"u1", "default", "send_email", none, 0, 3, none⟩)),
    .run 0 .ok { freshID := "j1" }, .run 0 .ok {}, .run 0 .ok {}]

theorem waiting_runs : (execute step State.initial waiting).isSome := by decide

theorem queue_depth_waiting : ∃ tr s, Run step Orderly State.initial tr s ∧ Quiescent s ∧
    s.world.redis.zscore (queueKey "default") "j1" ≠ none ∧ DepthExact s :=
  have hrun := (Run.of_outcome waiting_runs
    (show Admitted step (fun s l => Steady s l ∧ plain s l) _ _ by decide)).mono
    fun _ _ hc => orderly_of_plain hc.1 hc.2
  have hq := quiescent_outcome waiting_runs 1 (by decide) (by decide)
  ⟨_, _, hrun, hq, by decide, queue_depth_exact hrun hq⟩

/-- The waiting job is cancelled (1). -/
def cancelled : List Label :=
  waiting ++ [.start 1 (.request (.cancel "j1" "u1")), .run 1 .ok {}, .run 1 .ok {}]

theorem cancelled_runs : (execute step State.initial cancelled).isSome := by decide

/-- The cancelled job is still counted as waiting. -/
theorem cancelled_still_counted : ¬ ∀ tr s, Run step Steady State.initial tr s → Quiescent s →
    DepthExact s := by
  intro hall
  have hrun := Run.of_outcome cancelled_runs (show Admitted step Steady _ _ by decide)
  have hq := quiescent_outcome cancelled_runs 2 (by decide) (by decide)
  obtain ⟨r, hr, hw⟩ := (hall _ _ hrun hq).2 "default" "j1" (by decide)
  have hrefused : (row (outcome step State.initial cancelled cancelled_runs).1 "j1").all
      fun r => ! runningWhere "j1" r := by decide
  simp [hr, hw] at hrefused

end JobFlow.Runs.QueueDepth
