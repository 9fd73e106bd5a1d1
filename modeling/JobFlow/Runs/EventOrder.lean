import JobFlow.Lib.Outbox
import JobFlow.Runs.Delivery

/-!
# The order of the events of a job

Every operation commits its change of a row first and publishes the event later, most
of them after they have handed the job on. Here the log of a run is the events in the
order in which their changes were committed. If no change of a job is committed while
an earlier one is still to be announced, the channel carries the events of each job in
the order of the log.
-/

namespace JobFlow.Runs.EventOrder

open JobFlow.Lib
open JobFlow.Model
open JobFlow.Model.JobRepository
open JobFlow.Lib.Transition
open ControlFlow Steps Carried Entries Delivery

variable {s s' : State} {l : Label} {a : Act} {p : Pid} {m : Mode} {e : Env} {pc : Pc} {cmd : Cmd}
  {next : Reply → Pc} {r : Reply} {id : String}

/-- The job an event is about. -/
def jobID (event : Event) : String :=
  match event.data with
  | .job job => job.id
  | .id id => id

/-- The events that carry an id. -/
def about (id : String) (events : List Event) : List Event :=
  events.filter fun event => jobID event = id

/-- How a job that `MarkFailed` returned is announced. -/
def failedEvent (failedJob : Job) : Event :=
  if failedJob.status = .retrying then ⟨"job.retrying", .job failedJob⟩
  else ⟨"job.dead_letter", .job failedJob⟩

/-- The events that are to announce what a statement changed, from the reply of the
store. -/
def announcement (pc : Pc) (r : Reply) : List Event :=
  match pc, r with
  | .createInsert _, .job job => [⟨"job.created", .job job⟩]
  | .cancelUpdate id _, .affected (_ + 1) => [⟨"job.cancelled", .id id⟩]
  | .retryUpdate _ _, .job job => [⟨"job.retried", .job job⟩]
  | .schedulerTick, .jobs jobs => jobs.map fun job => ⟨"job.queued", .job job⟩
  | .markRunning _ _, .job job => [⟨"job.running", .job job⟩]
  | .markCompleted _ job, .affected (_ + 1) => [⟨"job.completed", .id job.id⟩]
  | .markFailed _ _ _, .job failedJob => [failedEvent failedJob]
  | _, _ => []

/-- The announcements of what a step commits. -/
def committed (s : State) : Label → List Event
  | .run p m e =>
    match advance s.world (s.procs p) m e with
    | some (_, _, r) => announcement (s.procs p) r
    | none => []
  | _ => []

/-- The system, observed by what it commits. -/
def commits : Machine State Label (List Event) := fun s l =>
  (step s l).map fun (s', _) => (s', committed s l)

/-- What a goroutine has committed and not yet published, oldest first. -/
def owed : Pc → List Event
  | .createEnqueue job | .createPublish job => [⟨"job.created", .job job⟩]
  | .cancelPublish id => [⟨"job.cancelled", .id id⟩]
  | .retryEnqueue job | .retryPublish job => [⟨"job.retried", .job job⟩]
  | .promoteEnqueue job jobs | .promotePublish job jobs =>
    (job :: jobs).map fun job => ⟨"job.queued", .job job⟩
  | .publishRunning _ job => [⟨"job.running", .job job⟩]
  | .countCompleted _ job | .publishCompleted _ job => [⟨"job.completed", .id job.id⟩]
  | .countFailed _ failedJob => [failedEvent failedJob]
  | .enqueueAfter _ failedJob | .publishRetrying _ failedJob => [⟨"job.retrying", .job failedJob⟩]
  | .deadLetter _ failedJob | .publishDeadLetter _ failedJob =>
    [⟨"job.dead_letter", .job failedJob⟩]
  | _ => []

/-- A change of a job is committed only when nobody is still to announce an earlier one. -/
def Settled (s : State) (l : Label) : Prop :=
  ∀ event ∈ committed s l, ∀ q, ∀ event' ∈ owed (s.procs q), jobID event' ≠ jobID event

/-- The events of each job are published in the order of the log. -/
def PublishedInOrder (log : List Event) (s : State) : Prop :=
  ∀ id, about id s.world.events <+: about id log

def publishes : Cmd → List Event
  | .publish event => [event]
  | _ => []

/-- Only a `Publish` adds to the channel. -/
theorem exec_events {w w' : World} (h : exec w e cmd = some (w', r)) :
    w'.events = w.events ++ publishes cmd := by
  cases exec_change h with
  | publish event => rfl
  | findJob | sleep => exact (List.append_nil _).symm
  | jobs hcmd | redis hcmd | workers hcmd =>
    have hno : publishes cmd = [] := by
      cases cmd <;> first | rfl | cases hcmd
    rw [hno, List.append_nil]

theorem owed_of_atRest (h : atRest pc) : owed pc = [] := by
  cases pc <;> first | rfl | exact absurd h (by simp [atRest])

theorem owed_entry (h : EntryPoint pc) : owed pc = [] := by
  cases h <;> rfl

/-- The reply a goroutine does not check is one it counts on. -/
def Expected (cmd : Cmd) (r : Reply) : Prop :=
  (∀ job, cmd = .enqueue job → r = .done) ∧
  ∀ id, cmd = .markCompleted id → ∃ rows, r = .affected (rows + 1)

/-- A command adds to what its goroutine owes what it commits, and takes from it what it
publishes. -/
theorem owed_next (hc : pc.code = some (cmd, next)) (hr : Expected cmd r) :
    owed pc ++ announcement pc r = publishes cmd ++ owed (next r) := by
  cases pc <;> simp only [Pc.code, Option.some.injEq, Prod.mk.injEq, reduceCtorEq] at hc
  case dequeue w queues =>
    cases queues <;> cases hc
    · rfl
    · cases r <;> first | rfl | (next id => cases id <;> rfl)
  all_goals obtain ⟨rfl, rfl⟩ := hc
  case createInsert p =>
    cases r <;> try rfl
    next job =>
    dsimp only
    split <;> rfl
  case cancelUpdate id userID =>
    cases r <;> try rfl
    next rows => cases rows <;> rfl
  case createEnqueue job | retryEnqueue job | promoteEnqueue job jobs =>
    obtain rfl := hr.1 job rfl
    simp [owed, announcement, publishes]
  case promotePublish job jobs => cases jobs <;> simp [owed, announcement, publishes, Pc.promoteNext]
  case schedulerTick =>
    cases r <;> try rfl
    next jobs => cases jobs <;> simp [owed, announcement, publishes, Pc.promoteNext]
  case retriesRange =>
    cases r <;> try rfl
    next ids => cases ids <;> rfl
  case retriesRemove id ids => cases ids <;> rfl
  case markCompleted w job =>
    obtain ⟨rows, rfl⟩ := hr.2 job.id rfl
    rfl
  case countFailed w failedJob =>
    simp only [owed, failedEvent, announcement, publishes]
    split <;> rfl
  all_goals cases r <;> rfl

@[simp] theorem jobID_failedEvent (failedJob : Job) : jobID (failedEvent failedJob) = failedJob.id := by
  unfold failedEvent
  split <;> rfl

/-- A statement is announced for the rows it is recorded to have changed. -/
theorem announcement_touches (p : Pid) (pc : Pc) (now : Time) (r : Reply) (id : String) :
    (∃ event ∈ announcement pc r, jobID event = id) ↔ touches id (observe p pc now r) := by
  unfold announcement
  split
  case h_8 h₁ h₂ h₃ h₄ h₅ h₆ h₇ =>
    have hno : ¬ touches id (observe p pc now r) := by
      unfold observe
      split <;> first | exact fun h => h | exact (h₇ _ _ _ _ rfl rfl).elim | simp_all
    simpa using hno
  case h_7 => simp [observe, touches]
  all_goals simp [observe, touches, jobID]

theorem committed_of_not_run (hl : ∀ p m e, l ≠ .run p m e) : committed s l = [] := by
  cases l with
  | run p m e => exact absurd rfl (hl p m e)
  | _ => rfl

/-- What a step commits is about the rows it changes. -/
theorem committed_touches (h : step s l = some (s', a)) (id : String) :
    (∃ event ∈ committed s l, jobID event = id) ↔ touches id a := by
  by_cases hl : ∃ p m e, l = .run p m e
  · obtain ⟨p, m, e, rfl⟩ := hl
    obtain ⟨⟨w, pc, r⟩, hadv, heq⟩ := Option.map_eq_some_iff.mp h
    cases heq
    rw [committed, hadv]
    exact announcement_touches p _ _ _ id
  · simp only [not_exists] at hl
    rw [committed_of_not_run hl]
    rcases (step_local h hl).2 with rfl | ⟨_, _, _, rfl⟩ <;> simp [touches]

/-- In a steady run every reply is the expected one. -/
theorem expected (hcar : CarriesRows s) (hcode : (s.procs p).code = some (cmd, next))
    (hx : exec s.world e cmd = some (s'.world, r)) (hok : r.commandFailed = false) :
    Expected cmd r := by
  constructor
  · rintro job rfl
    exact exec_enqueue_reply hx hok
  · rintro id rfl
    cases hpc : s.procs p <;> rw [hpc] at hcode <;>
      simp only [Pc.code, Option.some.injEq, Prod.mk.injEq, reduceCtorEq, false_and] at hcode
    case dequeue w queues => cases queues <;> cases hcode
    case markCompleted w job =>
      obtain ⟨hid, -⟩ := hcode
      cases hid
      obtain ⟨row, hrow, -⟩ := hcar p job (by simp [hpc, carries])
      exact ⟨0, exec_markCompleted_reply hrow hx⟩

/-- A step moves one goroutine, which adds to what it owes what it commits, and takes
from it what it publishes. -/
theorem step_owed (hcar : CarriesRows s) (hsteady : Steady s l) (h : step s l = some (s', a)) :
    ∃ q outs, (∀ p, p ≠ q → owed (s'.procs p) = owed (s.procs p)) ∧
      s'.world.events = s.world.events ++ outs ∧
      owed (s.procs q) ++ committed s l = outs ++ owed (s'.procs q) := by
  rcases step_run_or_not h with ⟨p, m, e, cmd, next, r, rfl, hran⟩ | hl
  · obtain ⟨rfl, hx, hok⟩ := hsteady.command hran
    refine ⟨p, publishes cmd, fun q hq => ?_, exec_events hx, ?_⟩
    · rw [hran.procs_other hq]
    · rw [hran.procs_self, committed]
      simp only [advance, hran.code, hx, Option.map_some]
      exact owed_next hran.code (expected hcar hran.code hx hok)
  · have hevents : s'.world.events = s.world.events := by
      rcases (step_local h hl).1 with hw | ⟨_, -, hw⟩ <;> rw [hw]
    have hnone : committed s l = [] := committed_of_not_run hl
    have hsame : ∀ p, owed (s'.procs p) = owed (s.procs p) := by
      refine local_moves (R := fun pc pc' => owed pc' = owed pc) h hl (fun _ => rfl)
        (fun _ hpc => owed_entry hpc) ?_ (fun _ => rfl) ?_
      · intro p hp
        subst hp
        exact (owed_of_atRest hsteady).symm
      · intro w job outcome
        cases outcome <;> rfl
    exact ⟨0, [], fun p _ => hsame p, by rw [hevents, List.append_nil],
      by rw [hnone, hsame, List.append_nil, List.nil_append]⟩

/-- A run observed by what it commits is a run of the system. -/
theorem run_of_commits {ok : State → Label → Prop} {log : List (List Event)}
    (h : Run commits ok State.initial log s) : ∃ tr, Run step ok State.initial tr s := by
  induction h with
  | start => exact ⟨[], .start⟩
  | next _ ho hs ih =>
    obtain ⟨tr, hrun⟩ := ih
    obtain ⟨⟨s₁, a⟩, hstep, heq⟩ := Option.map_eq_some_iff.mp hs
    cases heq
    exact ⟨_, hrun.next ho hstep⟩

theorem inOrder_step {log : List Event} (hcar : CarriesRows s) (hsteady : Steady s l)
    (hsettled : Settled s l) (h : step s l = some (s', a))
    (ho : Outbox.InOrder (about id log) (about id s.world.events)
      fun p => about id (owed (s.procs p))) :
    Outbox.InOrder (about id (log ++ committed s l)) (about id s'.world.events)
      fun p => about id (owed (s'.procs p)) := by
  obtain ⟨q, outs, hother, hevents, hmove⟩ := step_owed hcar hsteady h
  rw [hevents]
  unfold about at ho ⊢
  rw [List.filter_append, List.filter_append]
  refine ho.move (q := q) (fun p hp => by rw [hother p hp]) ?_ ?_
  · rw [← List.filter_append, hmove, List.filter_append]
  · intro hne p
    obtain ⟨event, hmem⟩ := List.exists_mem_of_ne_nil _ hne
    obtain ⟨hcommit, hid⟩ := List.mem_filter.mp hmem
    refine List.filter_eq_nil_iff.mpr fun event' howed hid' => ?_
    exact hsettled event hcommit p event' howed
      ((of_decide_eq_true hid').trans (of_decide_eq_true hid).symm)

/-- In runs without failing commands in which no change of a job is committed while an
earlier one is still to be announced, the events of each job are published in the order
in which its changes were committed. -/
theorem published_in_order {log : List (List Event)}
    (h : Run commits (fun s l => Steady s l ∧ Settled s l) State.initial log s) :
    PublishedInOrder log.flatten s := by
  intro id
  have ho : Outbox.InOrder (about id log.flatten) (about id s.world.events)
      fun p => about id (owed (s.procs p)) := by
    refine h.invariant (I := fun log s => Outbox.InOrder (about id log.flatten)
      (about id s.world.events) fun p => about id (owed (s.procs p))) ?_ ?_
    · exact .start 0
    · intro log s s' l new hrun ho hc hs
      obtain ⟨⟨s₁, a⟩, hstep, heq⟩ := Option.map_eq_some_iff.mp hs
      cases heq
      obtain ⟨tr, hrun⟩ := run_of_commits hrun
      rw [List.flatten_append, List.flatten_singleton]
      exact inOrder_step (carried_run hrun) hc.1 hc.2 hstep ho
  exact ho.channel_isPrefix

theorem settled_of_idle {n : Nat} (hidle : ∀ p, n ≤ p → s.procs p = .idle)
    (h : ∀ event ∈ committed s l, ∀ q < n, ∀ event' ∈ owed (s.procs q),
      jobID event' ≠ jobID event) : Settled s l := by
  intro event hmem q event' howed
  by_cases hq : q < n
  · exact h event hmem q hq event' howed
  · rw [hidle q (not_lt.mp hq)] at howed
    cases howed

/-- A job is created (0) and announced, and a worker (1) completes it. -/
def completed : List Label :=
  [.start 0 (.request (.create ⟨"u1", "default", "send_email", none, 0, 3, none⟩)),
    .run 0 .ok { freshID := "j1" }, .run 0 .ok {}, .run 0 .ok {},
    .start 1 (.worker ⟨"00000000000000000000000000000001", "host", ["default"]⟩),
    .run 1 .ok {}, .run 1 .ok {}, .run 1 .ok {}, .finish 1 (.ok ()),
    .run 1 .ok {}, .run 1 .ok {}, .run 1 .ok {}]

theorem completed_runs : (execute commits State.initial completed).isSome := by decide

theorem published_in_order_completed : ∃ log s,
    Run commits (fun s l => Steady s l ∧ Settled s l) State.initial log s ∧
    (about "j1" s.world.events).map Event.event = ["job.created", "job.running", "job.completed"] ∧
    PublishedInOrder log.flatten s := by
  have hfew := Run.of_outcome completed_runs
    (show Admitted commits (fun s l => (∀ p ∈ Label.pid l, p < 2) ∧ Steady s l ∧
      ∀ event ∈ committed s l, ∀ q < 2, ∀ event' ∈ owed (s.procs q),
        jobID event' ≠ jobID event) _ _ by decide)
  have hrun : Run commits (fun s l => Steady s l ∧ Settled s l) _ _ _ :=
    hfew.strengthen fun hr hc => by
      obtain ⟨tr, hr⟩ := run_of_commits hr
      exact ⟨hc.2.1, settled_of_idle
        (fun p hp => run_procs (fun _ _ hc hq => absurd (hc.1 p hq) hp.not_gt) hr) hc.2.2⟩
  exact ⟨_, _, hrun, by decide, published_in_order hrun⟩

/-- A worker (1) starts the job between the `Enqueue` of `Create` (0) and its `Publish`. -/
def overtaken : List Label :=
  [.start 0 (.request (.create ⟨"u1", "default", "send_email", none, 0, 3, none⟩)),
    .run 0 .ok { freshID := "j1" }, .run 0 .ok {},
    .start 1 (.worker ⟨"00000000000000000000000000000001", "host", ["default"]⟩),
    .run 1 .ok {}, .run 1 .ok {}, .run 1 .ok {}, .run 0 .ok {}]

theorem overtaken_runs : (execute commits State.initial overtaken).isSome := by decide

/-- The job is announced as running before it is announced as created. -/
theorem running_before_created : ¬ ∀ log s, Run commits Steady State.initial log s →
    PublishedInOrder log.flatten s := by
  intro hall
  have hrun := Run.of_outcome overtaken_runs (show Admitted commits Steady _ _ by decide)
  have hnames := (hall _ _ hrun "j1").map Event.event
  have hpublished : (about "j1" (outcome commits State.initial overtaken
      overtaken_runs).1.world.events).map Event.event = ["job.running", "job.created"] := by decide
  have hlog : (about "j1" (outcome commits State.initial overtaken
      overtaken_runs).2.flatten).map Event.event = ["job.created", "job.running"] := by decide
  rw [hpublished, hlog] at hnames
  exact absurd hnames (by decide)

end JobFlow.Runs.EventOrder
