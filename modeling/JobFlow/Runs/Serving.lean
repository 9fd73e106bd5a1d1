import JobFlow.Model.Config
import JobFlow.Runs.Budget
import JobFlow.Runs.QueueDepth

/-!
# Which worker may run which job

A worker pops only from the queues of its pool, and an entry of a queue belongs to a row
that names it. So whoever runs a job serves its queue, in every run. The queues of a pool
come from a setting that splits at commas and trims, while `Create` takes any name: a job
whose queue no setting can name is never started.
-/

namespace JobFlow.Runs.Serving

open JobFlow.Model
open JobFlow.Model.JobRepository
open JobFlow.Model.RedisQueue
open JobFlow.Lib.Transition
open ControlFlow Steps Carried Entries History Ownership Budget QueueDepth

variable {w w' : Pool} {pc pc' : Pc} {cmd : Cmd} {r : Reply} {s s' : State} {l : Label} {a : Act}
  {p q : Pid} {tr : List Act} {id : String} {e : Env} {next : Reply → Pc} {row₀ : Job}

/-- A worker of the pool has the job, from the pop of its id to the statement that ends its
execution. -/
def has (w : Pool) (id : String) : Pc → Prop
  | .markRunning w' i => w' = w ∧ i = id
  | .publishRunning w' job | .process w' job | .markCompleted w' job | .markFailed w' job _ =>
    w' = w ∧ job.id = id
  | _ => False

/-- The queues a worker has still to try in this round. -/
def ahead (w : Pool) (pc : Pc) (name : String) : Prop :=
  ∃ queues, pc = .dequeue w queues ∧ name ∈ queues

/-- The statement by id returns the row of that id. -/
theorem exec_markRunning_id {v v' : World} {i : String} {job : Job}
    (h : exec v e (.markRunning i) = some (v', .job job)) : job.id = i := by
  simp only [exec, Option.some.injEq] at h
  obtain ⟨-, hr⟩ := Prod.mk.inj h
  rcases markRunning_cases v.jobs v.clock i with ⟨r, hfind, -, hok, -⟩ | ⟨-, herr, -⟩
  · rw [hok] at hr
    cases hr
    exact ((runningSet v.clock).keepsID r).trans (JobTable.find_id hfind)
  · rw [herr] at hr
    cases hr

/-- A worker comes to have a job by its pop, and keeps it. -/
theorem has_next (hf : Follows pc cmd r pc') (h : has w id pc')
    (hid : ∀ i job, cmd = .markRunning i → r = .job job → job.id = i) :
    has w id pc ∨ ∃ name, cmd = .pop name ∧ r = .popped (some id) ∧ ahead w pc name := by
  cases hf with
  | popped =>
    obtain ⟨rfl, rfl⟩ := h
    exact .inr ⟨_, rfl, rfl, _, rfl, List.mem_cons_self⟩
  | started =>
    obtain ⟨rfl, rfl⟩ := h
    exact .inl ⟨rfl, (hid _ _ rfl rfl).symm⟩
  | runningPublished => exact .inl h
  | _ => exact h.elim

theorem ahead_next {name : String} (hf : Follows pc cmd r pc') (h : ahead w pc' name) :
    ahead w pc name ∨ name ∈ w.queues := by
  obtain ⟨queues, hpc, hin⟩ := h
  cases hf with
  | empty =>
    cases hpc
    exact .inl ⟨_, rfl, List.mem_cons_of_mem _ hin⟩
  | popFailed | slept | notStarted | completedPublished | notFailed | retryingPublished
  | deadLetterPublished =>
    cases hpc
    exact .inr hin
  | _ => cases hpc

/-- Workers try the queues of their pool, and have jobs of these queues. -/
structure Serves (s : State) : Prop where
  ahead : ∀ p w name, ahead w (s.procs p) name → name ∈ w.queues
  has : ∀ p w id, has w id (s.procs p) → ∃ r, row s id = some r ∧ r.queueName ∈ w.queues

theorem not_has_entry (h : EntryPoint pc) (w : Pool) (id : String) : ¬ has w id pc := by
  cases h <;> exact fun hx => hx

theorem ahead_entry {name : String} (h : EntryPoint pc) (hin : ahead w pc name) :
    name ∈ w.queues := by
  obtain ⟨queues, hpc, hin⟩ := hin
  cases h <;> cases hpc
  exact hin

/-- The row of a job keeps the name of its queue. -/
theorem served_kept {names : List String} (h : step s l = some (s', a))
    (hrow : ∃ r, row s id = some r ∧ r.queueName ∈ names) :
    ∃ r, row s' id = some r ∧ r.queueName ∈ names := by
  obtain ⟨r, hr, hin⟩ := hrow
  obtain ⟨r', hr', hsame⟩ := step_sameJob h hr
  exact ⟨r', hr', hsame.queueName ▸ hin⟩

theorem serves_step (hq : QueueNames s) (hs : Serves s) (h : step s l = some (s', a)) :
    Serves s' := by
  constructor
  case ahead =>
    intro p w name hin
    have hm := step_moves h p
    generalize s'.procs p = pc at hm hin
    cases hm with
    | stays => exact hs.ahead p w name hin
    | starts => exact ahead_entry (entry_point _) hin
    | crashes | stops =>
      obtain ⟨queues, hpc, -⟩ := hin
      cases hpc
    | @finishes w' job outcome =>
      obtain ⟨queues, hpc, -⟩ := hin
      cases outcome <;> cases hpc
    | runs hl hran => exact (ahead_next (follows hran.code _) hin).elim (hs.ahead p w name) id
  case has =>
    intro p w id hx
    have hm := step_moves h p
    generalize s'.procs p = pc at hm hx
    cases hm with
    | stays => exact served_kept h (hs.has p w id hx)
    | starts => exact absurd hx (not_has_entry (entry_point _) w id)
    | crashes | stops => exact hx.elim
    | @finishes w' job outcome hl hpc =>
      refine served_kept h (hs.has p w id ?_)
      rw [hpc]
      cases outcome <;> exact hx
    | @runs m e cmd next r hl hran =>
      have hid : ∀ i job, cmd = .markRunning i → heard m r = .job job → job.id = i := by
        rintro i job rfl hr
        obtain rfl := heard_job hr
        rcases hran.effect with ⟨-, hexec⟩ | ⟨-, -, herr⟩
        · exact exec_markRunning_id hexec
        · cases herr
      rcases has_next (follows hran.code _) hx hid with hold | ⟨name, rfl, hr, hin⟩
      · exact served_kept h (hs.has p w id hold)
      · obtain ⟨rfl, rfl⟩ := heard_ok hr (by simp)
        obtain ⟨r, hr, hname⟩ := hq name id (exec_pop_some hran.effect_ok).1
        exact served_kept h ⟨r, hr, hname ▸ hs.ahead p w name hin⟩

theorem serves_run {ok : State → Label → Prop} (h : Run step ok State.initial tr s) : Serves s := by
  refine h.invariant (I := fun _ s => Serves s) ⟨?_, fun _ _ _ hx => hx.elim⟩ ?_
  · intro p w name hin
    obtain ⟨queues, hpc, -⟩ := hin
    cases hpc
  · intro tr s s' l a hrun hs _ hstep
    exact serves_step (queueNames_run hrun) hs hstep

/-- In every run, with failing commands, lost answers and crashes, a worker has a job only
while the pool of the worker serves the queue the row names: from the pop of the id until the
statement that ends the execution. -/
theorem holder_serves_queue (h : Run step anyStep State.initial tr s)
    (hx : has w id (s.procs p)) : ∃ r, row s id = some r ∧ r.queueName ∈ w.queues :=
  (serves_run h).has p w id hx

/-- A worker (1) has marked a job running. -/
def marked : List Label :=
  [.start 0 (.request (.create ⟨"u1", "emails", "send_email", none, 0, 3, none⟩)),
    .run 0 .ok { freshID := "j1" }, .run 0 .ok {}, .run 0 .ok {},
    .start 1 (.worker ⟨"w1", "host", ["default", "emails"]⟩),
    .run 1 .ok {}, .run 1 .ok {}, .run 1 .ok {}]

theorem marked_runs : (execute step State.initial marked).isSome := by decide

theorem holder_serves_queue_marked : ∃ tr s w, Run step anyStep State.initial tr s ∧
    has w "j1" (s.procs 1) ∧ ∃ r, row s "j1" = some r ∧ r.queueName ∈ w.queues := by
  have hrun := Run.of_outcome marked_runs (admitted_anyStep State.initial _)
  have hx : has ⟨"w1", "host", ["default", "emails"]⟩ "j1"
      ((outcome step State.initial marked marked_runs).1.procs 1) := ⟨rfl, rfl⟩
  exact ⟨_, _, _, hrun, hx, holder_serves_queue hrun hx⟩

/-! ## Queues that no setting names -/

/-- The pools take their queues from the environment. -/
def Configured (_ : State) : Label → Prop
  | .start _ (.worker w) => ∃ getenv, w.queues = (Config.load getenv).workerQueues
  | _ => True

/-- The pool of a worker. -/
def poolOf : Pc → Option Pool
  | .dequeue w _ | .markRunning w _ | .publishRunning w _ | .process w _ | .markCompleted w _
  | .countCompleted w _ | .publishCompleted w _ | .markFailed w _ _ | .countFailed w _
  | .enqueueAfter w _ | .publishRetrying w _ | .deadLetter w _ | .publishDeadLetter w _ => some w
  | _ => none

theorem poolOf_next (hf : Follows pc cmd r pc') (h : poolOf pc' = some w) : poolOf pc = some w := by
  cases hf <;> exact h

theorem poolOf_entry {role : Role} (h : poolOf (Pc.entry role) = some w) : role = .worker w := by
  cases role with
  | worker w' => exact congrArg Role.worker (Option.some.inj h)
  | scheduler | heartbeat => cases h
  | request r =>
    cases r with
    | create input =>
      simp only [Pc.entry, Pc.request, Pc.create] at h
      split at h <;> cases h
    | cancel | retry => cases h

theorem poolOf_has (h : has w id pc) : poolOf pc = some w := by
  cases pc with
  | markRunning | publishRunning | process | markCompleted | markFailed =>
    exact congrArg some h.1
  | _ => exact h.elim

/-- What a pool serves can be named. -/
theorem nameable_run (h : Run step Configured State.initial tr s)
    (hp : poolOf (s.procs p) = some w) :
    ∀ name ∈ w.queues, Config.Nameable name := by
  have hinv : ∀ p w, poolOf (s.procs p) = some w → ∀ name ∈ w.queues, Config.Nameable name := by
    refine h.invariant (I := fun _ s => ∀ p w, poolOf (s.procs p) = some w →
      ∀ name ∈ w.queues, Config.Nameable name) (fun _ _ hp => by cases hp) ?_
    intro tr s s' l a _ ih ho hs p w hp
    have hm := step_moves hs p
    generalize s'.procs p = pc at hm hp
    cases hm with
    | stays => exact ih p w hp
    | starts hl =>
      subst hl
      rw [poolOf_entry hp] at ho
      obtain ⟨getenv, hq⟩ := ho
      intro name hin
      rw [hq] at hin
      exact Config.nameable_of_mem_split hin
    | crashes | stops => cases hp
    | @finishes w' job outcome _ hpc =>
      refine ih p w ?_
      rw [hpc]
      cases outcome <;> exact hp
    | runs hl hran => exact ih p w (poolOf_next (follows hran.code _) hp)
  exact hinv p w hp

/-- A job that was marked running was had by a worker whose pool serves its queue. -/
theorem started_served (h : Run step Configured State.initial tr s) {now : Time}
    (hin : .markedRunning p id now ∈ tr) (hr : row s id = some row₀) :
    Config.Nameable row₀.queueName := by
  obtain ⟨before, after, rfl⟩ := List.append_of_mem hin
  obtain ⟨m, l, m', hm, -, hs, hafter⟩ := h.observed
  have hstep := step_row hs id
  generalize hr₁ : row m id = row₁ at hstep
  generalize row m' id = row' at hstep
  cases hstep with
  | same ht => exact absurd rfl ht
  | @running _ w r hpc hw =>
    have hx : has w id (m.procs p) := by
      rw [hpc]
      exact ⟨rfl, rfl⟩
    obtain ⟨r', hr', hqueue⟩ := (serves_run hm).has p w id hx
    have hnext : Run step anyStep m _ m' := .single trivial hs
    obtain ⟨r₂, hr₂, hsame⟩ := run_sameJob (hnext.trans hafter.any) hr'
    obtain rfl := Option.some.inj (hr.symm.trans hr₂)
    rw [hsame.queueName]
    exact nameable_run hm (poolOf_has hx) _ hqueue

/-- A completed job has been started. -/
theorem completed_started {ok : State → Label → Prop} (h : Run step ok State.initial tr s)
    (hr : row s id = some row₀) (hst : row₀.status = .completed) : 1 ≤ row₀.attempts := by
  have hinv : ∀ r, row s id = some r → r.status = .completed → 1 ≤ r.attempts := by
    refine h.invariant (I := fun _ s => ∀ r, row s id = some r → r.status = .completed →
      1 ≤ r.attempts) (fun _ h => by cases h) ?_
    intro tr s s' l a hrun ih _ hs r' hr' hst'
    have hacc := accounted_run hrun id
    have hstep := step_row hs id
    rw [hr'] at hstep
    generalize hr : row s id = row₀ at hstep hacc
    cases hstep with
    | same => exact ih r' hr hst'
    | created hl hpc hnew =>
      rcases newRow_status hnew with ⟨hst, -⟩ | ⟨hst, -⟩ <;> cases hst.symm.trans hst'
    | @completed _ _ _ r hpc hid =>
      have hrunning := (owned_run hrun).row_running (by rw [hpc]; exact hid) hr
      obtain ⟨-, hspent⟩ := hacc
      simp only [Spent, hrunning] at hspent
      exact hspent.1
    | failed =>
      simp only [failedSet] at hst'
      split at hst' <;> cases hst'
    | _ => cases hst'
  exact hinv row₀ hr hst

/-- Where every pool takes its queues from the environment, a job whose queue name is empty,
has a comma or has white space at an end is never started, in any run and whatever fails: it
stays scheduled or queued until it is cancelled. -/
theorem unnameable_never_starts (h : Run step Configured State.initial tr s)
    (hr : row s id = some row₀) (hno : ¬ Config.Nameable row₀.queueName) :
    starts id tr = 0 ∧
      (row₀.status = .scheduled ∨ row₀.status = .queued ∨ row₀.status = .cancelled) := by
  have hzero : starts id tr = 0 := by
    refine List.countP_eq_zero.mpr fun a ha hstart => hno ?_
    cases a with
    | markedRunning p i now =>
      obtain rfl : i = id := of_decide_eq_true hstart
      exact started_served h ha hr
    | _ => cases hstart
  have hacc := accounted_run h id
  rw [hr] at hacc
  obtain ⟨hatt, hspent⟩ := hacc
  have hb := budget_cases row₀.maxAttempts
  refine ⟨hzero, ?_⟩
  cases hst : row₀.status <;> simp only [Spent, hst] at hspent
  case scheduled => exact .inl rfl
  case queued => exact .inr (.inl rfl)
  case cancelled => exact .inr (.inr rfl)
  case completed =>
    have hstarted := completed_started h hr hst
    omega
  all_goals omega

/-- The pools take their queues from an empty environment. -/
def Defaults (_ : State) : Label → Prop
  | .start _ (.worker w) => w.queues = (Config.load fun _ => "").workerQueues
  | _ => True

instance (s : State) : (l : Label) → Decidable (Defaults s l)
  | .start _ (.worker w) =>
    inferInstanceAs (Decidable (w.queues = (Config.load fun _ => "").workerQueues))
  | .start _ (.request _) | .start _ .scheduler | .start _ (.heartbeat _) | .tick _ | .signal _
  | .crash _ | .finish _ _ | .run _ _ _ => inferInstanceAs (Decidable True)

theorem configured_of_defaults (h : Defaults s l) : Configured s l := by
  unfold Defaults at h
  split at h
  · exact ⟨_, h⟩
  · next hno =>
    unfold Configured
    split
    · exact absurd rfl (hno _ _)
    · trivial

/-- A job is created in the queue `emails,images` (0), and a worker (1) goes through the
queues `emails`, `images`, `webhooks`, `reports` and `default`. -/
def oneSetting : List Label :=
  [.start 0 (.request (.create ⟨"u1", "emails,images", "send_email", none, 0, 3, none⟩)),
    .run 0 .ok { freshID := "j1" }, .run 0 .ok {}, .run 0 .ok {},
    .start 1 (.worker ⟨"w1", "host", (Config.load fun _ => "").workerQueues⟩),
    .run 1 .ok {}, .run 1 .ok {}, .run 1 .ok {}, .run 1 .ok {}, .run 1 .ok {}, .run 1 .ok {}]

theorem oneSetting_runs : (execute step State.initial oneSetting).isSome := by decide

theorem oneSetting_row : (row (outcome step State.initial oneSetting oneSetting_runs).1 "j1").any
    fun r => r.queueName = "emails,images" := by decide

theorem unnameable_never_starts_oneSetting : ∃ tr s r,
    Run step Configured State.initial tr s ∧ row s "j1" = some r ∧
    ¬ Config.Nameable r.queueName ∧ starts "j1" tr = 0 ∧
      (r.status = .scheduled ∨ r.status = .queued ∨ r.status = .cancelled) := by
  have hrun := (Run.of_outcome oneSetting_runs (show Admitted step Defaults _ _ by decide)).mono
    fun _ _ => configured_of_defaults
  obtain ⟨r, hr, hqueue⟩ := (Option.any_eq_true _ _).mp oneSetting_row
  have hno : ¬ Config.Nameable r.queueName := by
    rw [of_decide_eq_true hqueue]
    exact fun hname => hname.comma (by decide)
  exact ⟨_, _, r, hrun, hr, hno, unnameable_never_starts hrun hr hno⟩

end JobFlow.Runs.Serving
