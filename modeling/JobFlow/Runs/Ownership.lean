import JobFlow.Runs.History
import JobFlow.Runs.Steps

/-!
# A running row has one holder

`MarkCompleted` and `MarkFailed` test no status, so what protects a row while
its job executes is the status test of `MarkRunning` alone. The invariant says
that a goroutine inside `handle` holds the row it marked running, that no two
goroutines hold one row, and that only the holder moves it. It is kept by every
step, including commands that fail or whose answer is lost, and crashes.
-/

namespace JobFlow.Runs.Ownership

open JobFlow.Model
open JobFlow.Model.JobRepository
open JobFlow.Lib.Transition
open ControlFlow Steps History

/-- Program points of `handle` between `MarkRunning` and the statement that ends
the execution. -/
def executes (id : String) : Pc → Prop
  | .publishRunning _ job | .process _ job | .markCompleted _ job | .markFailed _ job _ =>
    job.id = id
  | _ => False

/-- The same points, as long as `Process` has not returned success. -/
def undecided (id : String) : Pc → Prop
  | .publishRunning _ job | .process _ job | .markFailed _ job _ => job.id = id
  | _ => False

theorem executes_of_undecided {id : String} {pc : Pc} (h : undecided id pc) :
    executes id pc := by
  cases pc <;> first | exact h | exact (h : False).elim

/-- A goroutine comes to execute a job by its own `MarkRunning` and leaves with
the statement that ends the execution. -/
theorem executes_next (p : Pid) (now : Time) {pc pc' : Pc} {cmd : Cmd} {m : Mode} {r : Reply}
    {id : String} (hf : Follows pc cmd (heard m r) pc') (h : executes id pc') :
    observe p pc now r = .markedRunning p id now ∨
    (undecided id pc ∧ isEnd id p (observe p pc now r) = false) := by
  generalize hr : heard m r = reply at hf
  cases hf with
  | started =>
    rw [heard_job hr]
    exact .inl (congrArg (Act.markedRunning p · now) h)
  | runningPublished => exact .inr ⟨h, rfl⟩
  | _ => exact h.elim

theorem isEnd_eq_false {q : Pid} {a : Act} {id : String} (h : ¬ actedBy q a) :
    isEnd id q a = false := by
  cases a <;> simp_all [isEnd, actedBy]

theorem not_executes_entry (id : String) {pc : Pc} (h : EntryPoint pc) : ¬ executes id pc := by
  cases h <;> exact fun hx => hx

/-- After a step a goroutine executes a job if it has just marked it running, or
if it did before and the step did not end the execution. It is undecided only
if it was before and `Process` has not just returned success. -/
theorem step_executes {s s' : State} {l : Label} {a : Act} {q : Pid} {id : String}
    (h : step s l = some (s', a)) (hq : executes id (s'.procs q)) :
    (∃ now, a = .markedRunning q id now) ∨
    (executes id (s.procs q) ∧ isEnd id q a = false ∧
      (undecided id (s'.procs q) → undecided id (s.procs q))) := by
  have hm := step_moves h q
  generalize s'.procs q = pc at hm hq
  cases hm with
  | stays ha => exact .inr ⟨hq, isEnd_eq_false ha, fun hu => hu⟩
  | starts => exact absurd hq (not_executes_entry id (entry_point _))
  | crashes | stops => exact hq.elim
  | @finishes w job outcome hl hpc ha =>
    subst ha
    have hid : job.id = id := by cases outcome <;> exact hq
    rw [hpc]
    exact .inr ⟨hid, rfl, fun _ => hid⟩
  | runs hl hran =>
    rcases executes_next q s.world.clock (follows hran.code _) hq with hs | ⟨hu, hend⟩
    · exact .inl ⟨_, hran.act.trans hs⟩
    · exact .inr ⟨executes_of_undecided hu, hran.act ▸ hend, fun _ => hu⟩

/-- The row of the job is running. -/
def Running (s : State) (id : String) : Prop := ∃ r, row s id = some r ∧ r.status = .running

/-- One holder for each running row, and one success for each job. -/
structure Owned (tr : List Act) (s : State) : Prop where
  executing : ∀ p id, executes id (s.procs p) → Executing id p tr
  running : ∀ p id, Executing id p tr → Running s id
  unique : ∀ p q id, Executing id p tr → Executing id q tr → p = q
  decided : ∀ id, 0 < successes id tr → successes id tr = 1 ∧
    (∀ q, ¬ undecided id (s.procs q)) ∧
    ∃ r, row s id = some r ∧ (r.status = .running ∨ r.status = .completed)

/-- Whoever executes a job finds its row running. -/
theorem Owned.row_running {tr : List Act} {s : State} (ho : Owned tr s) {p : Pid} {id : String}
    {r : Job} (hp : executes id (s.procs p)) (hr : row s id = some r) : r.status = .running := by
  obtain ⟨r', hr', hst⟩ := ho.running p id (ho.executing p id hp)
  rw [hr] at hr'
  cases hr'
  exact hst

/-- A row that is being executed is changed by its holder only. -/
theorem holder_moves {tr : List Act} {s s' : State} {l : Label} {a : Act} {q : Pid} {id : String}
    (ho : Owned tr s) (h : step s l = some (s', a)) (hq : Executing id q tr)
    (ha : isEnd id q a = false) : Running s' id := by
  obtain ⟨r, hr, hst⟩ := ho.running q id hq
  have hstep := step_row h id
  rw [hr] at hstep
  generalize hr' : row s' id = row' at hstep
  cases hstep with
  | same => exact ⟨r, hr', hst⟩
  | cancelled hpc hw => simp [cancelWhere, hst] at hw
  | requeued hpc hw => simp [requeueWhere, hst] at hw
  | promoted hpc hid hd => simp [isDue, hst] at hd
  | running hpc hw => simp [runningWhere, hst] at hw
  | @completed p w job _ hpc hid =>
    have hp : Executing id p tr := ho.executing p id (by rw [hpc]; exact hid)
    simp [isEnd, ho.unique p q id hp hq] at ha
  | @failed p w job _ message hpc hid =>
    have hp : Executing id p tr := ho.executing p id (by rw [hpc]; exact hid)
    simp [isEnd, ho.unique p q id hp hq] at ha

/-- A job is marked running only while nobody executes it. -/
theorem markedRunning_free {tr : List Act} {s s' : State} {l : Label} {p : Pid} {id : String}
    {now : Time} (ho : Owned tr s) (h : step s l = some (s', .markedRunning p id now)) :
    (∀ q, ¬ Executing id q tr) ∧ Running s' id ∧
      ∃ r, row s id = some r ∧ runningWhere id r := by
  have hstep := step_row h id
  generalize hr : row s id = row₀ at hstep
  generalize hr' : row s' id = row' at hstep
  cases hstep with
  | same ht => exact absurd rfl ht
  | running hpc hw =>
    refine ⟨fun q hq => ?_, ⟨_, hr', rfl⟩, _, rfl, hw⟩
    obtain ⟨r, hrow, hst⟩ := ho.running q id hq
    rw [hr] at hrow
    cases hrow
    simp [runningWhere, hst] at hw

theorem isSuccess_observe {p : Pid} {pc : Pc} {now : Time} {r : Reply} {id : String} :
    isSuccess id (observe p pc now r) = false := by
  unfold observe
  split <;> rfl

/-- Success is returned to a goroutine that then only marks the job completed. -/
theorem success_moves {s s' : State} {l : Label} {a : Act} {id : String}
    (h : step s l = some (s', a)) (ha : isSuccess id a = true) :
    ∃ q, undecided id (s.procs q) ∧ ¬ undecided id (s'.procs q) ∧ isEnd id q a = false := by
  cases l with
  | finish p outcome =>
    simp only [step] at h
    split at h <;> cases h
    next w job hp =>
    simp only [isSuccess, Bool.and_eq_true, decide_eq_true_eq] at ha
    refine ⟨p, by rw [hp]; exact ha.1, ?_, rfl⟩
    cases outcome with
    | ok => simp [State.moveTo, Pc.processed, undecided]
    | error => cases ha.2
  | run p m e =>
    obtain ⟨cmd, next, r, hran⟩ := step_run h
    rw [hran.act, isSuccess_observe] at ha
    cases ha
  | tick | crash =>
    cases h
    cases ha
  | start p role | signal p =>
    simp only [step] at h
    split at h <;> cases h
    cases ha

/-- A row that is running or completed and that nobody may still fail stays so. -/
theorem settled_row {s s' : State} {l : Label} {a : Act} {id : String} {r : Job}
    (h : step s l = some (s', a)) (hr : row s id = some r)
    (hst : r.status = .running ∨ r.status = .completed) (hu : ∀ q, ¬ undecided id (s.procs q)) :
    (∀ q now, a ≠ .markedRunning q id now) ∧
    ∃ r', row s' id = some r' ∧ (r'.status = .running ∨ r'.status = .completed) := by
  have hstep := step_row h id
  rw [hr] at hstep
  generalize hr' : row s' id = row' at hstep
  cases hstep with
  | same ht => exact ⟨fun q now ha => ht (ha ▸ rfl), r, rfl, hst⟩
  | cancelled hpc hw => rcases hst with hst | hst <;> simp [cancelWhere, hst] at hw
  | requeued hpc hw => rcases hst with hst | hst <;> simp [requeueWhere, hst] at hw
  | promoted hpc hid hd => rcases hst with hst | hst <;> simp [isDue, hst] at hd
  | running hpc hw => rcases hst with hst | hst <;> simp [runningWhere, hst] at hw
  | completed => exact ⟨fun _ _ => by simp, _, rfl, .inr rfl⟩
  | @failed p _ _ _ _ hpc hid => exact absurd hid (by simpa [hpc, undecided] using hu p)

theorem owned_initial : Owned [] State.initial where
  executing _ _ h := h.elim
  running p id h := absurd h (not_executing_nil id p)
  unique p _ id h := absurd h (not_executing_nil id p)
  decided _ h := absurd h (by simp)

theorem owned_step {tr : List Act} {s s' : State} {l : Label} {a : Act} (ho : Owned tr s)
    (h : step s l = some (s', a)) : Owned (tr ++ [a]) s' := by
  constructor
  case executing =>
    intro p id hp
    rw [executing_snoc]
    rcases step_executes h hp with hnow | ⟨hold, hend, _⟩
    · exact .inl hnow
    · exact .inr ⟨ho.executing p id hold, hend⟩
  case running =>
    intro p id hp
    rw [executing_snoc] at hp
    rcases hp with ⟨now, rfl⟩ | ⟨hp, hend⟩
    · exact (markedRunning_free ho h).2.1
    · exact holder_moves ho h hp hend
  case unique =>
    intro p q id hp hq
    rw [executing_snoc] at hp hq
    rcases hp with ⟨now, rfl⟩ | ⟨hp, -⟩
    · rcases hq with ⟨now', hq⟩ | ⟨hq, -⟩
      · cases hq
        rfl
      · exact absurd hq ((markedRunning_free ho h).1 q)
    · rcases hq with ⟨now, rfl⟩ | ⟨hq, -⟩
      · exact absurd hp ((markedRunning_free ho h).1 p)
      · exact ho.unique p q id hp hq
  case decided =>
    intro id hpos
    cases ha : isSuccess id a with
    | true =>
      obtain ⟨q, hu, hu', hend⟩ := success_moves h ha
      have hq := ho.executing q id (executes_of_undecided hu)
      have hzero : successes id tr = 0 :=
        Nat.eq_zero_of_not_pos fun hp => (ho.decided id hp).2.1 q hu
      obtain ⟨r, hr, hst⟩ := holder_moves ho h hq hend
      refine ⟨by simp [hzero, ha], fun q' hq' => ?_, r, hr, .inl hst⟩
      rcases step_executes h (executes_of_undecided hq') with ⟨now, rfl⟩ | ⟨hold, _⟩
      · cases ha
      · rw [ho.unique q' q id (ho.executing q' id hold) hq] at hq'
        exact hu' hq'
    | false =>
      simp only [successes_snoc, ha] at hpos ⊢
      obtain ⟨hone, hu, r, hr, hst⟩ := ho.decided id hpos
      obtain ⟨hno, hrow⟩ := settled_row h hr hst hu
      refine ⟨hone, fun q hq => ?_, hrow⟩
      rcases step_executes h (executes_of_undecided hq) with ⟨now, ha⟩ | ⟨_, _, hback⟩
      · exact hno q now ha
      · exact hu q (hback hq)

/-- Every run, whatever fails or stops in it, keeps the rows owned. -/
theorem owned_run {ok : State → Label → Prop} {tr : List Act} {s : State}
    (h : Run step ok State.initial tr s) : Owned tr s :=
  h.invariant owned_initial fun _ ho _ hs => owned_step ho hs

/-- Of any one job at most one goroutine is between its `MarkRunning` and the
effect of its `MarkCompleted` or `MarkFailed`, and `Process` returns success at
most once, in every run with failing commands, lost answers and crashes. -/
theorem exclusive_execution {tr : List Act} {s : State}
    (h : Run step anyStep State.initial tr s) (id : String) :
    (∀ p q, Executing id p tr → Executing id q tr → p = q) ∧ successes id tr ≤ 1 := by
  have ho := owned_run h
  refine ⟨fun p q => ho.unique p q id, ?_⟩
  rcases Nat.eq_zero_or_pos (successes id tr) with hz | hp
  · omega
  · exact (ho.decided id hp).1.le

/-- A create request (0) and a worker (1) that runs the job to its end. -/
def oneExecution : List Label :=
  [.start 0 (.request (.create ⟨"u1", "default", "send_email", none, 0, 3, none⟩)),
    .run 0 .ok { freshID := "j1" }, .run 0 .ok {}, .run 0 .ok {},
    .start 1 (.worker ⟨"w1", "host", ["default"]⟩),
    .run 1 .ok {}, .run 1 .ok {}, .run 1 .ok {}, .finish 1 (.ok ()), .run 1 .ok {}]

theorem exclusive_execution_once : ∃ tr s, Run step anyStep State.initial tr s ∧
    successes "j1" tr = 1 ∧
    ((∀ p q, Executing "j1" p tr → Executing "j1" q tr → p = q) ∧ successes "j1" tr ≤ 1) :=
  have hrun := Run.of_outcome (l := oneExecution) (by decide) (admitted_anyStep State.initial _)
  ⟨_, _, hrun, by decide, exclusive_execution hrun "j1"⟩

end JobFlow.Runs.Ownership
