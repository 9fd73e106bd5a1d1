import JobFlow.Abstract.Lifecycle
import JobFlow.Runs.Ownership

/-!
# The rows refine the abstract life of a job

Every step of the system is at most one move of the abstract graph for each
job. The statements with a status test follow an edge by that test; the two
without one follow an edge because only the holder of a running row issues
them. Failing commands, lost answers and crashes are included.
-/

namespace JobFlow.Runs.Lifecycle

open JobFlow.Model
open JobFlow.Model.JobRepository
open JobFlow.Lib.Transition
open JobFlow.Abstract.Lifecycle
open Steps History Ownership
open Relation (ReflTransGen)

def statusOf (s : State) (id : String) : Option Status := (row s id).map Job.status

theorem edge_failed {now : Time} {message : String} {r : Job} (h : r.status = .running) :
    Edge (some r.status) (some ((failedSet now message).apply r).status) := by
  simp only [failedSet, h]
  split
  · exact .fail
  · exact .exhaust

/-- One step is one edge or none, for every job. -/
theorem status_step {tr : List Act} {s s' : State} {l : Label} {a : Act} (ho : Owned tr s)
    (h : step s l = some (s', a)) {id : String} (hf : statusOf s id ≠ some .failed) :
    statusOf s' id = statusOf s id ∨ Edge (statusOf s id) (statusOf s' id) := by
  have hstep := step_row h id
  unfold statusOf
  generalize hr : row s id = row₀ at hstep
  generalize row s' id = row' at hstep
  cases hstep with
  | same => exact .inl rfl
  | created hl hpc hnew =>
    right
    rw [Option.map_none, Option.map_some]
    obtain ⟨hst, -⟩ | ⟨hst, -⟩ := newRow_status hnew <;> rw [hst]
    · exact .createScheduled
    · exact .createQueued
  | cancelled hpc hw =>
    right
    simp only [cancelWhere, Bool.and_eq_true, Bool.or_eq_true, decide_eq_true_eq] at hw
    obtain ⟨-, (hst | hst) | hst⟩ := hw <;> simp only [Option.map_some, hst, cancelSet]
    · exact .cancelQueued
    · exact .cancelScheduled
    · exact .cancelRetrying
  | @requeued p userID r hpc hw =>
    simp only [requeueWhere, Bool.and_eq_true, Bool.or_eq_true, decide_eq_true_eq] at hw
    obtain ⟨-, hst | hst⟩ := hw
    · exact absurd (by simp [statusOf, hr, hst]) hf
    · right
      simp only [Option.map_some, hst, requeueSet]
      exact .revive
  | promoted hpc hid hd =>
    right
    simp only [isDue, Bool.and_eq_true, decide_eq_true_eq] at hd
    simp only [Option.map_some, hd.1, promotedSet]
    exact .promote
  | running hpc hw =>
    right
    simp only [runningWhere, Bool.and_eq_true, Bool.or_eq_true, decide_eq_true_eq] at hw
    obtain ⟨-, hst | hst⟩ := hw <;> simp only [Option.map_some, hst, runningSet]
    · exact .start
    · exact .restart
  | completed hpc hid =>
    right
    have hst := ho.row_running (by rw [hpc]; exact hid) hr
    simp only [Option.map_some, hst, completedSet]
    exact .complete
  | failed hpc hid =>
    right
    exact edge_failed (ho.row_running (by rw [hpc]; exact hid) hr)

/-- `Requeue` accepts the status `failed`, but no statement writes it. -/
theorem never_failed {ok : State → Label → Prop} {tr : List Act} {s : State}
    (h : Run step ok State.initial tr s) (id : String) : statusOf s id ≠ some .failed := by
  refine h.invariant (I := fun _ s => statusOf s id ≠ some .failed) (by simp [statusOf, row,
    State.initial, World.initial]) ?_
  intro tr s s' l a hrun hf _ hs
  rcases status_step (owned_run hrun) hs hf with heq | hedge
  · rwa [heq]
  · exact fun hst => no_edge_failed (hst ▸ hedge)

/-- Whatever follows a run is a path of the graph for every job. -/
theorem status_path {tr tr' : List Act} {s s' : State}
    (h : Run step anyStep State.initial tr s) (h' : Run step anyStep s tr' s') (id : String) :
    ReflTransGen Edge (statusOf s id) (statusOf s' id) := by
  refine h'.simulates (fun s => statusOf s id) ?_
  intro tr'' m m' l a hrun _ hs
  have hm := h.trans hrun
  exact status_step (owned_run hm) hs (never_failed hm id)

/-- A `Cancel` that takes effect leaves the job cancelled. -/
theorem cancelled_status {s s' : State} {l : Label} {id : String}
    (h : step s l = some (s', .cancelled id)) : statusOf s' id = some .cancelled := by
  have hstep := step_row h id
  unfold statusOf
  generalize row s id = row₀ at hstep
  generalize row s' id = row' at hstep
  cases hstep with
  | same ht => exact absurd rfl ht
  | cancelled hpc hw => rfl

/-- `Process` is started inside `handle` only. -/
theorem processStarted_executes {s s' : State} {l : Label} {p : Pid} {id : String}
    (h : step s l = some (s', .processStarted p id)) : executes id (s.procs p) := by
  have hm := step_moves h p
  generalize s'.procs p = pc at hm
  cases hm with
  | stays ha => exact absurd rfl ha
  | starts _ _ ha | crashes _ ha | stops _ _ ha | finishes _ _ ha => cases ha
  | runs hl hran =>
    have hact := hran.act
    unfold observe at hact
    split at hact <;> cases hact
    next hpc => rw [hpc]; rfl

/-- A cancelled job is not started again. -/
theorem not_started_after_cancel {before after : List Act} {s : State} {id : String}
    (h : Run step anyStep State.initial (before ++ .cancelled id :: after) s) (p : Pid) :
    .processStarted p id ∉ after := by
  intro hp
  obtain ⟨m, l, m', hm, _, hcancel, hafter⟩ := h.observed
  have hm' : Run step anyStep State.initial _ m' := .next hm trivial hcancel
  obtain ⟨between, rest, rfl⟩ := List.append_of_mem hp
  obtain ⟨k, _, _, hk, _, hstart, _⟩ := hafter.observed
  have hsame : statusOf k id = some .cancelled := by
    rw [Final.absorbing (.inr (cancelled_status hcancel)) (status_path hm' hk id)]
    exact cancelled_status hcancel
  have ho := owned_run (hm'.trans hk)
  obtain ⟨r, hr, hst⟩ := ho.running p id (ho.executing p id (processStarted_executes hstart))
  rw [statusOf, hr, Option.map_some, hst] at hsame
  cases hsame

/-- Every run, with failing commands, lost answers and crashes, refines the
abstract life of each job: a step is one edge or none, finished jobs stay
finished, `failed` is unreachable, and `Process` is not started after a `Cancel`. -/
theorem lifecycle_refinement {tr : List Act} {s : State}
    (h : Run step anyStep State.initial tr s) (id : String) :
    (∀ l s' a, step s l = some (s', a) →
      statusOf s' id = statusOf s id ∨ Edge (statusOf s id) (statusOf s' id)) ∧
    ReflTransGen Edge none (statusOf s id) ∧
    (Final (statusOf s id) → ∀ tr' s', Run step anyStep s tr' s' →
      statusOf s' id = statusOf s id) ∧
    statusOf s id ≠ some .failed ∧
    ∀ before after, tr = before ++ .cancelled id :: after →
      ∀ p, .processStarted p id ∉ after := by
  refine ⟨?_, ?_, ?_, never_failed h id, ?_⟩
  · intro l s' a hs
    exact status_step (owned_run h) hs (never_failed h id)
  · exact status_path .start h id
  · intro hfinal tr' s' hrun
    exact hfinal.absorbing (status_path h hrun id)
  · rintro before after rfl p
    exact not_started_after_cancel h p

/-- The job is created (0) and popped by a worker (1), then cancelled (2) before
the worker's `MarkRunning`. -/
def cancelledWhilePopped : List Label :=
  [.start 0 (.request (.create ⟨"u1", "default", "send_email", none, 0, 3, none⟩)),
    .run 0 .ok { freshID := "j1" }, .run 0 .ok {},
    .start 1 (.worker ⟨"w1", "host", ["default"]⟩), .run 1 .ok {},
    .start 2 (.request (.cancel "j1" "u1")), .run 2 .ok {}, .run 1 .ok {}]

theorem lifecycle_refinement_cancelled : ∃ tr s, Run step anyStep State.initial tr s ∧
    .cancelled "j1" ∈ tr ∧ Final (statusOf s "j1") ∧
    ReflTransGen Edge none (statusOf s "j1") :=
  have hrun := Run.of_outcome (l := cancelledWhilePopped) (by decide)
    (admitted_anyStep State.initial _)
  ⟨_, _, hrun, by decide, .inr (by decide), (lifecycle_refinement hrun "j1").2.1⟩

end JobFlow.Runs.Lifecycle
