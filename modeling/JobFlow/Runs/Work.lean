import JobFlow.Runs.Budget

/-!
# The work that is left on a job

Each statement that moves a job without its owner asking for it again takes something off a
natural number that the row determines. So the moves of a job are bounded by what its
insert and its retries have put there, whatever interleaves, fails or stops, and nothing in
the system keeps a job going round.
-/

namespace JobFlow.Runs.Work

open JobFlow.Model
open JobFlow.Model.JobRepository
open JobFlow.Lib.Transition
open Steps History Ownership Budget

/-- The moves that are still ahead of a job which is not retried, at most: a start and an end
for each execution that the attempts allow, and the promotion. -/
def work (r : Job) : Nat :=
  match r.status with
  | .scheduled => 2 * (budget (r.maxAttempts - r.attempts)).toNat + 1
  | .queued | .retrying => 2 * (budget (r.maxAttempts - r.attempts)).toNat
  | .running => 2 * (r.maxAttempts - r.attempts).toNat + 1
  | _ => 0

def workOf : Option Job → Nat
  | none => 0
  | some r => work r

@[simp] theorem workOf_some (r : Job) : workOf (some r) = work r := rfl

/-- A statement moved the job, other than its insert and its revival. -/
def isMove (id : String) : Act → Bool
  | .cancelled i | .markedRunning _ i _ | .markedCompleted _ i | .markedFailed _ i _ _ _ => i = id
  | .promoted ids => id ∈ ids
  | _ => false

def moves (id : String) (tr : List Act) : Nat := tr.countP (isMove id)

@[simp] theorem moves_snoc (id : String) (tr : List Act) (a : Act) :
    moves id (tr ++ [a]) = moves id tr + if isMove id a then 1 else 0 := by
  simp [moves, List.countP_append, List.countP_singleton]

theorem touches_of_isMove {id : String} {a : Act} (h : isMove id a) : touches id a := by
  cases a <;> simp_all [isMove, touches]

/-- What one step does to the work on a job. -/
inductive WorkStep (id : String) : Act → Option Job → Option Job → Prop
  | same {a : Act} {row : Option Job} (h : ¬ touches id a) : WorkStep id a row row
  | created {r : Job} (h : work r ≤ 2 * (budget r.maxAttempts).toNat + 1) :
      WorkStep id (.created id) none (some r)
  | requeued {r r' : Job} (h : work r = 0) (h' : work r' = 2)
      (hmax : r'.maxAttempts = r.maxAttempts) : WorkStep id (.requeued id) (some r) (some r')
  | moved {a : Act} {r r' : Job} (hmove : isMove id a) (h : work r' < work r)
      (hmax : r'.maxAttempts = r.maxAttempts) : WorkStep id a (some r) (some r')

theorem workStep {tr : List Act} {s s' : State} {l : Label} {a : Act} (ho : Owned tr s)
    (h : step s l = some (s', a)) {id : String} (hacc : Accounted id tr (row s id)) :
    WorkStep id a (row s id) (row s' id) := by
  have hstep := step_row h id
  generalize hr : row s id = row₀ at hstep hacc
  generalize row s' id = row' at hstep
  cases hstep with
  | same ht => exact .same ht
  | @created _ _ _ _ r hl hpc hnew =>
    refine .created ?_
    obtain ⟨-, -, -, -, hatt, -⟩ := newRow_fields hnew
    obtain ⟨hst, -⟩ | ⟨hst, -⟩ := newRow_status hnew <;>
      simp only [work, hst, hatt, Nat.cast_zero, Int.sub_zero] <;> omega
  | @cancelled _ _ r hpc hw =>
    refine .moved (by simp [isMove]) ?_ rfl
    have hb := budget_cases (r.maxAttempts - r.attempts)
    simp only [cancelWhere, Bool.and_eq_true, Bool.or_eq_true, decide_eq_true_eq] at hw
    obtain ⟨-, (hst | hst) | hst⟩ := hw <;> simp only [work, hst, cancelSet] <;> omega
  | @requeued _ _ r hpc hw =>
    obtain ⟨-, hspent⟩ := hacc
    have hb := budget_cases r.maxAttempts
    simp only [requeueWhere, Bool.and_eq_true, Bool.or_eq_true, decide_eq_true_eq] at hw
    obtain ⟨-, hst | hst⟩ := hw <;> simp only [Spent, hst] at hspent
    refine .requeued (by simp only [work, hst]) ?_ rfl
    have hone : budget (r.maxAttempts - r.attempts) = 1 := by
      unfold budget
      omega
    simp only [work, requeueSet, hone]
    rfl
  | @promoted _ ids r hpc hid hd =>
    refine .moved (by simpa [isMove] using hid) ?_ rfl
    simp only [isDue, Bool.and_eq_true, decide_eq_true_eq] at hd
    simp only [work, hd.1, promotedSet]
    omega
  | @running _ _ r hpc hw =>
    refine .moved (by simp [isMove]) ?_ rfl
    have hb : 1 ≤ budget (r.maxAttempts - r.attempts) ∧
        r.maxAttempts - r.attempts ≤ budget (r.maxAttempts - r.attempts) :=
      ⟨le_max_left _ _, le_max_right _ _⟩
    simp only [runningWhere, Bool.and_eq_true, Bool.or_eq_true, decide_eq_true_eq] at hw
    obtain ⟨-, hst | hst⟩ := hw <;> simp only [work, hst, runningSet] <;> omega
  | @completed _ _ _ r hpc hid =>
    refine .moved (by simp [isMove]) ?_ rfl
    have hst := ho.row_running (by rw [hpc]; exact hid) hr
    simp only [work, hst, completedSet]
    omega
  | @failed _ _ _ r _ hpc hid =>
    refine .moved (by simp [isMove]) ?_ rfl
    have hst := ho.row_running (by rw [hpc]; exact hid) hr
    by_cases hlt : (r.attempts : Int) < r.maxAttempts
    · have hb : budget (r.maxAttempts - r.attempts) = r.maxAttempts - r.attempts := by
        unfold budget
        omega
      simp only [work, hst, failedSet, if_pos hlt, hb]
      omega
    · simp only [work, hst, failedSet, if_neg hlt]
      omega

/-- What a job has been given and what it has used up. -/
def Charged (id : String) (tr : List Act) : Option Job → Prop
  | none => moves id tr = 0
  | some r => moves id tr + work r ≤ 2 * (budget r.maxAttempts).toNat + 1 + 2 * requeues id tr

theorem charged_step {id : String} {tr : List Act} {a : Act} {old new : Option Job}
    (h : WorkStep id a old new) (hc : Charged id tr old) : Charged id (tr ++ [a]) new := by
  cases h with
  | same ht =>
    have hmove : isMove id a = false := Bool.eq_false_iff.mpr fun hm => ht (touches_of_isMove hm)
    cases old with
    | none => simpa [Charged, hmove] using hc
    | some r => simpa [Charged, hmove, isRequeue_of_not_touches ht] using hc
  | created hw =>
    simp only [Charged, moves_snoc, requeues_snoc] at hc ⊢
    simp only [isMove, isRequeue, Bool.false_eq_true, if_false]
    omega
  | requeued hw hw' hmax =>
    simp only [Charged, moves_snoc, requeues_snoc, isMove, isRequeue, decide_true, if_true,
      Bool.false_eq_true, if_false] at hc ⊢
    rw [hw', hmax]
    omega
  | moved hmove hw hmax =>
    simp only [Charged, moves_snoc, requeues_snoc, hmove, if_true] at hc ⊢
    rw [hmax]
    omega

theorem charged_run {ok : State → Label → Prop} {tr : List Act} {s : State}
    (h : Run step ok State.initial tr s) (id : String) : Charged id tr (row s id) := by
  refine h.invariant (I := fun tr s => Charged id tr (row s id)) rfl ?_
  intro tr s s' l a hrun hc _ hs
  exact charged_step (workStep (owned_run hrun) hs (accounted_run hrun id)) hc

/-- In every run, with failing commands, lost answers and crashes, the statements that move a
job are at most a start and an end for each of its `max 1 maxAttempts` executions, one
promotion or cancellation, and two more for each time it was retried. -/
theorem work_bounded {tr : List Act} {s : State} (h : Run step anyStep State.initial tr s)
    {id : String} {r : Job} (hr : row s id = some r) :
    moves id tr ≤ 2 * (max 1 r.maxAttempts).toNat + 1 + 2 * requeues id tr := by
  have hc := charged_run h id
  rw [hr] at hc
  simp only [Charged, budget] at hc
  omega

theorem work_bounded_failedTwice : ∃ tr s r, Run step anyStep State.initial tr s ∧
    row s "j1" = some r ∧ requeues "j1" tr = 1 ∧ moves "j1" tr = 4 ∧
    moves "j1" tr ≤ 2 * (max 1 r.maxAttempts).toNat + 1 + 2 * requeues "j1" tr :=
  have hrun := Run.of_outcome failedTwice_runs (admitted_anyStep State.initial _)
  have hrow := (Option.some_get failedTwice_row).symm
  ⟨_, _, _, hrun, hrow, by decide, by decide, work_bounded hrun hrow⟩

end JobFlow.Runs.Work
