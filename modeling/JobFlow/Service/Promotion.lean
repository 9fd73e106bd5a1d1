import JobFlow.Model.Statement

/-!
# Overlapping promotions

`ReadyScheduled` tests the status in its inner `SELECT` alone, so what it changes is due
in its snapshot, and still scheduled only if no other statement has committed a change
of the row in between.
-/

namespace JobFlow.Service.Promotion

open JobFlow.Model
open JobFlow.Model.JobRepository
open JobFlow.Lib.ReadCommitted
open JobFlow.Lib.Transition

/-- The changes that have been committed, in their order, are safe: promotions are of
scheduled jobs and of each at most once, and no job that runs, is completed or is cancelled
becomes queued. -/
structure Safe (log : List (Change String Job Statement)) : Prop where
  scheduled : ∀ c ∈ log, c.statement.promotes → c.old.status = .scheduled
  once : ∀ id, log.countP (fun c => c.statement.promotes && c.key = id) ≤ 1
  settled : ∀ c ∈ log, c.old.status ∈ [Status.running, .completed, .cancelled] →
    c.new.status ≠ .queued

/-- A promotion commits only what is still as it was in its snapshot. -/
def Undisturbed (d : Database JobTable String Statement) : Label String Statement → Prop
  | .commit i => ∀ txn ∈ d.active i, txn.statement.promotes →
      ∀ id ∈ txn.written, d.version id = txn.seen id
  | _ => True

instance (d : Database JobTable String Statement) (l : Label String Statement) :
    Decidable (Undisturbed d l) := by
  unfold Undisturbed
  split <;> infer_instance

def isScheduled (r : Job) : Bool := r.status = .scheduled

/-- No statement schedules a job. -/
theorem isScheduled_set (st : Statement) (r : Job) : isScheduled (statements.set st r) = false := by
  cases st with
  | markFailed now id message =>
    have h : ((failedSet now message).apply r).status ≠ .scheduled := by
      simp only [failedSet]
      split <;> simp
    exact decide_eq_false h
  | _ => rfl

/-- Apart from promotions only `Requeue` queues a job, and its `WHERE` clause asks for one
that has failed. -/
theorem queued_of_matching {st : Statement} (hp : st.promotes = false) {batch : List String}
    {r : Job} (hm : st.matching batch r) (hq : (st.assignment.apply r).status = .queued) :
    r.status = .failed ∨ r.status = .deadLetter := by
  cases st with
  | readyScheduled now limit => cases hp
  | requeue now id userID =>
    simp only [Statement.matching, requeueWhere, Bool.and_eq_true, Bool.or_eq_true,
      decide_eq_true_eq] at hm
    exact hm.2
  | markFailed now id message =>
    simp only [Statement.assignment, failedSet] at hq
    split at hq <;> cases hq
  | cancel | markRunning | markCompleted =>
    simp [Statement.assignment, cancelSet, runningSet, completedSet] at hq

variable {t : JobTable} {d d' : Database JobTable String Statement}
  {tr : List (List (Change String Job Statement))} {log : List (Change String Job Statement)}

/-- What a commit other than a promotion makes of settled jobs. -/
theorem commit_settled (hs : Sound statements d) {i : Nat}
    (h : statements.commit d i = some (d', log)) :
    ∀ c ∈ log, c.statement.promotes = false → c.new.status = .queued →
      c.old.status = .failed ∨ c.old.status = .deadLetter := by
  have hguard := commit_guarded hs h
    (P := fun st r => st.promotes = false → (st.assignment.apply r).status = .queued →
      r.status = .failed ∨ r.status = .deadLetter)
    (fun st t ids hsel id hid r hr hp => by
      obtain ⟨r', hr', hm⟩ := Statement.found_of_selects hsel id hid
      obtain rfl := Option.some.inj (hr'.symm.trans hr)
      exact queued_of_matching hp (hm hp []))
    (fun st ids r hm hp => queued_of_matching hp hm)
  obtain ⟨txn, -, -, hlog⟩ := commit_justified hs h
  intro c hc hp hq
  refine hguard c hc hp ?_
  rwa [(hlog c hc).new] at hq

/-- A promotion that finds its rows as they were has found them scheduled. -/
theorem scheduled_of_undisturbed (hs : Sound statements d) {i : Nat}
    (h : statements.commit d i = some (d', log)) (hu : Undisturbed d (.commit i)) :
    ∀ c ∈ log, c.statement.promotes → c.old.status = .scheduled := by
  obtain ⟨txn, htxn, ht, hlog⟩ := commit_justified hs h
  intro c hc hp
  have hj := hlog c hc
  rw [hj.statement] at hp
  have hsame := ht.unchanged c.key (hu txn htxn hp c.key hj.written)
  have hold := hsame.symm.trans hj.latest
  cases hst : txn.statement with
  | readyScheduled now limit =>
    have hsel := ht.selected
    rw [hst] at hsel
    have hdue := Statement.due_of_selects hsel hj.selected hold
    simp only [isDue, Bool.and_eq_true, decide_eq_true_eq] at hdue
    exact hdue.1
  | _ => rw [hst] at hp; cases hp

/-- A row that has changed since the snapshot of a promotion is not scheduled any more. -/
theorem undisturbed_of_scheduled {past : List (Change String Job Statement)}
    (hs : Sound statements d)
    (hl : Leaves statements isScheduled past d) {i : Nat}
    (h : statements.commit d i = some (d', log))
    (hsched : ∀ c ∈ log, c.statement.promotes → c.old.status = .scheduled) :
    Undisturbed d (.commit i) := by
  intro txn htxn hp id hid
  have ht := hs.txns i txn htxn
  obtain ⟨txn', htxn', -, rfl, -⟩ := commit_cases h
  obtain rfl := Option.some.inj (htxn.symm.trans htxn')
  obtain ⟨r, hr, -⟩ := (Option.any_eq_true _ _).mp (ht.taken id hid)
  have hstatus := hsched ⟨txn.statement, id, r, statements.set txn.statement r⟩
    (mem_changes.mpr ⟨rfl, hid, hr, rfl⟩) hp
  by_contra hne
  have hleft := hl.of_seen_ne ht hne hr
  exact absurd hstatus (of_decide_eq_false hleft)

theorem once_of_scheduled
    (hl : Leaves statements isScheduled log d)
    (hsched : ∀ c ∈ log, c.statement.promotes → c.old.status = .scheduled) (id : String) :
    log.countP (fun c => c.statement.promotes && c.key = id) ≤ 1 := by
  refine Nat.le_trans (List.countP_mono_left fun c hc h => ?_) (hl.once id)
  obtain ⟨hp, hk⟩ := Bool.and_eq_true_iff.mp h
  exact Bool.and_eq_true_iff.mpr ⟨hk, decide_eq_true (hsched c hc hp)⟩

theorem leaves_scheduled {ok : Database JobTable String Statement → Label String Statement → Prop}
    (hr : Run statements.step ok { table := t } tr d) :
    Leaves statements isScheduled tr.flatten d :=
  leaves_run isScheduled_set hr

/-- One step keeps the changes safe exactly if it is undisturbed. -/
theorem safe_step_iff {ok : Database JobTable String Statement → Label String Statement → Prop}
    (hr : Run statements.step ok { table := t } tr d) (hsafe : Safe tr.flatten)
    {l : Label String Statement} (hstep : statements.step d l = some (d', log)) :
    Safe (tr.flatten ++ log) ↔ Undisturbed d l := by
  have hs := sound_run hr
  rcases step_cases hstep with ⟨hl, rfl, -, -⟩ | ⟨i, rfl, hc⟩
  · rw [List.append_nil]
    refine iff_of_true hsafe ?_
    cases l with
    | commit i => exact absurd rfl (hl i)
    | _ => trivial
  · constructor
    · intro h
      exact undisturbed_of_scheduled hs (leaves_scheduled hr) hc fun c hmem =>
        h.scheduled c (List.mem_append_right _ hmem)
    · intro hu
      have hsched : ∀ c ∈ tr.flatten ++ log, c.statement.promotes → c.old.status = .scheduled := by
        intro c hmem
        rcases List.mem_append.mp hmem with hmem | hmem
        · exact hsafe.scheduled c hmem
        · exact scheduled_of_undisturbed hs hc hu c hmem
      have hleaves := leaves_commit isScheduled_set hs (leaves_scheduled hr) hc
      refine ⟨hsched, once_of_scheduled hleaves hsched, fun c hmem hold hq => ?_⟩
      rcases List.mem_append.mp hmem with hmem | hnew
      · exact hsafe.settled c hmem hold hq
      · cases hp : c.statement.promotes with
        | true => simp [hsched c hmem hp] at hold
        | false => rcases commit_settled hs hc c hnew hp hq with h | h <;> simp [h] at hold

/-- Over a run in which promotions are undisturbed the changes are safe, and they stay so
over a further step exactly if that is undisturbed too. -/
theorem promotion_safe
    (hr : Run statements.step Undisturbed { table := t } tr d) :
    Safe tr.flatten ∧ ∀ l d' log, statements.step d l = some (d', log) →
      (Safe (tr.flatten ++ log) ↔ Undisturbed d l) := by
  have hsafe : Safe tr.flatten := by
    refine hr.invariant (I := fun tr _ => Safe tr.flatten) ?_ ?_
    · exact ⟨fun c hc => (by cases hc), fun id => Nat.zero_le _, fun c hc => (by cases hc)⟩
    · intro tr d d' l log hr hsafe hu hstep
      rw [List.flatten_append, List.flatten_singleton]
      exact (safe_step_iff hr hsafe hstep).mpr hu
  exact ⟨hsafe, fun _ _ _ hstep => safe_step_iff hr hsafe hstep⟩

/-- One job that is due. -/
def dueJob : JobTable where
  rows := [⟨"j1", some "u1", "default", "send_email", .null, .scheduled, 0, 0, 3, none, some 5, none,
    none, 0, 0⟩]
  key := List.nodup_singleton _

/-- A statement of its own on the job. -/
def whole (i : Nat) (st : Statement) : List (Label String Statement) :=
  [.start i st ["j1"], .visit i, .commit i]

/-- Two schedulers (0, 1) overlap, and the first promotion is committed when the second
takes its snapshot. -/
def inTurn : List (Label String Statement) :=
  [.start 0 (.readyScheduled 10 50) ["j1"], .visit 0, .commit 0,
    .start 1 (.readyScheduled 11 50) [], .start 2 (.markRunning 12 "j1") ["j1"], .commit 1,
    .visit 2, .commit 2]

theorem inTurn_runs : (execute statements.step { table := dueJob } inTurn).isSome := by decide

theorem promotion_safe_inTurn : ∃ tr d, Run statements.step Undisturbed { table := dueJob } tr d ∧
    tr.flatten.map (fun c => c.new.status) = [.queued, .running] ∧ Safe tr.flatten := by
  have hrun := Run.of_outcome inTurn_runs
    (show Admitted statements.step Undisturbed { table := dueJob } inTurn by decide)
  exact ⟨_, _, hrun, by decide, (promotion_safe hrun).1⟩

/-- Both schedulers have selected the job when the first promotes it. A worker (2, 3) runs
and completes it before the second comes to the row. -/
def overlap : List (Label String Statement) :=
  .start 0 (.readyScheduled 10 50) ["j1"] :: .start 1 (.readyScheduled 10 50) ["j1"] ::
    .visit 0 :: .commit 0 :: whole 2 (.markRunning 11 "j1") ++ whole 3 (.markCompleted 12 "j1") ++
    [.visit 1, .commit 1]

theorem overlap_runs : (execute statements.step { table := dueJob } overlap).isSome := by decide

/-- The completed job is queued again. -/
theorem completed_queued_again : ¬ ∀ t tr d, Run statements.step anyStep { table := t } tr d →
    Safe tr.flatten := by
  intro hall
  have hsafe := hall _ _ _ (Run.of_outcome overlap_runs (admitted_anyStep _ _))
  have hagain : ∃ c ∈ (outcome statements.step { table := dueJob } overlap overlap_runs).2.flatten,
      c.old.status = .completed ∧ c.new.status = .queued := by decide
  obtain ⟨c, hc, hold, hnew⟩ := hagain
  exact hsafe.settled c hc (by simp [hold]) hnew

end JobFlow.Service.Promotion
