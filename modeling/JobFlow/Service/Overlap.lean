import JobFlow.Lib.SingleRow
import JobFlow.Model.Statement
import JobFlow.Model.System

/-!
# Overlapping statements on single rows

The system takes each statement as one step. PostgreSQL does not: it selects in a snapshot,
waits for locks and tests newer versions of a row again. For the statements that name one
job the difference can not be seen. What their callers are told, and the table they leave,
is what the steps of the system give, each at one instant between start and end of its
statement. `ReadyScheduled`, which tests in its inner `SELECT`, is none of them; one at a
time it still keeps no other statement from its commit.
-/

namespace JobFlow.Service.Overlap

open JobFlow.Model
open JobFlow.Model.JobRepository
open JobFlow.Lib.ReadCommitted
open JobFlow.Lib.Transition
open JobFlow.Lib

/-- The `NOW()` of a statement. -/
def now : Statement → Time
  | .cancel now _ _ | .markRunning now _ | .markCompleted now _ | .markFailed now _ _
  | .requeue now _ _ | .readyScheduled now _ => now

/-- The command of the system that stands for it. -/
def cmd : Statement → Cmd
  | .cancel _ id userID => .cancelJob id userID
  | .markRunning _ id => .markRunning id
  | .markCompleted _ id => .markCompleted id
  | .markFailed _ id message => .markFailed id message
  | .requeue _ id userID => .requeueJob id userID
  | .readyScheduled _ limit => .readyScheduled limit

/-- What the caller is told, from the rows that the statement has written. -/
def reply : Statement → List Job → Reply
  | .cancel .., rows | .markCompleted .., rows => .affected rows.length
  | .markRunning .., rows | .markFailed .., rows | .requeue .., rows => ofRow (scanRow rows)
  | .readyScheduled .., rows => .jobs rows

/-- The reply to a statement that has written nothing. -/
def nothing : Reply → Bool
  | .affected 0 | .err _ | .jobs [] => true
  | _ => false

/-- The step of the system, on the table of jobs. -/
def effect (st : Statement) (t : JobTable) : JobTable × Reply :=
  match exec { World.initial with jobs := t, clock := now st } {} (cmd st) with
  | some (w, r) => (w.jobs, r)
  | none => (t, .done)

/-- Without promotions the step is an `UPDATE` and the reply to the rows it returns. -/
theorem effect_eq {st : Statement} (hp : st.promotes = false) (t : JobTable) :
    effect st t = ((t.update (st.matching []) st.assignment).1,
      reply st (t.update (st.matching []) st.assignment).2) := by
  cases st with
  | readyScheduled now limit => cases hp
  | _ => rfl

/-- Every statement but the promotion is about the row of one id. -/
theorem single_of_not_promotes {st : Statement} (hp : st.promotes = false) :
    Single statements st := by
  obtain ⟨id, hid⟩ : ∃ id, ∀ r, st.matching [] r → r.id = id := by
    cases st with
    | readyScheduled now limit => cases hp
    | cancel now id userID =>
      refine ⟨id, fun r hr => ?_⟩
      simp only [Statement.matching, cancelWhere, Bool.and_eq_true, decide_eq_true_eq] at hr
      exact hr.1.1
    | markRunning now id =>
      refine ⟨id, fun r hr => ?_⟩
      simp only [Statement.matching, runningWhere, Bool.and_eq_true, decide_eq_true_eq] at hr
      exact hr.1
    | markCompleted now id => exact ⟨id, fun r hr => of_decide_eq_true hr⟩
    | markFailed now id message => exact ⟨id, fun r hr => of_decide_eq_true hr⟩
    | requeue now id userID =>
      refine ⟨id, fun r hr => ?_⟩
      simp only [Statement.matching, requeueWhere, Bool.and_eq_true, decide_eq_true_eq] at hr
      exact hr.1.1
  refine ⟨id, st.matching [], fun t ids => ?_, fun ids r => by
    rw [← Statement.matching_eq hp ids]; rfl⟩
  have hrows : (t.rows.filter (st.matching [])).map Job.id =
      if (t.find id).any (st.matching []) then [id] else [] := by
    have hret := t.update_returned ⟨fun r => r, fun _ => rfl⟩ hid
    simp only [JobTable.update, List.map_id_fun', Option.map_id_fun', id_eq] at hret
    rw [hret]
    cases hf : t.find id with
    | none => rfl
    | some r => by_cases hr : st.matching [] r <;> simp [Option.filter, hr, JobTable.find_id hf]
  change st.selects t ids = true ↔ _
  rw [Statement.selects_eq hp, decide_eq_true_eq, hrows]
  rfl

/-- The rows it returns are those of its changes. -/
theorem changes_new {st : Statement} (hp : st.promotes = false) {t : JobTable}
    {ids : List String} (h : st.selects t ids) :
    (statements.changes t st ids).map Change.new =
      (t.update (st.matching []) st.assignment).2 := by
  rw [Statement.selects_eq hp, decide_eq_true_eq] at h
  subst h
  unfold Dialect.changes
  change _ = (t.rows.filter (st.matching [])).map st.assignment.apply
  rw [List.filterMap_map, List.map_filterMap, ← List.filterMap_eq_map]
  refine List.filterMap_congr fun r hr => ?_
  have hf := (t.mem_rows_iff r).mp (List.mem_filter.mp hr).1
  simp [statements, hf]

theorem implements :
    Implements statements (fun st => st.promotes = false) reply effect nothing where
  single := single_of_not_promotes
  write_nil t st := JobTable.update_eq_self (by simp [JobTable.update])
  effect {st t ids} hp h := by
    have halone := Statement.alone_eq h
    rw [effect_eq hp, changes_new hp h]
    refine congrArg (·, _) ?_
    cases st with
    | readyScheduled now limit => cases hp
    | _ => exact Option.some.inj halone
  idle st := by cases st <;> rfl

/-- Any number of overlapping `Cancel`, `MarkRunning`, `MarkCompleted`, `MarkFailed` and
`Requeue` statements: what their callers see in any order of snapshots, waits, commits and
statements given up is what they see when each is one step of the system, taken between
its start and its end, and the table is the same. -/
theorem statements_linearizable {t : JobTable} {d : Database JobTable String Statement}
    {tr : List (List (AtomicObject.Action Statement Reply))}
    (h : Run (statements.shows reply) (Starts fun _ st => st.promotes = false)
      { table := t } tr d) :
    ∃ tr', Run (AtomicObject.step effect nothing) anyStep { content := t } tr'
      (d.object reply) ∧ tr'.flatten = tr.flatten :=
  shows_answered implements h

/-- A table of one job. -/
def oneJob (status : Status) (scheduledAt : Option Time) : JobTable where
  rows := [⟨"j1", some "u1", "default", "send_email", .null, status, 0, 0, 3, none, scheduledAt,
    none, none, 0, 0⟩]
  key := List.nodup_singleton _

/-- Two workers (0, 1) and its user (2) have all selected the job. The second worker is
the first to come to the row, and the others find it running. -/
def raced : List (Label String Statement) :=
  [.start 0 (.markRunning 10 "j1") ["j1"], .start 1 (.markRunning 11 "j1") ["j1"],
    .start 2 (.cancel 12 "j1" "u1") ["j1"], .visit 1, .commit 1, .visit 2, .visit 0, .commit 0,
    .commit 2]

theorem raced_runs :
    (execute (statements.shows reply) { table := oneJob .queued none } raced).isSome := by decide

instance (d : Database JobTable String Statement) :
    (l : Label String Statement) → Decidable (Starts (fun _ st => st.promotes = false) d l)
  | .start _ st _ => inferInstanceAs (Decidable (st.promotes = false))
  | .visit _ | .commit _ | .abort _ => inferInstanceAs (Decidable True)

theorem statements_linearizable_raced : ∃ tr d tr',
    Run (statements.shows reply) (Starts fun _ st => st.promotes = false)
      { table := oneJob .queued none }
      tr d ∧ d.table.rows.map Job.status = [.running] ∧
    Run (AtomicObject.step effect nothing) anyStep { content := oneJob .queued none } tr'
      (d.object reply) ∧ tr'.flatten = tr.flatten := by
  have hrun := Run.of_outcome raced_runs
    (show Admitted (statements.shows reply) (Starts fun _ st => st.promotes = false)
      { table := oneJob .queued none } raced by decide)
  obtain ⟨tr', h⟩ := statements_linearizable hrun
  exact ⟨_, _, tr', hrun, by decide, h⟩

/-- A promotion starts only when no other is under way. -/
def OnePromotion (d : Database JobTable String Statement) (st : Statement) : Prop :=
  st.promotes = false ∨ ∀ i txn, d.active i = some txn → txn.statement.promotes = false

/-- While at most one promotion is under way at a time, no statement waits for ever: from
every state reached, all of them can go on to their commits. -/
theorem statements_complete {t : JobTable} {d : Database JobTable String Statement}
    {tr : List (List (Change String Job Statement))}
    (h : Run statements.step (Starts OnePromotion) { table := t } tr d) (clients : List Nat) :
    ∃ tr' d', Run statements.step Advances d tr' d' ∧ ∀ i ∈ clients, d'.active i = none := by
  refine run_completes (h.mono fun d l hl => ?_) clients
  cases l with
  | start i st selected =>
    exact hl.imp single_of_not_promotes fun hall i txn hi => single_of_not_promotes (hall i txn hi)
  | visit | commit | abort => trivial

/-- The user (1) waits for the row that a promotion (0) has changed. -/
theorem statements_complete_waiting : ∃ tr d tr' d',
    Run statements.step (Starts OnePromotion) { table := oneJob .scheduled (some 5) } tr d ∧
    d.locks "j1" = some 0 ∧ (d.active 1).any (fun txn => txn.pending = ["j1"]) ∧
    Run statements.step Advances d tr' d' ∧ ∀ i ∈ [0, 1], d'.active i = none := by
  have hfirst : ∃ d, Run statements.step (Starts OnePromotion)
      { table := oneJob .scheduled (some 5) } [[], [], []] d ∧ d.locks "j1" = some 0 ∧
      (d.active 1).any (fun txn => txn.pending = ["j1"]) :=
    ⟨_, .next (.next (.next .start
        (show Starts OnePromotion _ (.start 0 (.readyScheduled 10 50) ["j1"]) from
          .inr fun _ _ h => by cases h) rfl)
        (show Starts OnePromotion _ (.start 1 (.cancel 11 "j1" "u1") ["j1"]) from .inl rfl) rfl)
        (show Starts OnePromotion _ (.visit 0) from trivial) rfl, by decide, by decide⟩
  obtain ⟨d, hrun, hlock, hwaits⟩ := hfirst
  obtain ⟨tr', d', hrun', hnone⟩ := statements_complete hrun [0, 1]
  exact ⟨_, d, tr', d', hrun, hlock, hwaits, hrun', hnone⟩

end JobFlow.Service.Overlap
