import JobFlow.Model.Dashboard
import JobFlow.Runs.Delivery
import JobFlow.Runs.Lifecycle
import Mathlib.Data.Finset.Card

/-!
# The dead-letter list and the table

A job gets into the list each time it gets into the dead-letter state, and no
operation takes an id out of the list. The entries of a job therefore count how
often it was dead-lettered, which is once more than it was retried if it is
dead-lettered now.
-/

namespace JobFlow.Runs.DeadLetters

open JobFlow.Model
open JobFlow.Model.JobRepository
open JobFlow.Model.RedisQueue
open JobFlow.Lib (SortedSet)
open JobFlow.Lib.Transition
open ControlFlow Steps History Ownership Delivery Lifecycle

variable {s s' : State} {l : Label} {a : Act} {p : Pid} {id : String} {pc : Pc} {r : Reply}
  {tr : List Act}

/-- A `MarkFailed` of the job took effect and found no attempts left. -/
def isLetter (id : String) : Act → Bool
  | .markedFailed _ i st _ _ => i = id && st = .deadLetter
  | _ => false

def letters (id : String) (tr : List Act) : Nat := tr.countP (isLetter id)

@[simp] theorem letters_nil (id : String) : letters id [] = 0 := rfl

@[simp] theorem letters_snoc (id : String) (tr : List Act) (a : Act) :
    letters id (tr ++ [a]) = letters id tr + if isLetter id a then 1 else 0 := by
  simp [letters, List.countP_append, List.countP_singleton]

/-- One if the job is dead-lettered now. -/
def dead (row : Option Job) : Nat := if row.any fun r => r.status = .deadLetter then 1 else 0

theorem touches_of_isLetter (h : isLetter id a) : touches id a := by
  cases a <;> simp_all [isLetter, touches]

theorem touches_of_isRequeue (h : isRequeue id a) : touches id a := by
  cases a <;> simp_all [isRequeue, touches]

theorem isRequeue_eq (h : isRequeue id a) : a = .requeued id := by
  cases a <;> simp_all [isRequeue]

/-- A job was dead-lettered once for each retry of it, and once more if it is now. -/
theorem letters_run {ok : State → Label → Prop} (h : Run step ok State.initial tr s)
    (id : String) : letters id tr = requeues id tr + dead (row s id) := by
  refine h.invariant (I := fun tr s => letters id tr = requeues id tr + dead (row s id)) rfl ?_
  intro tr s s' l a hrun ih _ hs
  have hstep := step_row hs id
  have hown := owned_run hrun
  have hnf := never_failed hrun id
  rw [letters_snoc, requeues_snoc, ih]
  unfold statusOf at hnf
  generalize hr : row s id = row₀ at hstep hnf
  generalize row s' id = row' at hstep
  cases hstep with
  | same ht =>
    simp [mt touches_of_isLetter ht, mt touches_of_isRequeue ht]
  | created hl hpc hnew =>
    rcases newRow_status hnew with ⟨hst, -⟩ | ⟨hst, -⟩ <;>
      simp [isLetter, isRequeue, dead, hst]
  | cancelled hpc hw =>
    simp only [cancelWhere, Bool.and_eq_true, Bool.or_eq_true, decide_eq_true_eq] at hw
    obtain ⟨-, (hst | hst) | hst⟩ := hw <;> simp [isLetter, isRequeue, dead, cancelSet, hst]
  | requeued hpc hw =>
    simp only [requeueWhere, Bool.and_eq_true, Bool.or_eq_true, decide_eq_true_eq] at hw
    have hst := hw.2.resolve_left fun hst => hnf (by simp [hst])
    simp [isLetter, isRequeue, dead, requeueSet, hst]
  | promoted hpc hid hd =>
    simp only [isDue, Bool.and_eq_true, decide_eq_true_eq] at hd
    simp [isLetter, isRequeue, dead, promotedSet, hd.1]
  | running hpc hw =>
    simp only [runningWhere, Bool.and_eq_true, Bool.or_eq_true, decide_eq_true_eq] at hw
    obtain ⟨-, hst | hst⟩ := hw <;> simp [isLetter, isRequeue, dead, runningSet, hst]
  | completed hpc hid =>
    have hst := hown.row_running (by rw [hpc]; exact hid) hr
    simp [isLetter, isRequeue, dead, completedSet, hst]
  | failed hpc hid =>
    have hst := hown.row_running (by rw [hpc]; exact hid) hr
    simp [isLetter, isRequeue, dead, hst]

/-- The goroutine has found no attempts left and not yet pushed the id. -/
def owesLetter (id : String) : Pc → Prop
  | .countFailed _ job => job.id = id ∧ job.status ≠ .retrying
  | .deadLetter _ job => job.id = id
  | _ => False

/-- What a step does to the entries of one job in the list. -/
inductive LetterStep (id : String) (s s' : State) (a : Act) : Prop
  | same (hlist : (deadLetters s'.world.redis).count id = (deadLetters s.world.redis).count id)
      (howes : ∀ q, owesLetter id (s'.procs q) ↔ owesLetter id (s.procs q))
      (ha : isLetter id a = false)
  | marked {p : Pid}
      (hlist : (deadLetters s'.world.redis).count id = (deadLetters s.world.redis).count id)
      (howes : ∀ q, owesLetter id (s'.procs q) ↔ q = p ∨ owesLetter id (s.procs q))
      (hp : ¬ owesLetter id (s.procs p)) (ha : isLetter id a)
  | pushed {p : Pid}
      (hlist : (deadLetters s'.world.redis).count id = (deadLetters s.world.redis).count id + 1)
      (howes : ∀ q, owesLetter id (s'.procs q) ↔ q ≠ p ∧ owesLetter id (s.procs q))
      (hp : owesLetter id (s.procs p)) (ha : isLetter id a = false)

/-- A command on a sorted set does not change the list, whatever its key. -/
theorem deadLetters_putSorted {r : Redis} {key : String} {z z' : SortedSet String Int}
    (h : r.sortedAt key = .ok z) : deadLetters (r.putSorted key z') = deadLetters r := by
  by_cases hk : deadLetterKey = key
  · subst hk
    rw [deadLetters_eq_nil, deadLetters_eq_nil]
    · intro items hl
      simp [Redis.sortedAt, hl] at h
    · intro items hl
      rw [Redis.putSorted, Function.update_self] at hl
      split at hl <;> cases hl
  · simp only [deadLetters, Redis.listAt, Redis.putSorted, Function.update_of_ne hk]

/-- Only `DeadLetter` changes the list. -/
theorem deadLetters_exec {w w' : World} {e : Env} {cmd : Cmd} {r : Reply}
    (h : exec w e cmd = some (w', r)) (hc : ∀ job, cmd ≠ .deadLetter job) :
    deadLetters w'.redis = deadLetters w.redis := by
  have hkeys := exec_keys h
  generalize w'.redis = r' at hkeys ⊢
  cases hkeys with
  | same => rfl
  | sorted hz => exact deadLetters_putSorted hz
  | @pushed job => exact absurd rfl (hc job)

theorem deadLetters_push {w w' : World} {e : Env} {job : Job} {r : Reply}
    (h : exec w e (.deadLetter job) = some (w', r)) (hr : r.commandFailed = false) :
    deadLetters w'.redis = job.id :: deadLetters w.redis := by
  simp only [exec, Option.some.injEq] at h
  cases hx : RedisQueue.deadLetter w.redis job with
  | error x =>
    rw [hx] at h
    cases h
    cases Redis.lpush_error hx
    cases hr
  | ok r' =>
    rw [hx] at h
    cases h
    obtain ⟨items, hl, rfl⟩ := Redis.lpush_ok hx
    rw [deadLetters_ok hl]
    exact deadLetters_ok (by simp [Redis.listAt])

theorem not_owesLetter_entry (h : EntryPoint pc) (id : String) : ¬ owesLetter id pc := by
  cases h <;> exact fun ho => ho

theorem not_owesLetter_of_atRest (h : atRest pc) (id : String) : ¬ owesLetter id pc := by
  cases pc <;> first | exact fun ho => ho | exact absurd h (by simp [atRest])

/-- `MarkFailed` leaves a job retrying or dead-lettered. -/
theorem markFailed_status {w w' : World} {e : Env} {i message : String} {job : Job}
    (h : exec w e (.markFailed i message) = some (w', .job job)) :
    job.status = .retrying ∨ job.status = .deadLetter := by
  simp only [exec, markFailed, Option.some.injEq, Prod.mk.injEq, onJobs] at h
  obtain ⟨-, h⟩ := h
  generalize hrows : (w.jobs.update (fun r => r.id = i) (failedSet w.clock message)).2 = rows at h
  cases rows with
  | nil => cases h
  | cons row rows =>
    cases h
    obtain ⟨r, -, rfl⟩ := List.mem_map.mp (hrows.symm ▸ List.mem_cons_self : job ∈ _)
    simp only [failedSet]
    split <;> simp

/-- What one command does to the entries of a job in the list. -/
theorem letter_command {cmd : Cmd} {next : Reply → Pc} {e : Env} (hok : r.commandFailed = false)
    (hran : Ran s p .ok e s' a cmd next r) (id : String) : LetterStep id s s' a := by
  have hx := hran.effect_ok
  have hself : s'.procs p = next r := hran.procs_self
  have hother : ∀ q, q ≠ p → s'.procs q = s.procs q := fun q => hran.procs_other
  have hact := hran.act
  have hf := follows hran.code r
  -- a command of another kind leaves the list and what `p` owes as they are
  have hsame : (∀ job, cmd ≠ .deadLetter job) →
      (owesLetter id (next r) ↔ owesLetter id (s.procs p)) → isLetter id a = false →
      LetterStep id s s' a := by
    intro hc howes ha
    refine .same (by rw [deadLetters_exec hx hc]) (fun q => ?_) ha
    by_cases hq : q = p
    · rw [hq, hself, howes]
    · rw [hother q hq]
  have hsilent : (∀ w job message, s.procs p ≠ .markFailed w job message) ∨
      (∀ job, r ≠ .job job) → isLetter id a = false := by
    intro hno
    cases hl : isLetter id a with
    | false => rfl
    | true =>
      rw [hact] at hl
      unfold observe at hl
      split at hl <;> try cases hl
      next hpc =>
      exact hno.elim (fun hn => absurd hpc (hn _ _ _)) fun hn => absurd rfl (hn _)
  generalize hnext : next r = pc' at hf hself hsame
  generalize hpc : s.procs p = pc at hf hsame hsilent hact
  cases hf with
  | @failed w job failedJob message =>
    have hst := markFailed_status hx
    have hletter : isLetter id a ↔ failedJob.id = id ∧ failedJob.status ≠ .retrying := by
      rw [hact]
      rcases hst with hst | hst <;> simp [observe, isLetter, hst]
    have howes : owesLetter id (.countFailed w failedJob) ↔ isLetter id a := hletter.symm
    by_cases hl : isLetter id a
    · refine .marked (p := p) (by rw [deadLetters_exec hx (by simp)]) (fun q => ?_)
        (by rw [hpc]; exact fun ho => ho) hl
      by_cases hq : q = p
      · rw [hq, hself]
        exact iff_of_true (howes.mpr hl) (.inl rfl)
      · rw [hother q hq]
        exact (or_iff_right hq).symm
    · exact hsame (by simp) (iff_of_false (mt howes.mp hl) fun ho => ho) (by simpa using hl)
  | failedCounted hst =>
    exact hsame (by simp) (iff_of_false (fun ho => ho) fun ho => ho.2 hst) (hsilent (.inl (by simp)))
  | lastCounted hst =>
    exact hsame (by simp) (iff_of_eq (by simp [owesLetter, hst])) (hsilent (.inl (by simp)))
  | @deadLettered w job =>
    have hpush := deadLetters_push hx hok
    have ha : isLetter id a = false := hsilent (.inl (by simp))
    by_cases hid : job.id = id
    · refine .pushed (p := p) (by rw [hpush, hid, List.count_cons_self]) (fun q => ?_)
        (by rw [hpc]; exact hid) ha
      by_cases hq : q = p
      · rw [hq, hself]
        exact iff_of_false (fun ho => ho) fun hne => hne.1 rfl
      · rw [hother q hq]
        exact (and_iff_right hq).symm
    · refine .same (by rw [hpush, List.count_cons_of_ne hid]) (fun q => ?_) ha
      by_cases hq : q = p
      · rw [hq, hself, hpc]
        exact iff_of_false (fun ho => ho) hid
      · rw [hother q hq]
  | notFailed hr => exact hsame (by simp) .rfl (hsilent (.inr hr))
  | _ => exact hsame (by simp) .rfl (hsilent (.inl (by simp)))

theorem letter_step (hsteady : Steady s l) (h : step s l = some (s', a)) (id : String) :
    LetterStep id s s' a := by
  rcases step_run_or_not h with ⟨p, m, e, cmd, next, r, rfl, hran⟩ | hl
  · obtain ⟨rfl, -, hok⟩ := hsteady.command hran
    exact letter_command hok hran id
  · obtain ⟨hw, ha⟩ := step_local h hl
    refine .same ?_ (fun q => ?_) ?_
    · rcases hw with hw | ⟨_, -, hw⟩ <;> rw [hw]
    · refine local_moves (R := fun pc pc' => owesLetter id pc' ↔ owesLetter id pc) h hl
        (fun _ => .rfl) ?_ ?_ (fun _ => .rfl) ?_ q
      · exact fun pc hpc => iff_of_false (not_owesLetter_entry hpc id) fun ho => ho
      · intro p hp
        subst hp
        exact iff_of_false (fun ho => ho) (not_owesLetter_of_atRest hsteady id)
      · intro w job outcome
        cases outcome <;> rfl
    · rcases ha with rfl | ⟨_, _, _, rfl⟩ <;> rfl

theorem letters_pushed (h : Run step Steady State.initial tr s) (id : String) :
    ∃ ps : Finset Pid, (∀ q, q ∈ ps ↔ owesLetter id (s.procs q)) ∧
      (deadLetters s.world.redis).count id + ps.card = letters id tr := by
  refine h.invariant (I := fun tr s => ∃ ps : Finset Pid,
    (∀ q, q ∈ ps ↔ owesLetter id (s.procs q)) ∧
      (deadLetters s.world.redis).count id + ps.card = letters id tr) ?_ ?_
  · exact ⟨∅, fun q => iff_of_false (Finset.notMem_empty q) fun h => h, rfl⟩
  · rintro tr s s' l a - ⟨ps, hps, hcount⟩ hsteady hs
    rw [letters_snoc]
    cases letter_step hsteady hs id with
    | same hlist howes ha =>
      exact ⟨ps, fun q => (hps q).trans (howes q).symm, by simp [hlist, ha, hcount]⟩
    | @marked p hlist howes hp ha =>
      refine ⟨insert p ps, fun q => ?_, ?_⟩
      · rw [Finset.mem_insert, hps, howes]
      · rw [Finset.card_insert_of_notMem fun hmem => hp ((hps p).mp hmem), hlist, if_pos ha]
        omega
    | @pushed p hlist howes hp ha =>
      refine ⟨ps.erase p, fun q => ?_, ?_⟩
      · rw [Finset.mem_erase, hps, howes]
      · have hcard := Finset.card_erase_add_one ((hps p).mpr hp)
        rw [hlist, ha]
        simp only [Bool.false_eq_true, if_false]
        omega

/-- With no operation half done, the entries of a job in the list are one for each retry
of it, and one more if it is dead-lettered now. -/
theorem count_deadLetters (h : Run step Steady State.initial tr s) (hq : Quiescent s)
    (id : String) :
    (deadLetters s.world.redis).count id = requeues id tr + dead (row s id) := by
  obtain ⟨ps, hps, hcount⟩ := letters_pushed h id
  have hempty : ps = ∅ := Finset.eq_empty_of_forall_notMem fun q hmem =>
    not_owesLetter_of_atRest (hq q) id ((hps q).mp hmem)
  rw [hempty, Finset.card_empty, Nat.add_zero] at hcount
  rw [hcount, letters_run h id]

/-- The list holds the id of each dead-lettered job once and nothing else, and the two
counts of dead letters agree. -/
def Mirrors (s : State) : Prop :=
  (∀ id, (deadLetters s.world.redis).count id = dead (row s id)) ∧
  ∀ queues stats d, JobService.queueStats s.world queues = .ok stats →
    JobService.dashboard s.world queues = .ok d → ∀ q ∈ stats, q.dlq = d.dlq

theorem mirrors_of_count
    (h : ∀ id, (deadLetters s.world.redis).count id = dead (row s id)) : Mirrors s := by
  refine ⟨h, fun queues stats d hstats hd q hq => ?_⟩
  have hperm : (deadLetters s.world.redis).Perm
      ((s.world.jobs.rows.filter fun r => r.status = .deadLetter).map Job.id) := by
    rw [List.perm_iff_count]
    intro id
    rw [h, JobTable.count_filter]
    rfl
  rw [(stats_ok hstats q hq).2, (JobService.dashboard_ok hd).2, hperm.length_eq, List.length_map,
    countByStatus, List.countP_eq_length_filter]

/-- With no operation half done, the dead-letter list mirrors the table exactly when no
`Retry` has taken effect. -/
theorem mirrors_iff_never_retried (h : Run step Steady State.initial tr s) (hq : Quiescent s) :
    Mirrors s ↔ ∀ id, .requeued id ∉ tr := by
  have hzero : ∀ id, requeues id tr = 0 ↔ .requeued id ∉ tr := by
    intro id
    rw [requeues, List.countP_eq_zero]
    constructor
    · intro hno hmem
      exact hno _ hmem (by simp [isRequeue])
    · intro hno a hmem ha
      exact hno (isRequeue_eq ha ▸ hmem)
  constructor
  · intro hm id
    have hcount := count_deadLetters h hq id
    rw [hm.1 id] at hcount
    exact (hzero id).mp (by omega)
  · intro hno
    refine mirrors_of_count fun id => ?_
    rw [count_deadLetters h hq id, (hzero id).mpr (hno id), Nat.zero_add]

/-- A job with one attempt (0) fails at a worker (1) and is dead-lettered. -/
def exhausted : List Label :=
  [.start 0 (.request (.create ⟨"u1", "default", "force_fail", none, 0, 1, none⟩)),
    .run 0 .ok { freshID := "j1" }, .run 0 .ok {}, .run 0 .ok {},
    .start 1 (.worker ⟨"00000000000000000000000000000001", "host", ["default"]⟩),
    .run 1 .ok {}, .run 1 .ok {}, .run 1 .ok {}, .finish 1 (.error "forced failure"),
    .run 1 .ok {}, .run 1 .ok {}, .run 1 .ok {}, .run 1 .ok {}]

theorem exhausted_runs : (execute step State.initial exhausted).isSome := by decide

theorem mirrors_exhausted : ∃ tr s, Run step Steady State.initial tr s ∧ Quiescent s ∧
    deadLetters s.world.redis = ["j1"] ∧ Mirrors s :=
  have hrun := Run.of_outcome exhausted_runs (show Admitted step Steady _ _ by decide)
  have hq := quiescent_outcome exhausted_runs 2 (by decide) (by decide)
  have hno : ∀ id, .requeued id ∉ (outcome step State.initial exhausted exhausted_runs).2 := by
    have htr : (outcome step State.initial exhausted exhausted_runs).2 =
        [.silent, .created "j1", .silent, .silent, .silent, .silent, .markedRunning 1 "j1" 0,
          .processStarted 1 "j1", .processReturned 1 "j1" false,
          .markedFailed 1 "j1" .deadLetter 1 0, .silent, .silent, .silent] := by decide
    intro id
    rw [htr]
    simp
  ⟨_, _, hrun, hq, by decide, (mirrors_iff_never_retried hrun hq).mpr hno⟩

/-- The dead-lettered job is retried (2). -/
def revived : List Label :=
  exhausted ++ [.start 2 (.request (.retry "j1" "u1")), .run 2 .ok {}, .run 2 .ok {}, .run 2 .ok {}]

theorem revived_runs : (execute step State.initial revived).isSome := by decide

/-- The retried job waits in its queue and is still listed as a dead letter. -/
theorem retried_not_mirrored : ¬ ∀ tr s, Run step Steady State.initial tr s → Quiescent s →
    Mirrors s := by
  intro hall
  have hrun := Run.of_outcome revived_runs (show Admitted step Steady _ _ by decide)
  have hq := quiescent_outcome revived_runs 3 (by decide) (by decide)
  have hcount := (hall _ _ hrun hq).1 "j1"
  revert hcount
  decide

end JobFlow.Runs.DeadLetters
