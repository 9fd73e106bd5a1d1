import JobFlow.Runs.Lifecycle
import JobFlow.Runs.Rest
import JobFlow.Runs.Work
import Mathlib.Algebra.Order.BigOperators.Group.List

/-!
# Every job can come to its end

Where a healthy system has come to rest, one scheduler and one worker that serves all
queues can bring every job to its end, whatever the jobs do. A pass of the scheduler
promotes a row or moves an entry from the retry set to its queue, and a round of the worker
starts a job or takes an entry off its queue. Each of these takes a measure down: the work
that is left on the jobs, then the entries in the retry set, then those in the queues.
-/

namespace JobFlow.Runs.Progress

open JobFlow.Model
open JobFlow.Model.JobRepository
open JobFlow.Model.RedisQueue
open JobFlow.Lib.Transition
open ControlFlow Steps Carried Entries KeySpace Delivery Ownership QueueDepth Batches Lifecycle
open Budget Rest Work

variable {w : Pool} {pc pc' : Pc} {cmd : Cmd} {r : Reply} {result : Results}
  {s s' : State} {l : Label} {a : Act} {k p q : Pid} {tr : List Act} {id : String} {m : Mode}
  {e : Env} {next : Reply → Pc} {v : World} {ids batch : List String} {row₀ : Job}

/-! ## What rows and points have in common -/

/-- A goroutine executes a job until its `MarkCompleted` or `MarkFailed`. -/
theorem executes_command (hf : Follows pc cmd r pc') (h : executes id pc) :
    executes id pc' ∨ cmd = .markCompleted id ∨ ∃ message, cmd = .markFailed id message := by
  cases hf with
  | runningPublished => exact .inl h
  | completed => exact .inr (.inl (congrArg Cmd.markCompleted h))
  | @failed _ _ _ message | @notFailed _ _ message =>
    exact .inr (.inr ⟨message, congrArg (Cmd.markFailed · message) h⟩)
  | _ => exact h.elim

/-- The statements that end an execution leave no running row. -/
theorem not_running_after {v v' : World} {job : Job} (hx : exec v e cmd = some (v', r))
    (hcmd : cmd = .markCompleted id ∨ ∃ message, cmd = .markFailed id message)
    (hrow : v'.jobs.find id = some job) : job.status ≠ .running := by
  rcases hcmd with rfl | ⟨message, rfl⟩
  · obtain ⟨rfl, -⟩ := Prod.mk.inj (Option.some.inj hx)
    obtain ⟨r, -, rfl⟩ := Option.map_eq_some_iff.mp
      ((JobTable.find_update_id v.jobs (completedSet v.clock) id).symm.trans hrow)
    exact fun h => by cases h
  · obtain ⟨rfl, -⟩ := Prod.mk.inj (Option.some.inj hx)
    obtain ⟨r, -, rfl⟩ := Option.map_eq_some_iff.mp
      ((JobTable.find_update_id v.jobs (failedSet v.clock message) id).symm.trans hrow)
    simp only [failedSet]
    split <;> exact fun h => by cases h

theorem executes_started {now : Time} (hf : Follows pc cmd r pc')
    (h : observe p pc now r = .markedRunning p id now) : executes id pc' := by
  unfold observe at h
  split at h <;> cases h
  cases hf with
  | started => rfl
  | notStarted hr => exact absurd rfl (hr _)

theorem not_executes_of_atRest {pc : Pc} (h : atRest pc) (id : String) : ¬ executes id pc := by
  cases pc <;> first | exact fun hx => hx | exact absurd h (by simp [atRest])

/-- Where no process stops in the middle of an operation, a running job is executed. -/
theorem running_held (h : Run step Available State.initial tr s) (hrow : row s id = some row₀)
    (hst : row₀.status = .running) : ∃ p, executes id (s.procs p) := by
  have hinv : ∀ id r, row s id = some r → r.status = .running → ∃ p, executes id (s.procs p) := by
    refine h.invariant (I := fun _ s => ∀ id r, row s id = some r → r.status = .running →
      ∃ p, executes id (s.procs p)) (fun _ _ h => by cases h) ?_
    intro tr s s' l a _ ih ho hs id r' hr' hst'
    have hstep := step_row hs id
    rw [hr'] at hstep
    generalize hr : row s id = row₀ at hstep
    cases hstep with
    | same ht =>
      obtain ⟨p, hp⟩ := ih id r' hr hst'
      refine ⟨p, ?_⟩
      have hm := step_moves hs p
      generalize s'.procs p = pc at hm ⊢
      cases hm with
      | stays => exact hp
      | starts _ hidle =>
        rw [hidle] at hp
        exact hp.elim
      | crashes hl =>
        subst hl
        exact absurd hp (not_executes_of_atRest ho id)
      | stops _ hheart =>
        rw [hheart] at hp
        exact hp.elim
      | @finishes w job outcome _ hproc =>
        rw [hproc] at hp
        cases outcome <;> exact hp
      | runs hl hran =>
        subst hl
        obtain ⟨rfl, hx, -⟩ := ho.command hran
        exact (executes_command (follows hran.code _) hp).resolve_right fun hcmd =>
          not_running_after hx hcmd hr' hst'
    | created hl hpc hnew =>
      rcases newRow_status hnew with ⟨hst, -⟩ | ⟨hst, -⟩ <;> cases hst.symm.trans hst'
    | cancelled | requeued | promoted | completed => cases hst'
    | @running p w _ hpc hw =>
      obtain ⟨m, e, cmd, next, r, rfl, hran⟩ := @run_of_actedBy _ _ _ _ _ id hs rfl rfl
      obtain ⟨rfl, -, -⟩ := ho.command hran
      refine ⟨p, ?_⟩
      rw [hran.procs_self]
      exact executes_started (follows hran.code _) hran.act.symm
    | failed =>
      simp only [failedSet] at hst'
      split at hst' <;> cases hst'
  exact hinv id row₀ hrow hst

/-- A scheduled row has the time it waits for. -/
theorem scheduled_time {ok : State → Label → Prop} (h : Run step ok State.initial tr s)
    (hrow : row s id = some row₀) (hst : row₀.status = .scheduled) : row₀.scheduledAt.isSome := by
  have hinv : ∀ r, row s id = some r → r.status = .scheduled → r.scheduledAt.isSome := by
    refine h.invariant (I := fun _ s => ∀ r, row s id = some r → r.status = .scheduled →
      r.scheduledAt.isSome) (fun _ h => by cases h) ?_
    intro tr s s' l a _ ih _ hs r' hr' hst'
    have hstep := step_row hs id
    rw [hr'] at hstep
    generalize hr : row s id = row₀ at hstep
    cases hstep with
    | same ht => exact ih r' hr hst'
    | @created _ _ _ params _ hl hpc hnew =>
      rcases newRow_status hnew with ⟨-, t, ht, -⟩ | ⟨hst, -⟩
      · simp [(newRow_fields hnew).2.2.2.2.2.2.2.1, ht]
      · cases hst.symm.trans hst'
    | failed =>
      simp only [failedSet] at hst'
      split at hst' <;> cases hst'
    | _ => cases hst'
  exact hinv row₀ hrow hst

/-- The inner select of `ReadyScheduled` always has an answer. -/
theorem exists_isBatch (t : JobTable) (now : Time) (limit : Nat) :
    ∃ batch, IsBatch t now limit batch := by
  let le : Job → Job → Bool := fun r r' => r.scheduledAt.getD 0 ≤ r'.scheduledAt.getD 0
  let sorted := (t.rows.filter (isDue now)).mergeSort le
  have hperm : sorted.Perm (t.rows.filter (isDue now)) := List.mergeSort_perm _ _
  have hsorted : sorted.Pairwise fun r r' => le r r' = true := by
    refine List.pairwise_mergeSort ?_ ?_ _
    · intro a b c hab hbc
      simp only [le, decide_eq_true_eq] at hab hbc ⊢
      exact hab.trans hbc
    · intro a b
      simpa [le] using Int.le_total _ _
  have hkey : (sorted.map Job.id).Nodup :=
    (hperm.map Job.id).nodup_iff.mpr (t.key.sublist (List.filter_sublist.map _))
  refine ⟨(sorted.take limit).map Job.id, hkey.sublist ((List.take_sublist _ _).map _), ?_, ?_, ?_⟩
  · intro id hid
    obtain ⟨r, hr, rfl⟩ := List.mem_map.mp hid
    exact List.mem_map_of_mem (hperm.mem_iff.mp (List.mem_of_mem_take hr))
  · rw [List.length_map, List.length_take, hperm.length_eq]
  · intro r hr r' hr' hin hout
    obtain ⟨x, hx, hid⟩ := List.mem_map.mp hin
    obtain rfl : x = r := List.inj_on_of_nodup_map hkey (List.mem_of_mem_take hx)
      (hperm.mem_iff.mpr hr) hid
    have hdrop : r' ∈ sorted.drop limit := by
      have hmem := hperm.mem_iff.mpr hr'
      rw [← List.take_append_drop limit sorted, List.mem_append] at hmem
      exact hmem.resolve_left fun htake => hout (List.mem_map_of_mem htake)
    rw [← List.take_append_drop limit sorted, List.pairwise_append] at hsorted
    exact of_decide_eq_true (hsorted.2.2 x hx r' hdrop)

/-! ## Turns and work -/

/-- A turn on duty neither creates nor revives a job. -/
theorem act_of_turn (hd : OnDuty w (s.procs q)) (ht : Turn result q s l)
    (h : step s l = some (s', a)) : a ≠ .created id ∧ a ≠ .requeued id := by
  rcases step_run_or_not h with ⟨p, m, e, cmd, next, r, rfl, hran⟩ | hl
  · obtain rfl : p = q := ht.1
    constructor
    · intro ha
      obtain ⟨params, job, hpc, -⟩ := observe_created (hran.act.symm.trans ha)
      rw [hpc] at hd
      exact hd.elim False.elim False.elim
    · intro ha
      obtain ⟨i, userID, job, hpc, -⟩ := observe_requeued (hran.act.symm.trans ha)
      rw [hpc] at hd
      exact hd.elim False.elim False.elim
  · rcases (step_local h hl).2 with rfl | ⟨_, _, _, rfl⟩ <;> exact ⟨nofun, nofun⟩

theorem sound_workStep (hs : Sound s) (h : step s l = some (s', a)) (id : String) :
    WorkStep id a (row s id) (row s' id) := by
  obtain ⟨tr, hrun⟩ := hs
  exact Work.workStep (owned_run hrun) h (accounted_run hrun id)

/-- A statement that moves a job leaves less work on it. -/
theorem work_of_isMove (hs : Sound s) (h : step s l = some (s', a)) (hmove : isMove id a) :
    workOf (row s' id) < workOf (row s id) := by
  have hwork := sound_workStep hs h id
  generalize row s id = row₀ at hwork ⊢
  generalize row s' id = row' at hwork ⊢
  cases hwork with
  | same ht => exact absurd (touches_of_isMove hmove) ht
  | created | requeued => cases hmove
  | moved _ hlt => exact hlt

/-- No work comes up, and no row. -/
structure NoMore (s s' : State) : Prop where
  work : ∀ id, workOf (row s' id) ≤ workOf (row s id)
  rows : ∀ id, row s id = none → row s' id = none

theorem NoMore.refl (s : State) : NoMore s s := ⟨fun _ => Nat.le_refl _, fun _ => id⟩

theorem NoMore.trans {s'' : State} (h : NoMore s s') (h' : NoMore s' s'') : NoMore s s'' where
  work id := (h'.work id).trans (h.work id)
  rows id hno := h'.rows id (h.rows id hno)

theorem noMore_turn (hs : Sound s) (hd : OnDuty w (s.procs q)) (ht : Turn result q s l)
    (h : step s l = some (s', a)) : NoMore s s' := by
  have hcases : ∀ id, workOf (row s' id) ≤ workOf (row s id) ∧
      (row s id = none → row s' id = none) := by
    intro id
    have hact := @act_of_turn _ _ _ _ _ _ _ id hd ht h
    have hwork := sound_workStep hs h id
    generalize row s id = row₀ at hwork ⊢
    generalize row s' id = row' at hwork ⊢
    cases hwork with
    | same => exact ⟨Nat.le_refl _, fun hno => hno⟩
    | created => exact absurd rfl hact.1
    | requeued => exact absurd rfl hact.2
    | moved _ hlt => exact ⟨Nat.le_of_lt hlt, nofun⟩
  exact ⟨fun id => (hcases id).1, fun id => (hcases id).2⟩

/-- The turns of one goroutine in a healthy system. -/
abbrev Turns (result : Results) (q : Pid) : State → List Act → State → Prop :=
  Run step fun s l => Healthy s l ∧ Turn result q s l

theorem Turns.procs (h : Turns result q s tr s') (hpq : p ≠ q) : s'.procs p = s.procs p :=
  run_procs (fun _ _ hl heq => hpq (Option.some.inj (heq.symm.trans hl.2.pid))) h

theorem Turns.sound (h : Turns result q s tr s') (hs : Sound s) : Sound s' := by
  refine h.invariant (I := fun _ s => Sound s) hs ?_
  intro tr s s' l a _ hs hl hstep
  exact hs.step hl.1 hstep

theorem Turns.alone (h : Turns result q s tr s') (hal : Alone q s) : Alone q s' := by
  intro p hp
  rw [h.procs hp]
  exact hal p hp

theorem Turns.onDuty (h : Turns result q s tr s') (hd : OnDuty w (s.procs q)) :
    OnDuty w (s'.procs q) := by
  refine h.invariant (I := fun _ s => OnDuty w (s.procs q)) hd ?_
  intro tr s s' l a _ hd hl hstep
  exact hd.turn hl.2 hstep

theorem Turns.noMore (h : Turns result q s tr s') (hs : Sound s) (hd : OnDuty w (s.procs q)) :
    NoMore s s' := by
  refine h.invariant (I := fun _ s' => NoMore s s') (.refl s) ?_
  intro tr m m' l a hrun hno hl hstep
  exact hno.trans (noMore_turn (Turns.sound hrun hs) (Turns.onDuty hrun hd) hl.2 hstep)

/-! ## The system between two passes -/

/-- A healthy system at rest, with a scheduler `k` and a worker `p` that serves the queues of
all jobs. -/
structure Ready (w : Pool) (k p : Pid) (ids : List String) (s : State) : Prop where
  sound : Sound s
  rest : Quiescent s
  scheduler : s.procs k = .schedulerTick
  worker : ∃ queues, s.procs p = .dequeue w queues
  rows : ∀ id r, row s id = some r → id ∈ ids ∧ r.queueName ∈ w.queues

theorem Ready.ne (h : Ready w k p ids s) : k ≠ p := by
  rintro rfl
  obtain ⟨queues, hp⟩ := h.worker
  cases h.scheduler.symm.trans hp

theorem Ready.onDuty (h : Ready w k p ids s) (hq : q = k ∨ q = p) : OnDuty w (s.procs q) := by
  rcases hq with rfl | rfl
  · rw [h.scheduler]
    exact .inl trivial
  · obtain ⟨queues, hp⟩ := h.worker
    rw [hp]
    exact .inr rfl

theorem Ready.after (h : Ready w k p ids s) (hq : q = k ∨ q = p) (hrun : Turns result q s tr s')
    (hrest : atRest (s'.procs q)) : Ready w k p ids s' where
  sound := hrun.sound h.sound
  rest := by
    intro p'
    by_cases hp : p' = q
    · exact hp ▸ hrest
    · rw [hrun.procs hp]
      exact h.rest p'
  scheduler := by
    rcases hq with rfl | rfl
    · refine schedules_atRest (hrun.invariant (I := fun _ s => schedules (s.procs q)) ?_ ?_) hrest
      · rw [h.scheduler]
        trivial
      · intro tr s s' l a _ hd hl hstep
        exact schedules_turn hd hl.2 hstep
    · rw [hrun.procs h.ne]
      exact h.scheduler
  worker := by
    rcases hq with rfl | rfl
    · rw [hrun.procs h.ne.symm]
      exact h.worker
    · refine serves_atRest (hrun.invariant (I := fun _ s => serves w (s.procs q)) ?_ ?_) hrest
      · obtain ⟨queues, hp⟩ := h.worker
        rw [hp]
        rfl
      · intro tr s s' l a _ hd hl hstep
        exact serves_turn hd hl.2 hstep
  rows := by
    intro id r' hr'
    cases hr : row s id with
    | none => cases ((hrun.noMore h.sound (h.onDuty hq)).rows id hr).symm.trans hr'
    | some r =>
      obtain ⟨r₁, hr₁, hsame⟩ := run_sameJob hrun hr
      obtain rfl := Option.some.inj (hr'.symm.trans hr₁)
      rw [hsame.queueName]
      exact h.rows id r hr

/-- A turn from where a goroutine is at rest, and the turns after it until it is again. -/
theorem Ready.turns (h : Ready w k p ids s) (hq : q = k ∨ q = p) (hrun : Turns result q s tr s') :
    ∃ tr' s'', Turns result q s' tr' s'' ∧ Ready w k p ids s'' ∧ NoMore s' s'' := by
  have hd := hrun.onDuty (h.onDuty hq)
  obtain ⟨tr', s'', hrun', ⟨-, -, -⟩, hrest⟩ := comes_to_rest result
    (hrun.sound h.sound) hd (hrun.alone fun p' _ => h.rest p')
  exact ⟨tr', s'', hrun', h.after hq (hrun.trans hrun') hrest,
    Turns.noMore hrun' (hrun.sound h.sound) hd⟩

/-- One command of a goroutine on duty. -/
theorem turn_run (result : Results) (hs : Sound s) (hd : OnDuty w (s.procs q)) (hal : Alone q s)
    (hcode : (s.procs q).code = some (cmd, next)) (hx : exec s.world e cmd = some (v, r)) :
    Turns result q s [observe q (s.procs q) s.world.clock r]
      ⟨v, Function.update s.procs q (next r)⟩ :=
  .single ⟨healthy_run hs.carries hs.clean hd hal hcode hx, ⟨rfl, rfl⟩⟩ (run_ok hcode hx)

theorem Ready.turn (result : Results) (h : Ready w k p ids s) (hq : q = k ∨ q = p)
    (hcode : (s.procs q).code = some (cmd, next)) (hx : exec s.world e cmd = some (v, r)) :
    Turns result q s [observe q (s.procs q) s.world.clock r]
      ⟨v, Function.update s.procs q (next r)⟩ :=
  turn_run result h.sound (h.onDuty hq) (fun p' _ => h.rest p') hcode hx

/-! ## The measure -/

/-- The work that is left on the jobs. -/
def left (ids : List String) (s : State) : Nat := (ids.map fun id => workOf (row s id)).sum

/-- The entries in the retry set. -/
def delayed (ids : List String) (s : State) : Nat :=
  (ids.map fun id => (s.world.redis.zscore retriesKey id).isSome.toNat).sum

/-- The job has an entry in its queue. -/
def inQueue (s : State) (id : String) : Bool :=
  (row s id).any fun r => (s.world.redis.zscore (queueKey r.queueName) id).isSome

def enqueued (ids : List String) (s : State) : Nat := (ids.map fun id => (inQueue s id).toNat).sum

def measure (ids : List String) (s : State) : Nat ×ₗ Nat ×ₗ Nat :=
  toLex (left ids s, toLex (delayed ids s, enqueued ids s))

theorem NoMore.left (h : NoMore s s') : left ids s' ≤ left ids s :=
  List.sum_le_sum fun id _ => h.work id

theorem left_lt (h : NoMore s s') (hid : id ∈ ids) (hlt : workOf (row s' id) < workOf (row s id)) :
    left ids s' < left ids s :=
  List.sum_lt_sum _ _ (fun id _ => h.work id) ⟨id, hid, hlt⟩

theorem measure_of_left (h : left ids s' < left ids s) :
    measure ids s' < measure ids s :=
  Prod.Lex.toLex_lt_toLex.mpr (.inl h)

theorem measure_of_delayed (h : left ids s' ≤ left ids s)
    (h' : delayed ids s' < delayed ids s) : measure ids s' < measure ids s := by
  refine Prod.Lex.toLex_lt_toLex.mpr ((Nat.lt_or_eq_of_le h).imp_right fun heq => ⟨heq, ?_⟩)
  exact Prod.Lex.toLex_lt_toLex.mpr (.inl h')

theorem measure_of_enqueued (h : left ids s' ≤ left ids s)
    (h' : delayed ids s' ≤ delayed ids s) (h'' : enqueued ids s' < enqueued ids s) :
    measure ids s' < measure ids s := by
  refine Prod.Lex.toLex_lt_toLex.mpr ((Nat.lt_or_eq_of_le h).imp_right fun heq => ⟨heq, ?_⟩)
  exact Prod.Lex.toLex_lt_toLex.mpr ((Nat.lt_or_eq_of_le h').imp_right fun heq => ⟨heq, h''⟩)

/-! ## A pass of the scheduler -/

/-- The steps of a shift: the clock goes forward, or one of the two goroutines takes a turn. -/
def Shift (result : Results) (k p : Pid) (s : State) : Label → Prop
  | .tick now => s.world.clock ≤ now
  | l => Turn result k s l ∨ Turn result p s l

/-- The steps of a shift in a healthy system. -/
abbrev Shifts (result : Results) (k p : Pid) :
    State → List Act → State → Prop :=
  Run step fun s l => Healthy s l ∧ Shift result k p s l

/-- A shift can lead to rest with a lower measure. -/
def Closer (result : Results) (w : Pool) (k p : Pid) (ids : List String)
    (s : State) : Prop :=
  ∃ tr s', Shifts result k p s tr s' ∧ Ready w k p ids s' ∧ measure ids s' < measure ids s

theorem Shift.of_turn (hq : q = k ∨ q = p) (ht : Turn result q s l) : Shift result k p s l := by
  cases l with
  | run p' m e =>
    rcases hq with rfl | rfl
    · exact .inl ht
    · exact .inr ht
  | finish p' outcome =>
    rcases hq with rfl | rfl
    · exact .inl ht
    · exact .inr ht
  | _ => exact ht.elim

theorem Turns.shifts (h : Turns result q s tr s') (hq : q = k ∨ q = p) :
    Shifts result k p s tr s' :=
  h.mono fun _ _ hl => ⟨hl.1, .of_turn hq hl.2⟩

theorem exec_ready {now : Time} (hb : IsBatch v.jobs v.clock 100 batch) :
    ∃ v' rows, exec v { batch := batch, reading := now } (.readyScheduled 100) =
      some (v', .jobs rows) ∧ rows.map Job.id = batch ∧ v'.redis = v.redis ∧
        v'.clock = v.clock := by
  have hready : readyScheduled v.jobs v.clock 100 batch =
      some ((v.jobs.update (fun r => r.id ∈ batch) (promotedSet v.clock)).1,
        batch.filterMap (v.jobs.update (fun r => r.id ∈ batch) (promotedSet v.clock)).1.find) :=
    if_pos hb
  refine ⟨_, _, congrArg (Option.map _) hready, (readyScheduled_rows hready).1, rfl, rfl⟩

theorem code_schedulerTick : ∃ next, Pc.schedulerTick.code = some (.readyScheduled 100, next) ∧
    ∀ jobs, next (.jobs jobs) = Pc.promoteNext jobs :=
  ⟨_, rfl, fun _ => rfl⟩

theorem code_retriesRange : ∃ next, Pc.retriesRange.code = some (.dueRetries, next) ∧
    ∀ ids, next (.members ids) = Pc.retryNext ids :=
  ⟨_, rfl, fun _ => rfl⟩

/-- A pass that promotes rows takes work off them. -/
theorem promote_progress (h : Ready w k p ids s)
    (hb : IsBatch s.world.jobs s.world.clock 100 batch) (hne : batch ≠ []) :
    Closer result w k p ids s := by
  have hq : k = k ∨ k = p := .inl rfl
  obtain ⟨next, hcode, -⟩ := code_schedulerTick
  rw [← h.scheduler] at hcode
  obtain ⟨v, rows, hx, hrows, -, -⟩ := @exec_ready _ _ 0 hb
  have hturn := h.turn result hq hcode hx
  obtain ⟨tr, s', hturns, hready, hno⟩ := h.turns hq hturn
  obtain ⟨i, rest, rfl⟩ := List.exists_cons_of_ne_nil hne
  have hmem : i ∈ ids := by
    obtain ⟨r, hr, hri⟩ := List.mem_map.mp (hb.2.1 i List.mem_cons_self)
    exact (h.rows i r (hri ▸ (s.world.jobs.mem_rows_iff r).mp (List.mem_filter.mp hr).1)).1
  have hmove : isMove i (observe k (s.procs k) s.world.clock (.jobs rows)) := by
    rw [h.scheduler]
    simp [observe, isMove, hrows]
  have hlt := work_of_isMove h.sound (run_ok hcode hx) hmove
  have hfirst := Turns.noMore hturn h.sound (h.onDuty hq)
  exact ⟨_, s', Turns.shifts (hturn.trans hturns) hq, hready,
    measure_of_left (left_lt (hfirst.trans hno) hmem ((hno.work i).trans_lt hlt))⟩

/-- What the scheduler still has to take out of the retry set. -/
def toRemove (id : String) (pc : Pc) : Prop := removing id pc ∨ id ∈ pending pc

theorem toRemove_next (hf : Follows pc cmd r pc') (h : toRemove id pc) :
    toRemove id pc' ∨ cmd = .removeRetry id := by
  cases hf with
  | found =>
    obtain hin := h.resolve_left False.elim
    exact .inl (.inr hin)
  | notFound | retriesEnqueued =>
    rcases List.mem_cons.mp (h.resolve_left False.elim) with rfl | hin
    · exact .inl (.inl rfl)
    · exact .inl (.inr hin)
  | removed | removedLast =>
    rcases h with hi | hin
    · exact .inr (congrArg Cmd.removeRetry hi)
    · exact .inl (.inr hin)
  | _ =>
    rcases h with hi | hin
    · exact hi.elim
    · cases hin

/-- While the scheduler works off its list, the retry set loses entries and gets none. -/
structure Removing (k : Pid) (id : String) (s s' : State) : Prop where
  scheduler : schedules (s'.procs k)
  toRemove : toRemove id (s'.procs k) ∨ s'.world.redis.zscore retriesKey id = none
  fewer : ∀ j, s'.world.redis.zscore retriesKey j ≠ none → s.world.redis.zscore retriesKey j ≠ none

theorem not_enqueueAfter {job : Job} {delay : Int}
    (hf : Follows pc (.enqueueAfter job delay) r pc') : ¬ schedules pc := by
  cases hf
  exact id

/-- The turns of a scheduler are its commands. -/
theorem run_of_schedules (h : schedules (s.procs k)) (ht : Turn result k s l)
    (hstep : step s l = some (s', a)) : ∃ m e, l = .run k m e := by
  cases l with
  | run p m e =>
    obtain rfl : p = k := ht.1
    exact ⟨m, e, rfl⟩
  | finish p outcome =>
    obtain rfl : p = k := ht.1
    simp only [step] at hstep
    split at hstep
    · next hpc =>
      rw [hpc] at h
      exact h.elim
    · cases hstep
  | _ => exact ht.elim

/-- A `ZREM` that the store does not refuse has removed the entry. -/
theorem exec_removeRetry {v v' : World} (h : exec v e (.removeRetry id) = some (v', r))
    (hr : r.commandFailed = false) : v'.redis.zscore retriesKey id = none := by
  simp only [exec, Option.some.injEq] at h
  cases hz : RedisQueue.removeRetry v.redis id with
  | ok redis =>
    rw [hz] at h
    cases h
    exact (Redis.zscore_zrem hz retriesKey id).trans (if_pos ⟨rfl, rfl⟩)
  | error x =>
    rw [hz] at h
    cases h
    cases Redis.zrem_error hz
    cases hr

theorem removing_turn {s₀ : State} (h : Removing k id s₀ s) (hl : Healthy s l)
    (ht : Turn result k s l) (hstep : step s l = some (s', a)) : Removing k id s₀ s' := by
  obtain ⟨m, e, rfl⟩ := run_of_schedules h.scheduler ht hstep
  obtain ⟨cmd, next, r, hran⟩ := step_run hstep
  obtain ⟨rfl, hx, hok⟩ := hl.available.command hran
  have hf := follows hran.code r
  -- the scheduler adds nothing to the retry set
  have hless : ∀ j, s'.world.redis.zscore retriesKey j ≠ none →
      s.world.redis.zscore retriesKey j ≠ none := by
    intro j hj
    have hent := exec_entry hx retriesKey j
    generalize s.world.redis.zscore retriesKey j = x at hent ⊢
    generalize s'.world.redis.zscore retriesKey j = x' at hent hj
    cases hent with
    | same => exact hj
    | enqueued _ _ hk => exact absurd hk.symm (queueKey_ne_retriesKey _)
    | delayed hcmd =>
      subst hcmd
      exact absurd h.scheduler (not_enqueueAfter hf)
    | removed | popped => exact absurd rfl hj
  refine ⟨schedules_turn h.scheduler ht hstep, ?_, fun j hj => h.fewer j (hless j hj)⟩
  rw [hran.procs_self]
  rcases h.toRemove with hrem | hnone
  · rcases toRemove_next hf hrem with hrem' | rfl
    · exact .inl hrem'
    · exact .inr (exec_removeRetry hx (hok rfl))
  · exact .inr (by_contra fun hne => hless id hne hnone)

theorem removing_turns {i : String} {rest : List String} (h : Turns result k s tr s')
    (hpc : s.procs k = .retriesFind i rest) (hin : id ∈ i :: rest) : Removing k id s s' := by
  refine h.invariant (I := fun _ m => Removing k id s m) ⟨?_, ?_, fun _ hj => hj⟩ ?_
  · rw [hpc]
    trivial
  · rw [hpc]
    exact .inl (.inr hin)
  · intro tr m m' l a _ hrem hl hstep
    exact removing_turn hrem hl.1 hl.2 hstep

/-- `PromoteRetries` reads every id that is due. -/
theorem exec_due {v : World} {sc : Int} (ht : Typed v.redis)
    (hsc : v.redis.zscore retriesKey id = some sc) (hle : sc ≤ unix e.reading) :
    ∃ ids, exec v e .dueRetries = some (v, .members ids) ∧ id ∈ ids := by
  obtain ⟨ids, hids⟩ := ht.zrangebyscore deadLetterKey_ne_retriesKey.symm (unix e.reading)
  refine ⟨ids, ?_, (Redis.mem_zrangebyscore hids id).mpr ⟨sc, hsc, hle⟩⟩
  simp only [exec, RedisQueue.dueRetries, hids]

theorem delayed_lt (hmem : id ∈ ids)
    (hless : ∀ j, s'.world.redis.zscore retriesKey j ≠ none →
      s.world.redis.zscore retriesKey j ≠ none)
    (hsc : s.world.redis.zscore retriesKey id ≠ none)
    (hnone : s'.world.redis.zscore retriesKey id = none) : delayed ids s' < delayed ids s := by
  refine List.sum_lt_sum _ _ (fun j _ => ?_) ⟨id, hmem, ?_⟩
  · have hj := hless j
    cases hnew : s'.world.redis.zscore retriesKey j with
    | none => exact Nat.zero_le _
    | some x =>
      obtain ⟨y, hy⟩ := Option.ne_none_iff_exists'.mp (hj (by simp [hnew]))
      rw [hy]
      exact Nat.le_refl _
  · obtain ⟨y, hy⟩ := Option.ne_none_iff_exists'.mp hsc
    rw [hnone, hy]
    exact Nat.zero_lt_one

/-- A pass that promotes nothing takes a due entry out of the retry set. -/
theorem retries_progress (h : Ready w k p ids s)
    (hb : IsBatch s.world.jobs s.world.clock 100 []) {sc : Int} (hmem : id ∈ ids)
    (hsc : s.world.redis.zscore retriesKey id = some sc) (hle : sc ≤ unix s.world.clock) :
    Closer result w k p ids s := by
  have hq : k = k ∨ k = p := .inl rfl
  obtain ⟨next, hcode, hnext⟩ := code_schedulerTick
  rw [← h.scheduler] at hcode
  obtain ⟨v, rows, hx, hrows, hredis, -⟩ := @exec_ready _ _ 0 hb
  obtain rfl := List.map_eq_nil_iff.mp hrows
  have hrange := h.turn result hq hcode hx
  rw [hnext, Pc.promoteNext] at hrange
  -- now `PromoteRetries` reads the ids that are due by the common clock
  obtain ⟨next', hcode', hnext'⟩ := code_retriesRange
  rw [← Function.update_self k Pc.retriesRange s.procs] at hcode'
  have hsound := Turns.sound hrange h.sound
  obtain ⟨due, hx', hdue⟩ := exec_due (e := { reading := s.world.clock }) hsound.clean.redis
    (hredis ▸ hsc) hle
  have hfind := turn_run result hsound (Turns.onDuty hrange (h.onDuty hq))
    (Turns.alone hrange fun p' _ => h.rest p') hcode' hx'
  obtain ⟨i, rest, rfl⟩ := List.exists_cons_of_ne_nil (List.ne_nil_of_mem hdue)
  rw [hnext', Pc.retryNext, Function.update_idem] at hfind
  have hboth := Run.trans hrange hfind
  obtain ⟨tr, s', hturns, hready, hno⟩ := h.turns hq hboth
  have hremoving := removing_turns hturns (Function.update_self _ _ _) hdue
  have hnone : s'.world.redis.zscore retriesKey id = none := by
    refine hremoving.toRemove.resolve_left ?_
    rw [hready.scheduler]
    exact fun hrem => hrem.elim False.elim nofun
  have hfirst := Turns.noMore hboth h.sound (h.onDuty hq)
  refine ⟨_, s', Turns.shifts (hboth.trans hturns) hq, hready,
    measure_of_delayed (hfirst.trans hno).left (delayed_lt hmem (fun j hj => ?_) ?_ hnone)⟩
  · exact hredis ▸ hremoving.fewer j hj
  · simp [hsc]

/-! ## A round of the worker -/

/-- The worker has popped an id, and nothing else has changed. -/
structure Pops (result : Results) (w : Pool) (p : Pid) (s s' : State)
    (name i : String) : Prop where
  turns : ∃ tr, Turns result p s tr s'
  point : s'.procs p = .markRunning w i
  jobs : s'.world.jobs = s.world.jobs
  entry : s.world.redis.zscore (queueKey name) i ≠ none
  others : ∀ key m, s'.world.redis.zscore key m =
    if key = queueKey name ∧ m = i then none else s.world.redis.zscore key m

theorem Pops.before {s₀ : State} {name i : String} (h : Pops result w p s s' name i)
    (hrun : Turns result p s₀ tr s) (hworld : s.world = s₀.world) :
    Pops result w p s₀ s' name i where
  turns := by
    obtain ⟨tr', hturns⟩ := h.turns
    exact ⟨_, hrun.trans hturns⟩
  point := h.point
  jobs := hworld ▸ h.jobs
  entry := hworld ▸ h.entry
  others := hworld ▸ h.others

/-- What `ZPOPMIN` on a queue does. -/
theorem exec_pop {name : String} (ht : Typed v.redis) (hname : name ≠ reserved) :
    (exec v e (.pop name) = some (v, .popped none) ∧
      ∀ m, v.redis.zscore (queueKey name) m = none) ∨
    ∃ v' i, exec v e (.pop name) = some (v', .popped (some i)) ∧ v'.jobs = v.jobs ∧
      v.redis.zscore (queueKey name) i ≠ none ∧ ∀ key m, v'.redis.zscore key m =
        if key = queueKey name ∧ m = i then none else v.redis.zscore key m := by
  have hkey : queueKey name ≠ deadLetterKey := fun hk =>
    hname ((queueKey_eq_deadLetterKey_iff name).mp hk)
  obtain ⟨redis, popped, hpop, -⟩ := ht.zpopmin hkey
  have hx : exec v e (.pop name) = some ({ v with redis := redis }, .popped popped) := by
    simp only [exec, RedisQueue.pop, hpop]
  rcases Redis.zscore_zpopmin hpop with ⟨rfl, rfl, hempty⟩ | ⟨i, sc, rfl, hsc, hothers, -⟩
  · exact .inl ⟨hx, hempty⟩
  · exact .inr ⟨_, i, hx, rfl, by simp [hsc], hothers⟩

theorem code_dequeue (w : Pool) (name : String) (queues : List String) :
    ∃ next, (Pc.dequeue w (name :: queues)).code = some (.pop name, next) ∧
      (∀ i, next (.popped (some i)) = .markRunning w i) ∧
      next (.popped none) = .dequeue w queues :=
  ⟨_, rfl, fun _ => rfl, rfl⟩

/-- One round over the queues pops an id, or finds all of them empty. -/
theorem dequeue_round (result : Results) (queues : List String) :
    ∀ {s}, Ready w k p ids s → s.procs p = .dequeue w queues →
    (∃ s' name i, Pops result w p s s' name i) ∨
    ((∀ name ∈ queues, ∀ m, s.world.redis.zscore (queueKey name) m = none) ∧
      ∃ tr s', Turns result p s tr s' ∧ s'.world = s.world ∧ s'.procs p = .dequeue w []) := by
  induction queues with
  | nil => exact fun _ hp => .inr ⟨nofun, [], _, .start, rfl, hp⟩
  | cons name queues ih =>
    intro s h hp
    have hq : p = k ∨ p = p := .inr rfl
    have hname : name ≠ reserved := by
      have hav := h.sound.clean.points p
      rw [hp] at hav
      exact fun heq => hav.2 (heq ▸ List.mem_cons_self)
    obtain ⟨next, hcode, hsome, hnone⟩ := code_dequeue w name queues
    rw [← hp] at hcode
    rcases exec_pop (e := {}) h.sound.clean.redis hname with
      ⟨hx, hempty⟩ | ⟨v, i, hx, hjobs, hentry, hothers⟩
    · have hturn := h.turn result hq hcode hx
      rw [hnone] at hturn
      have hself := Function.update_self p (Pc.dequeue w queues) s.procs
      rcases ih (h.after hq hturn (by simp [atRest])) hself with
        ⟨s', name', i, hpops⟩ | ⟨hall, tr, s', hturns, hworld, hpoint⟩
      · exact .inl ⟨s', name', i, hpops.before hturn rfl⟩
      · refine .inr ⟨?_, _, s', Run.trans hturn hturns, hworld, hpoint⟩
        intro name' hin
        rcases List.mem_cons.mp hin with rfl | hin
        · exact hempty
        · exact hall name' hin
    · have hturn := h.turn result hq hcode hx
      rw [hsome] at hturn
      exact .inl ⟨_, name, i, ⟨_, hturn⟩, Function.update_self _ _ _, hjobs, hentry, hothers⟩

/-- While a queue holds an entry, the worker pops an id. -/
theorem pops_some (result : Results) (h : Ready w k p ids s) {name : String}
    (hin : name ∈ w.queues) (hentry : s.world.redis.zscore (queueKey name) id ≠ none) :
    ∃ s' name' i, Pops result w p s s' name' i := by
  have hq : p = k ∨ p = p := .inr rfl
  obtain ⟨queues, hp⟩ := h.worker
  rcases dequeue_round result queues h hp with hpops | ⟨-, tr, s₁, hrun, hworld, hp₁⟩
  · exact hpops
  · have hready := h.after hq hrun (by rw [hp₁]; rfl)
    have hcode : (s₁.procs p).code = some (.sleep, fun _ => .dequeue w w.queues) := by
      rw [hp₁]
      rfl
    have hslept := hready.turn (e := {}) result hq hcode rfl
    have hself := Function.update_self p (Pc.dequeue w w.queues) s₁.procs
    rcases dequeue_round result w.queues
      (hready.after hq hslept (by simp [atRest])) hself with
      ⟨s', name', i, hpops⟩ | ⟨hempty, -⟩
    · exact ⟨s', name', i, hpops.before (hrun.trans hslept) hworld⟩
    · exact absurd (hempty name hin id) (hworld ▸ hentry)

/-- An id that the worker cannot start has left its queue. -/
theorem enqueued_lt {name i : String} (hmem : i ∈ ids) (hrows : ∀ j, row s' j = row s j)
    (hrow : ∃ r, row s i = some r ∧ r.queueName = name)
    (hentry : s.world.redis.zscore (queueKey name) i ≠ none)
    (hothers : ∀ key m, s'.world.redis.zscore key m =
      if key = queueKey name ∧ m = i then none else s.world.redis.zscore key m) :
    enqueued ids s' < enqueued ids s := by
  refine List.sum_lt_sum _ _ (fun j _ => ?_) ⟨i, hmem, ?_⟩
  · unfold inQueue
    rw [hrows j]
    cases row s j with
    | none => exact Nat.le_refl _
    | some r =>
      simp only [Option.any_some, hothers]
      split
      · exact Nat.zero_le _
      · exact Nat.le_refl _
  · obtain ⟨r, hr, rfl⟩ := hrow
    obtain ⟨sc, hsc⟩ := Option.ne_none_iff_exists'.mp hentry
    simp [inQueue, hrows i, hr, hothers, hsc]

/-- A round of the worker starts a job or takes an entry off a queue. -/
theorem serve_progress (result : Results) (h : Ready w k p ids s) {name : String}
    (hin : name ∈ w.queues) (hentry : s.world.redis.zscore (queueKey name) id ≠ none) :
    Closer result w k p ids s := by
  have hq : p = k ∨ p = p := .inr rfl
  obtain ⟨s₁, name', i, ⟨tr, hpop⟩, hpoint, hjobs, hentry, hothers⟩ :=
    pops_some result h hin hentry
  obtain ⟨r, hr, hname⟩ := h.sound.queueNames name' i hentry
  have hrows₁ : ∀ j, row s₁ j = row s j := fun j => congrArg (JobTable.find · j) hjobs
  have hmem := (h.rows i r hr).1
  have hsound := Turns.sound hpop h.sound
  have hcode : ∃ next, (s₁.procs p).code = some (.markRunning i, next) ∧
      ∀ x, next (.err x) = .dequeue w w.queues := by
    rw [hpoint]
    exact ⟨_, rfl, fun _ => rfl⟩
  obtain ⟨next, hcode, hnext⟩ := hcode
  obtain ⟨v, reply, hx⟩ : ∃ v reply, exec s₁.world {} (.markRunning i) = some (v, reply) :=
    ⟨_, _, rfl⟩
  have hmark := turn_run result hsound (Turns.onDuty hpop (h.onDuty hq))
    (Turns.alone hpop fun p' _ => h.rest p') hcode hx
  have hstep := run_ok (e := {}) hcode hx
  have hboth := Run.trans hpop hmark
  have hno := Turns.noMore hboth h.sound (h.onDuty hq)
  rw [hpoint] at hstep
  simp only [exec, Option.some.injEq] at hx
  obtain ⟨hv, rfl⟩ := Prod.mk.inj hx
  rcases markRunning_cases s₁.world.jobs s₁.world.clock i with ⟨r₁, hr₁, hw, hok, -⟩ | ⟨-, herr, -⟩
  · -- the job starts
    rw [hok] at hstep
    have hri : r₁.id = i := JobTable.find_id hr₁
    have hlt := @work_of_isMove _ _ _ _ i hsound hstep
      (by simp [ofRow, observe, isMove, runningSet, hri])
    obtain ⟨tr', s', hturns, hready, hno'⟩ := h.turns hq hboth
    refine ⟨_, s', Turns.shifts (hboth.trans hturns) hq, hready, measure_of_left
      (left_lt (hno.trans hno') hmem ?_)⟩
    rw [← hrows₁ i]
    refine (hno'.work i).trans_lt ?_
    rwa [hok]
  · -- nothing is there to start, and the worker is at rest again
    rw [herr] at hstep
    have hrest := h.after hq hboth (by simp [herr, ofRow, hnext, atRest])
    have hredis : v.redis = s₁.world.redis := hv ▸ rfl
    have hrows : ∀ j, row _ j = row s j := fun j =>
      (row_of_not_touches hstep False.elim).trans (hrows₁ j)
    refine ⟨_, _, Turns.shifts hboth hq, hrest, measure_of_enqueued hno.left ?_
      (enqueued_lt hmem hrows ⟨r, hr, hname⟩ hentry (hredis ▸ hothers))⟩
    refine List.sum_le_sum fun j _ => ?_
    have hkey : retriesKey ≠ queueKey name' := (queueKey_ne_retriesKey name').symm
    simp only [hredis, hothers, hkey, false_and, if_false, Nat.le_refl]

/-! ## Every job ends -/

/-- The job has come to its end. -/
def Finished (r : Job) : Prop :=
  r.status = .completed ∨ r.status = .cancelled ∨ r.status = .deadLetter

/-- The clock goes forward while the system is at rest. -/
theorem Ready.tick (result : Results) (h : Ready w k p ids s) {now : Time}
    (hnow : s.world.clock ≤ now) :
    ∃ tr s', Shifts result k p s tr s' ∧ Ready w k p ids s' ∧ measure ids s' = measure ids s ∧
      s'.world.jobs = s.world.jobs ∧ s'.world.redis = s.world.redis ∧ s'.world.clock = now := by
  have hl : Healthy s (.tick now) := ⟨trivial, trivial, trivial, trivial⟩
  have hstep : step s (.tick now) =
    some ({ s with world := { s.world with clock := now } }, .silent) := rfl
  exact ⟨_, _, .single ⟨hl, hnow⟩ hstep, ⟨h.sound.step hl hstep, h.rest, h.scheduler, h.worker,
    h.rows⟩, rfl, rfl, rfl, rfl⟩

theorem Closer.after {s₁ : State} (hrun : Shifts result k p s tr s₁)
    (hmeasure : measure ids s₁ = measure ids s) (h : Closer result w k p ids s₁) :
    Closer result w k p ids s := by
  obtain ⟨tr', s', hrun', hready, hlt⟩ := h
  exact ⟨_, s', hrun.trans hrun', hready, hmeasure ▸ hlt⟩

/-- A scheduled row is promoted, or another one in its place. -/
theorem scheduled_progress (h : Ready w k p ids s) (hrow : row s id = some row₀)
    (hst : row₀.status = .scheduled) :
    Closer result w k p ids s := by
  obtain ⟨tr₀, hrun₀⟩ := h.sound
  obtain ⟨t, ht⟩ := Option.isSome_iff_exists.mp (scheduled_time hrun₀ hrow hst)
  obtain ⟨tr, s₁, htick, hready, hmeasure, hjobs, -, hclock⟩ :=
    h.tick result (le_max_left s.world.clock t)
  obtain ⟨batch, hb⟩ := exists_isBatch s₁.world.jobs s₁.world.clock 100
  have hne : batch ≠ [] := by
    rintro rfl
    have hdue : row₀ ∈ s₁.world.jobs.rows.filter (isDue s₁.world.clock) := by
      rw [hjobs, hclock, List.mem_filter]
      refine ⟨(s.world.jobs.mem_rows_iff row₀).mpr ((JobTable.find_id hrow).symm ▸ hrow), ?_⟩
      simp [isDue, hst, ht]
    have hlen := hb.2.2.1
    have hpos := List.length_pos_of_mem hdue
    simp only [List.length_nil] at hlen
    omega
  exact (promote_progress hready hb hne).after htick hmeasure

/-- An entry of the retry set falls due, and is moved to its queue unless rows are promoted
first. -/
theorem delayed_progress (h : Ready w k p ids s) (hmem : id ∈ ids)
    (hentry : s.world.redis.zscore retriesKey id ≠ none) :
    Closer result w k p ids s := by
  obtain ⟨sc, hsc⟩ := Option.ne_none_iff_exists'.mp hentry
  obtain ⟨tr, s₁, htick, hready, hmeasure, -, hredis, hclock⟩ :=
    h.tick result (le_max_left s.world.clock (sc * 1000000))
  obtain ⟨batch, hb⟩ := exists_isBatch s₁.world.jobs s₁.world.clock 100
  refine Closer.after htick hmeasure ?_
  by_cases hne : batch = []
  · subst hne
    have hle : sc ≤ unix s₁.world.clock := by
      have hmax := le_max_right s.world.clock (sc * 1000000)
      rw [hclock, unix]
      omega
    exact retries_progress hready hb hmem (hredis ▸ hsc) hle
  · exact promote_progress hready hb hne

/-- While a job has not come to its end, the shift goes on. -/
theorem progress (result : Results) (h : Ready w k p ids s) (hrow : row s id = some row₀)
    (hopen : ¬ Finished row₀) :
    Closer result w k p ids s := by
  obtain ⟨tr₀, hrun₀⟩ := h.sound
  obtain ⟨hmem, hqueue⟩ := h.rows id row₀ hrow
  have hwaiting : Waiting row₀ → Closer result w k p ids s := by
    intro hw
    rcases allKept_run (fun _ _ hl => ⟨hl.available, hl.apart⟩) hrun₀ id row₀ hrow hw with
      hentry | ⟨q, ho⟩ | ⟨hentry, -⟩
    · exact serve_progress result h hqueue hentry
    · exact absurd ho (not_owes_of_atRest id (h.rest q))
    · exact delayed_progress h hmem hentry
  cases hst : row₀.status with
  | scheduled => exact scheduled_progress h hrow hst
  | queued => exact hwaiting (.inl hst)
  | retrying => exact hwaiting (.inr hst)
  | running =>
    obtain ⟨q, hx⟩ := running_held (hrun₀.mono fun _ _ => Healthy.available) hrow hst
    exact absurd hx (not_executes_of_atRest (h.rest q) id)
  | failed => exact absurd (by rw [statusOf, hrow, Option.map_some, hst]) (never_failed hrun₀ id)
  | completed => exact absurd (.inl hst) hopen
  | cancelled => exact absurd (.inr (.inl hst)) hopen
  | deadLetter => exact absurd (.inr (.inr hst)) hopen

/-- From any state at rest that a run without failing commands reaches, in which no retries of
one job overlap and nobody uses the reserved queue name, a scheduler and a worker that serves
all queues can go on so that every job is completed, cancelled or a dead letter, whatever
`Process` makes of each job. Counters and heartbeats may be refused, as they are where the id of
a worker is no UUID. No error of `Process` has a zero character in its text, with which
`MarkFailed` would fail and leave its job running. -/
theorem every_job_ends (h : Run step Healthy State.initial tr s) (hrest : Quiescent s)
    (hk : s.procs k = .schedulerTick) {queues : List String}
    (hp : s.procs p = .dequeue w queues)
    (hserved : ∀ id r, row s id = some r → r.queueName ∈ w.queues) (result : Results) :
    ∃ tr' s', Run step (fun s l => Healthy s l ∧ Shift result k p s l) s tr' s' ∧
      ∀ id r, row s id = some r → ∃ r', row s' id = some r' ∧ SameJob r r' ∧ Finished r' := by
  have hready : Ready w k p (s.world.jobs.rows.map Job.id) s := by
    refine ⟨⟨tr, h⟩, hrest, hk, ⟨queues, hp⟩, fun id r hr => ⟨?_, hserved id r hr⟩⟩
    by_contra hno
    cases ((s.world.jobs.find_eq_none_iff id).mpr hno).symm.trans hr
  have hstep : ∀ s₁, Ready w k p (s.world.jobs.rows.map Job.id) s₁ →
      (∀ id r, row s₁ id = some r → Finished r) ∨
        Closer result w k p (s.world.jobs.rows.map Job.id) s₁ := by
    intro s₁ hs₁
    by_cases hall : ∀ id r, row s₁ id = some r → Finished r
    · exact .inl hall
    · simp only [not_forall] at hall
      obtain ⟨id, r, hr, hopen⟩ := hall
      exact .inr (progress result hs₁ hr hopen)
  obtain ⟨tr', s', hrun, -, hall⟩ := Run.eventually (measure _) hstep hready
  refine ⟨tr', s', hrun, fun id r hr => ?_⟩
  obtain ⟨r', hr', hsame⟩ := run_sameJob hrun hr
  exact ⟨r', hr', hsame, hall id r' hr'⟩

/-- A job (0) waits in its queue and another one (3) for its time, with a scheduler (1) and a
worker (2) at rest. The worker has the id that a pool takes without a setting. -/
def twoJobs : List Label :=
  [.start 0 (.request (.create ⟨"u1", "default", "send_email", none, 0, 3, none⟩)),
    .run 0 .ok { freshID := "j1" }, .run 0 .ok {}, .run 0 .ok {},
    .start 3 (.request (.create ⟨"u1", "reports", "webhook", none, 5, 1, some 9000000000⟩)),
    .run 3 .ok { freshID := "j2" }, .run 3 .ok {},
    .start 1 .scheduler,
    .start 2 (.worker ⟨"host-1709214840000000000", "host", ["default", "reports"]⟩)]

theorem twoJobs_runs : (execute step State.initial twoJobs).isSome := by decide

def alwaysFails : Results := ⟨fun _ => .error "boom", fun _ _ h => by cases h; decide⟩

theorem every_job_ends_twoJobs : ∃ tr s, Run step Healthy State.initial tr s ∧
    (row s "j1").any (fun r => r.status = .queued) ∧
    (row s "j2").any (fun r => r.status = .scheduled) ∧
    ∃ tr' s', Run step (fun s l => Healthy s l ∧ Shift alwaysFails 1 2 s l) s tr' s' ∧
      ∀ id r, row s id = some r → ∃ r', row s' id = some r' ∧ SameJob r r' ∧ Finished r' := by
  have hrun := (Run.of_outcome twoJobs_runs (show Admitted step
    (fun s l => Available s l ∧ Storable l ∧ noDelay s l ∧ Unreserved s l) _ _ by decide)).mono
    fun s l hc => Healthy.mk hc.1 hc.2.1 (apart_of_noDelay hc.2.2.1) hc.2.2.2
  have hq := quiescent_outcome twoJobs_runs 4 (by decide) (by decide)
  have hrows : ∀ r ∈ (outcome step State.initial twoJobs twoJobs_runs).1.world.jobs.rows,
      r.queueName ∈ ["default", "reports"] := by decide
  have hserved : ∀ id r, row (outcome step State.initial twoJobs twoJobs_runs).1 id = some r →
      r.queueName ∈ ["default", "reports"] := by
    intro id r hr
    exact hrows r ((JobTable.mem_rows_iff _ r).mpr ((JobTable.find_id hr).symm ▸ hr))
  exact ⟨_, _, hrun, by decide, by decide, every_job_ends hrun hq (k := 1) (p := 2) rfl rfl
    hserved alwaysFails⟩

end JobFlow.Runs.Progress
