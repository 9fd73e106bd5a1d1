import JobFlow.Runs.Delivery
import JobFlow.Runs.KeySpace
import JobFlow.Runs.Ownership
import JobFlow.Runs.QueueDepth
import Mathlib.Data.Prod.Lex

/-!
# Schedulers and workers come to rest

Between two operations a scheduler is at its tick and a worker at `Dequeue`. From any point
in between, a goroutine that takes its steps alone is back there after finitely many: every
command leads to a point of lower rank, and with the stores available and nobody using the
reserved queue name no command fails but those that count for a worker whose id is no UUID.
-/

namespace JobFlow.Runs.Rest

open JobFlow.Model
open JobFlow.Model.JobRepository
open JobFlow.Model.RedisQueue
open JobFlow.Lib.Transition
open ControlFlow Steps Carried Entries KeySpace Delivery Ownership QueueDepth

/-- The points of the scheduler. -/
def schedules : Pc → Prop
  | .schedulerTick | .promoteEnqueue _ _ | .promotePublish _ _ | .retriesRange
  | .retriesFind _ _ | .retriesEnqueue _ _ _ | .retriesRemove _ _ => True
  | _ => False

/-- The points of a worker of the pool. -/
def serves (w : Pool) : Pc → Prop
  | .dequeue w' _ | .markRunning w' _ | .publishRunning w' _ | .process w' _
  | .markCompleted w' _ | .countCompleted w' _ | .publishCompleted w' _ | .markFailed w' _ _
  | .countFailed w' _ | .enqueueAfter w' _ | .publishRetrying w' _ | .deadLetter w' _
  | .publishDeadLetter w' _ => w' = w
  | _ => False

/-- A scheduler or a worker of the pool. -/
def OnDuty (w : Pool) (pc : Pc) : Prop := schedules pc ∨ serves w pc

variable {w w' : Pool} {pc pc' : Pc} {cmd : Cmd} {r : Reply}

theorem schedules_next (hf : Follows pc cmd r pc') (h : schedules pc) : schedules pc' := by
  cases hf <;> trivial

theorem serves_next (hf : Follows pc cmd r pc') (h : serves w pc) : serves w pc' := by
  cases hf <;> exact h

theorem serves_processed {job : Job} {outcome : Except String Unit}
    (h : serves w (.process w' job)) : serves w (Pc.processed w' job outcome) := by
  cases outcome <;> exact h

theorem schedules_atRest (h : schedules pc) (hr : atRest pc) : pc = .schedulerTick := by
  cases pc <;> first | rfl | exact h.elim | exact absurd hr (by simp [atRest])

theorem serves_atRest (h : serves w pc) (hr : atRest pc) : ∃ queues, pc = .dequeue w queues := by
  cases pc with
  | dequeue w' queues =>
    obtain rfl : w' = w := h
    exact ⟨queues, rfl⟩
  | _ => first | exact h.elim | exact absurd hr (by simp [atRest])

/-- No insert, whose values the columns may refuse, and no statement about the workers, whose id
may be no UUID. -/
def Cmd.Accepted : Cmd → Prop
  | .insertJob _ | .incrementProcessed _ _ | .heartbeat _ _ _ => False
  | _ => True

theorem accepted_next (hf : Follows pc cmd r pc') (h : OnDuty w pc)
    (hno : Cmd.usesWorkers cmd = false) : Cmd.Accepted cmd := by
  rcases h with h | h <;> cases hf <;> trivial

/-- A statement by id has run, whether or not it has found its row. -/
theorem scanRow_runs (rows : List Job) : (ofRow (scanRow rows)).commandFailed = false := by
  cases rows <;> rfl

theorem not_failed {v v' : World} {e : Env} (ht : Typed v.redis) (hav : KeySpace.Cmd.Avoids cmd)
    (hacc : Cmd.Accepted cmd) (h : exec v e cmd = some (v', r)) : r.commandFailed = false := by
  have hredis := (typed_exec ht hav h).2
  cases cmd with
  | enqueue | enqueueAfter | dueRetries | removeRetry | pop | deadLetter =>
    cases r with
    | err x => exact absurd rfl (hredis rfl x)
    | _ => rfl
  | insertJob | incrementProcessed | heartbeat => exact hacc.elim
  | readyScheduled limit =>
    obtain ⟨⟨t, rows⟩, -, heq⟩ := Option.map_eq_some_iff.mp h
    cases heq
    rfl
  | cancelJob | markCompleted | publish | sleep =>
    cases h
    rfl
  | findJob | requeueJob | markRunning | markFailed =>
    cases h
    exact scanRow_runs _

/-- Only the promotion depends on a choice that may be wrong. -/
theorem exec_isSome (v : World) (e : Env) (h : ∀ limit, cmd ≠ .readyScheduled limit) :
    ∃ v' r, exec v e cmd = some (v', r) := by
  cases cmd with
  | readyScheduled limit => exact absurd rfl (h limit)
  | _ => exact ⟨_, _, rfl⟩

/-! ## Rank -/

/-- How far a point is from rest. The first number is of the loops that are still ahead, the
second counts the commands in the one that is under way. -/
def rank : Pc → Nat ×ₗ Nat
  | .promoteEnqueue _ jobs => toLex (2, 2 * jobs.length + 2)
  | .promotePublish _ jobs => toLex (2, 2 * jobs.length + 1)
  | .retriesRange => toLex (1, 0)
  | .retriesFind _ ids => toLex (0, 3 * ids.length + 3)
  | .retriesEnqueue _ _ ids => toLex (0, 3 * ids.length + 2)
  | .retriesRemove _ ids => toLex (0, 3 * ids.length + 1)
  | .markRunning _ _ => toLex (0, 8)
  | .publishRunning _ _ => toLex (0, 7)
  | .process _ _ => toLex (0, 6)
  | .markCompleted _ _ | .markFailed _ _ _ => toLex (0, 5)
  | .countCompleted _ _ | .countFailed _ _ => toLex (0, 4)
  | .enqueueAfter _ _ | .deadLetter _ _ => toLex (0, 3)
  | .publishCompleted _ _ | .publishRetrying _ _ | .publishDeadLetter _ _ => toLex (0, 2)
  | _ => toLex (0, 0)

theorem rank_next (hd : OnDuty w pc) (hr : atRest pc = false) (hf : Follows pc cmd r pc') :
    rank pc' < rank pc := by
  rcases hd with hd | hd <;> cases hf <;>
    first
    | exact hd.elim
    | (simp [atRest] at hr; done)
    | (simp only [rank, Prod.Lex.toLex_lt_toLex, List.length_cons, true_and]; omega)

theorem rank_processed (job : Job) (outcome : Except String Unit) :
    rank (Pc.processed w job outcome) < rank (.process w job) := by
  cases outcome <;> exact Prod.Lex.toLex_lt_toLex.mpr (.inr ⟨rfl, by decide⟩)

/-! ## Turns -/

/-- PostgreSQL takes the text of the error that `Process` returns, which `MarkFailed` writes. -/
def Storable : Label → Prop
  | .finish _ (.error text) => hasZero text = false
  | _ => True

instance : (l : Label) → Decidable (Storable l)
  | .finish _ (.error text) => inferInstanceAs (Decidable (hasZero text = false))
  | .finish _ (.ok ()) | .start _ _ | .tick _ | .run _ _ _ | .crash _ | .signal _ =>
    inferInstanceAs (Decidable True)

/-- Every command succeeds except that statements about the workers may be refused, no two
retries of a job overlap, and nobody uses the reserved queue name. -/
structure Healthy (s : State) (l : Label) : Prop where
  available : Available s l
  storable : Storable l
  apart : Apart s l
  unreserved : Unreserved s l

/-- What `Process` makes of each job, its errors with a text that PostgreSQL takes. -/
structure Results where
  of : Job → Except String Unit
  storable : ∀ job text, of job = .error text → hasZero text = false

variable {result : Results} {s s' : State} {l : Label} {a : Act} {p q : Pid}
  {tr : List Act} {m : Mode} {e : Env} {next : Reply → Pc} {v : World}

/-- Goroutine `q` takes a step, and `Process` ends with the result of its job. -/
def Turn (result : Results) (q : Pid) (s : State) : Label → Prop
  | .run p m _ => p = q ∧ m = .ok
  | .finish p outcome => p = q ∧ ∀ w job, s.procs p = .process w job → outcome = result.of job
  | _ => False

theorem Turn.pid (h : Turn result q s l) : Label.pid l = some q := by
  cases l with
  | run | finish => exact congrArg some h.1
  | _ => exact h.elim

/-- The others are between two operations. -/
def Alone (q : Pid) (s : State) : Prop := ∀ p, p ≠ q → atRest (s.procs p)

theorem Alone.step (hal : Alone q s) (ht : Turn result q s l) (h : step s l = some (s', a)) :
    Alone q s' := by
  intro p hp
  rw [step_procs h (by rw [ht.pid]; exact fun heq => hp (Option.some.inj heq).symm)]
  exact hal p hp

theorem run_ok (hcode : (s.procs q).code = some (cmd, next))
    (hx : exec s.world e cmd = some (v, r)) :
    step s (.run q .ok e) = some (⟨v, Function.update s.procs q (next r)⟩,
      observe q (s.procs q) s.world.clock r) := by
  simp [Model.step, advance, hcode, hx]

/-- A command of a goroutine on duty succeeds while the others are at rest, or it counts for the
worker and the goroutine goes on. -/
theorem healthy_run (hcar : CarriesRows s) (hc : Clean s) (hd : OnDuty w (s.procs q))
    (hal : Alone q s) (hcode : (s.procs q).code = some (cmd, next))
    (hx : exec s.world e cmd = some (v, r)) : Healthy s (.run q .ok e) where
  available := by
    refine ⟨rfl, ?_⟩
    cases hno : Cmd.usesWorkers cmd with
    | true => simp [advance, hcode, hx, hno]
    | false =>
      have hacc := accepted_next (follows hcode r) hd hno
      have hok := not_failed hc.redis (hc.command hcar hcode) hacc hx
      simp [advance, hcode, hx, hok]
  storable := trivial
  apart := by
    intro pool job hpc p hrem
    by_cases hp : p = q
    · subst hp
      rw [hpc] at hrem
      exact hrem
    · exact not_removing_of_atRest (hal p hp) _ hrem
  unreserved := trivial

theorem code_of_onDuty (hd : OnDuty w (s.procs q)) (hr : atRest (s.procs q) = false) :
    (∃ job, s.procs q = .process w job) ∨
      ∃ cmd next, (s.procs q).code = some (cmd, next) ∧ ∀ limit, cmd ≠ .readyScheduled limit := by
  generalize s.procs q = pc at hd hr
  cases pc with
  | process w' job =>
    obtain rfl : w' = w := hd.resolve_left id
    exact .inl ⟨job, rfl⟩
  | idle | stopped | returned | schedulerTick | dequeue | heartbeat | offline => cases hr
  | _ => exact .inr ⟨_, _, rfl, nofun⟩

/-- What a run that a healthy system may have had leaves. -/
def Sound (s : State) : Prop := ∃ tr, Run step Healthy State.initial tr s

theorem Sound.clean (h : Sound s) : Clean s := by
  obtain ⟨tr, hrun⟩ := h
  exact clean_run (hrun.mono fun _ _ => Healthy.unreserved)

theorem Sound.carries (h : Sound s) : CarriesRows s := by
  obtain ⟨tr, hrun⟩ := h
  exact carried_run hrun

theorem Sound.queueNames (hs : Sound s) : QueueNames s := by
  obtain ⟨tr, hrun⟩ := hs
  exact queueNames_run hrun

theorem Sound.step (h : Sound s) (hl : Healthy s l) (hs : step s l = some (s', a)) : Sound s' := by
  obtain ⟨tr, hrun⟩ := h
  exact ⟨_, hrun.next hl hs⟩

/-- What every command of a goroutine and every end of `Process` keeps, its turns keep. -/
theorem turn_keeps {D : Pc → Prop}
    (hnext : ∀ {pc cmd r pc'}, Follows pc cmd r pc' → D pc → D pc')
    (hprocessed : ∀ {w job outcome}, D (.process w job) → D (Pc.processed w job outcome))
    (hd : D (s.procs q)) (ht : Turn result q s l) (h : step s l = some (s', a)) :
    D (s'.procs q) := by
  have hm := step_moves h q
  generalize s'.procs q = pc' at hm
  cases hm with
  | stays => exact hd
  | starts hl | crashes hl | stops hl =>
    subst hl
    exact ht.elim
  | finishes hl hpc => exact hprocessed (hpc ▸ hd)
  | runs hl hran => exact hnext (follows hran.code _) hd

theorem schedules_turn (hd : schedules (s.procs q)) (ht : Turn result q s l)
    (h : step s l = some (s', a)) : schedules (s'.procs q) :=
  turn_keeps schedules_next False.elim hd ht h

theorem serves_turn (hd : serves w (s.procs q)) (ht : Turn result q s l)
    (h : step s l = some (s', a)) : serves w (s'.procs q) :=
  turn_keeps serves_next serves_processed hd ht h

theorem OnDuty.turn (hd : OnDuty w (s.procs q)) (ht : Turn result q s l)
    (h : step s l = some (s', a)) : OnDuty w (s'.procs q) :=
  hd.imp (fun hd => schedules_turn hd ht h) fun hd => serves_turn hd ht h

/-- A goroutine on duty that is not at rest has a next step, and it leads nearer to rest. -/
theorem turn_enabled (result : Results) (hs : Sound s)
    (hd : OnDuty w (s.procs q)) (hr : atRest (s.procs q) = false) (hal : Alone q s) :
    ∃ l s' a, step s l = some (s', a) ∧ Healthy s l ∧ Turn result q s l ∧
      rank (s'.procs q) < rank (s.procs q) := by
  rcases code_of_onDuty hd hr with ⟨job, hpc⟩ | ⟨cmd, next, hcode, hne⟩
  · have hstep : step s (.finish q (result.of job)) =
        some (s.moveTo q (Pc.processed w job (result.of job)),
          .processReturned q job.id (result.of job).isOk) := by
      simp only [Model.step, hpc]
    refine ⟨_, _, _, hstep, ⟨trivial, ?_, trivial, trivial⟩, ⟨rfl, ?_⟩, ?_⟩
    · unfold Storable
      split
      · next heq => exact result.storable job _ (Label.finish.inj heq).2
      · trivial
    · intro w' job' hpc'
      cases hpc.symm.trans hpc'
      rfl
    · simp only [State.moveTo, Function.update_self, hpc]
      exact rank_processed job _
  · obtain ⟨v, r, hx⟩ := exec_isSome s.world {} hne
    refine ⟨_, _, _, run_ok hcode hx, healthy_run hs.carries hs.clean hd hal hcode hx,
      ⟨rfl, rfl⟩, ?_⟩
    simp only [Function.update_self]
    exact rank_next hd hr (follows hcode r)

/-- A goroutine on duty comes to rest while the others stay there. -/
theorem comes_to_rest (result : Results) (hs : Sound s)
    (hd : OnDuty w (s.procs q)) (hal : Alone q s) :
    ∃ tr s', Run step (fun s l => Healthy s l ∧ Turn result q s l) s tr s' ∧
      (Sound s' ∧ OnDuty w (s'.procs q) ∧ Alone q s') ∧ atRest (s'.procs q) := by
  refine Run.eventually (fun s => rank (s.procs q)) ?_ ⟨hs, hd, hal⟩
  intro s hgood
  obtain ⟨hs, hd, hal⟩ := hgood
  cases hr : atRest (s.procs q) with
  | true => exact .inl rfl
  | false =>
    obtain ⟨l, s', a, hstep, hl, ht, hlt⟩ := turn_enabled result hs hd hr hal
    exact .inr ⟨_, s', .single ⟨hl, ht⟩ hstep, ⟨hs.step hl hstep, hd.turn ht hstep,
      hal.step ht hstep⟩, hlt⟩

end JobFlow.Runs.Rest
