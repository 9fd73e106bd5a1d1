import JobFlow.Runs.Delivery
import Mathlib.Data.Finset.Card

/-!
# The counters of a pool

`IncrementProcessed` is an `UPDATE`, which counts nothing while the pool has no row, and the
row is made by the first heartbeat. `Start` starts the goroutines before it, so they may be
done with jobs by then. A mark of the pool is in its row, is about to be counted, or was
counted before the first heartbeat and so is lost.
-/

namespace JobFlow.Runs.Counters

open JobFlow.Model
open JobFlow.Model.WorkerRepository
open JobFlow.Lib.Transition
open ControlFlow Steps Carried Delivery

/-- What a step does about the worker with an id. -/
inductive Note where
  | other
  | beat (worker : String)
  | marked (worker : String) (failed : Bool)
  | counted (worker : String) (failed : Bool)

/-- What is noted of a command at a program point, from what it did. -/
def noteAt : Pc → Act → Note
  | .heartbeat w, _ => .beat w.id
  | .offline w, _ => .beat w.id
  | .markCompleted w _, .markedCompleted _ _ => .marked w.id false
  | .markFailed w _ _, .markedFailed .. => .marked w.id true
  | .countCompleted w _, _ => .counted w.id false
  | .countFailed w _, _ => .counted w.id true
  | _, _ => .other

def note (s : State) (l : Label) (a : Act) : Note :=
  match l with
  | .run p _ _ => noteAt (s.procs p) a
  | _ => .other

/-- The system, observed by what it does about workers. -/
def noted : Machine State Label Note := fun s l =>
  (step s l).map fun (s', a) => (s', note s l a)

/-- A goroutine is between a mark and its increment. -/
def isCounting : Pc → Bool
  | .countCompleted _ _ => true
  | .countFailed _ _ => true
  | _ => false

/-- No command fails, and no goroutine is stopped between a mark and its increment. -/
def Unbroken (s : State) : Label → Prop
  | .crash p => isCounting (s.procs p) = false
  | l => Steady s l

instance (s : State) (l : Label) : Decidable (Unbroken s l) := by
  induction l using Label.casesOn <;> dsimp only [Unbroken] <;> infer_instance

section Reading

variable (key : String)

/-- A heartbeat for the row of the key. -/
def isBeat : Note → Bool
  | .beat worker => uuid worker = some key
  | _ => false

variable (failed : Bool)

/-- A `MarkCompleted`, or a `MarkFailed`, by a goroutine of the pool took effect. -/
def isMark : Note → Bool
  | .marked worker f => uuid worker = some key && f = failed
  | _ => false

def isCount : Note → Bool
  | .counted worker f => uuid worker = some key && f = failed
  | _ => false

def marks (notes : List Note) : Nat := notes.countP (isMark key failed)

/-- The increments before the first heartbeat. -/
def missed (notes : List Note) : Nat :=
  (notes.takeWhile fun n => !isBeat key n).countP (isCount key failed)

/-- `jobs_processed` or `jobs_failed` in the row, zero where there is none. -/
def tally (t : WorkerTable) : Nat :=
  ((t key).map fun row => if failed then row.jobsFailed else row.jobsProcessed).getD 0

/-- A goroutine of the pool is about to count a mark. -/
def counts : Pc → Prop
  | .countCompleted w _ => uuid w.id = some key ∧ failed = false
  | .countFailed w _ => uuid w.id = some key ∧ failed = true
  | _ => False

theorem marks_snoc (notes : List Note) (n : Note) :
    marks key failed (notes ++ [n]) = marks key failed notes + if isMark key failed n then 1 else 0 := by
  simp [marks, List.countP_append, List.countP_singleton]

/-- After the first heartbeat no increment is missed. -/
theorem missed_snoc (notes : List Note) (n : Note) :
    missed key failed (notes ++ [n]) = missed key failed notes +
      if (∀ m ∈ notes, isBeat key m = false) ∧ isCount key failed n then 1 else 0 := by
  unfold missed
  induction notes with
  | nil =>
    cases n <;> simp [isBeat, isCount, List.takeWhile_cons]
  | cons m notes ih =>
    cases hm : isBeat key m with
    | true => simp [hm]
    | false =>
      simp only [List.cons_append, List.takeWhile_cons, hm, Bool.not_false, if_true,
        List.countP_cons, ih, List.forall_mem_cons, true_and]
      omega

end Reading

variable {key : String} {failed : Bool} {s s' : State} {l : Label} {n : Note} {notes : List Note}

theorem not_counts_of_not_isCounting {pc : Pc} (h : isCounting pc = false) :
    ¬ counts key failed pc := by
  cases pc <;> first | exact fun hc => hc | cases h

theorem not_isCounting_entry {pc : Pc} (h : EntryPoint pc) : isCounting pc = false := by
  cases h <;> rfl

/-- What a step does to the row of a key and to the marks that are still to be counted. -/
inductive NoteStep (key : String) (s s' : State) : Note → Prop
  | same {n : Note} (hrow : s'.world.workers key = s.world.workers key)
      (hcounts : ∀ failed q, counts key failed (s'.procs q) ↔ counts key failed (s.procs q))
      (hbeat : isBeat key n = false) (hmark : ∀ failed, isMark key failed n = false)
      (hcount : ∀ failed, isCount key failed n = false) : NoteStep key s s' n
  | beaten {worker : String} (hid : uuid worker = some key)
      (hrow : (s'.world.workers key).isSome)
      (htally : ∀ failed, tally key failed s'.world.workers = tally key failed s.world.workers)
      (hcounts : ∀ failed q, counts key failed (s'.procs q) ↔ counts key failed (s.procs q)) :
      NoteStep key s s' (.beat worker)
  | marked {worker : String} {failed : Bool} {p : Pid} (hid : uuid worker = some key)
      (hrow : s'.world.workers key = s.world.workers key)
      (hnot : ∀ f, ¬ counts key f (s.procs p))
      (hcounts : ∀ f q, counts key f (s'.procs q) ↔
        (q = p ∧ f = failed) ∨ counts key f (s.procs q)) : NoteStep key s s' (.marked worker failed)
  | counted {worker : String} {failed : Bool} {p : Pid} (hid : uuid worker = some key)
      (hsome : (s'.world.workers key).isSome = (s.world.workers key).isSome)
      (htally : ∀ f, tally key f s'.world.workers = tally key f s.world.workers +
        if (s.world.workers key).isSome ∧ f = failed then 1 else 0)
      (hwas : ∀ f, counts key f (s.procs p) ↔ f = failed)
      (hcounts : ∀ f q, counts key f (s'.procs q) ↔ q ≠ p ∧ counts key f (s.procs q)) :
      NoteStep key s s' (.counted worker failed)

/-- A heartbeat that does not fail makes sure of a row and leaves the counters. -/
theorem exec_heartbeat {w w' : World} {e : Env} {id hostname status : String} {r : Reply}
    (h : exec w e (.heartbeat id hostname status) = some (w', r)) (hok : r.commandFailed = false) :
    (uuid id = some key ∧ (w'.workers key).isSome ∧
      ∀ failed, tally key failed w'.workers = tally key failed w.workers) ∨
    (uuid id ≠ some key ∧ w'.workers key = w.workers key) := by
  simp only [exec, Option.some.injEq] at h
  cases hid : uuid id with
  | none =>
    rw [(statements_refused hid w.workers w.clock).1] at h
    cases h
    cases hok
  | some key' =>
    obtain ⟨t, row, hbeat, hrow, -, -, hprocessed, hfailed, hother⟩ :=
      heartbeat_spec hid w.workers w.clock hostname status
    rw [hbeat] at h
    cases h
    by_cases hkey : key' = key
    · subst hkey
      refine .inl ⟨rfl, by simp [hrow], fun failed => ?_⟩
      change ((t key').map _).getD 0 = _
      rw [hrow]
      cases failed
      · exact hprocessed
      · exact hfailed
    · exact .inr ⟨by simpa using hkey, hother key (Ne.symm hkey)⟩

/-- An increment that does not fail counts in the row if there is one. -/
theorem exec_incrementProcessed {w w' : World} {e : Env} {id : String} {r : Reply}
    (h : exec w e (.incrementProcessed id failed) = some (w', r)) (hok : r.commandFailed = false) :
    (uuid id = some key ∧ (w'.workers key).isSome = (w.workers key).isSome ∧
      ∀ f, tally key f w'.workers = tally key f w.workers +
        if (w.workers key).isSome ∧ f = failed then 1 else 0) ∨
    (uuid id ≠ some key ∧ w'.workers key = w.workers key) := by
  simp only [exec, Option.some.injEq] at h
  cases hid : uuid id with
  | none =>
    rw [(statements_refused hid w.workers w.clock).2] at h
    cases h
    cases hok
  | some key' =>
    obtain ⟨t, hincr, hnone, hsome, hother⟩ :=
      incrementProcessed_spec hid w.workers w.clock failed
    rw [hincr] at h
    cases h
    by_cases hkey : key' = key
    · subst hkey
      refine .inl ⟨rfl, ?_⟩
      cases hrow : w.workers key' with
      | none => simp [tally, hnone hrow, hrow]
      | some row =>
        obtain ⟨row', hrow', hprocessed, hfailed⟩ := hsome row hrow
        refine ⟨by simp [hrow'], fun f => ?_⟩
        simp only [tally, hrow', hrow, Option.map_some, Option.getD_some]
        cases f <;> cases failed <;> simp_all
    · exact .inr ⟨by simpa using hkey, hother key (Ne.symm hkey)⟩

/-- What one command does. -/
theorem noteStep_command {p : Pid} {e : Env} {a : Act} {cmd : Cmd} {next : Reply → Pc} {r : Reply}
    (hcar : CarriesRows s) (hok : r.commandFailed = false) (hran : Ran s p .ok e s' a cmd next r) :
    NoteStep key s s' (noteAt (s.procs p) a) := by
  have hx := hran.effect_ok
  have hself : s'.procs p = next r := hran.procs_self
  have hother : ∀ q, q ≠ p → s'.procs q = s.procs q := fun q => hran.procs_other
  have hact := hran.act
  have hf := follows hran.code r
  generalize hnext : next r = pc' at hf hself
  generalize hpc : s.procs p = pc at hf hact
  have hsame : (∀ failed, counts key failed pc' ↔ counts key failed pc) → ∀ failed q,
      counts key failed (s'.procs q) ↔ counts key failed (s.procs q) := by
    intro hc failed q
    by_cases hq : q = p
    · rw [hq, hself, hpc, hc]
    · rw [hother q hq]
  -- a program point from which nothing is marked or counted
  have hrest : isCounting pc = false → isCounting pc' = false → noteAt pc a = .other →
      s'.world.workers key = s.world.workers key → NoteStep key s s' (noteAt pc a) := by
    intro hc hc' hn hrow
    rw [hn]
    exact .same hrow (hsame fun _ => iff_of_false (not_counts_of_not_isCounting hc')
      (not_counts_of_not_isCounting hc)) rfl (fun _ => rfl) fun _ => rfl
  -- a mark, which the next program point counts
  have hmark : ∀ (w : Pool) (f : Bool), (∀ g, ¬ counts key g pc) →
      (∀ g, counts key g pc' ↔ uuid w.id = some key ∧ g = f) →
      s'.world.workers key = s.world.workers key → NoteStep key s s' (.marked w.id f) := by
    intro w f hnot hnow hrow
    by_cases hid : uuid w.id = some key
    · refine .marked (p := p) hid hrow (hpc.symm ▸ hnot) fun g q => ?_
      by_cases hq : q = p
      · rw [hq, hself, hnow, hpc]
        simp [hid, hnot]
      · rw [hother q hq]
        simp [hq]
    · exact .same hrow (hsame fun g => by simp [hnow, hnot, hid]) rfl
        (fun g => by simp [isMark, hid]) fun _ => rfl
  -- an increment
  have hcount : ∀ (w : Pool) (f : Bool), (∀ g, ¬ counts key g pc') →
      (∀ g, counts key g pc ↔ uuid w.id = some key ∧ g = f) →
      cmd = .incrementProcessed w.id f → NoteStep key s s' (.counted w.id f) := by
    intro w f hnot hwas hcmd
    subst hcmd
    rcases exec_incrementProcessed hx hok with ⟨hid, hsome, htally⟩ | ⟨hid, hrow⟩
    · refine .counted (p := p) hid hsome htally (fun g => by simp [hpc, hwas, hid]) fun g q => ?_
      by_cases hq : q = p
      · rw [hq, hself]
        simp [hnot]
      · rw [hother q hq]
        simp [hq]
    · exact .same hrow (hsame fun g => by simp [hwas, hnot, hid]) rfl (fun _ => rfl)
        fun g => by simp [isCount, hid]
  have hbeat : ∀ (w : Pool) (status : String), isCounting pc = false → isCounting pc' = false →
      cmd = .heartbeat w.id w.hostname status → NoteStep key s s' (.beat w.id) := by
    intro w status hc hc' hcmd
    subst hcmd
    have hcounts := hsame fun g => iff_of_false (not_counts_of_not_isCounting hc')
      (not_counts_of_not_isCounting hc)
    rcases exec_heartbeat hx hok with ⟨hid, hsome, htally⟩ | ⟨hid, hrow⟩
    · exact .beaten hid hsome htally hcounts
    · exact .same hrow hcounts (by simp [isBeat, hid]) (fun _ => rfl) fun _ => rfl
  cases hf with
  | @completed w job r =>
    obtain ⟨row, hrow, -⟩ := hcar p job (by simp [hpc, carries])
    obtain rfl := exec_markCompleted_reply hrow hx
    rw [hact]
    exact hmark w false (fun _ hc => hc) (fun _ => .rfl) (by rw [exec_workers hx rfl])
  | @failed w job failedJob message =>
    rw [hact]
    exact hmark w true (fun _ hc => hc) (fun _ => .rfl) (by rw [exec_workers hx rfl])
  | @notFailed w job message r hr =>
    refine hrest rfl rfl ?_ (by rw [exec_workers hx rfl])
    rw [hact]
    cases r with
    | job job => exact absurd rfl (hr job)
    | _ => rfl
  | @completedCounted w job r => exact hcount w false (fun _ hc => hc) (fun _ => .rfl) rfl
  | @failedCounted w job r => exact hcount w true (fun _ hc => hc) (fun _ => .rfl) rfl
  | @lastCounted w job r => exact hcount w true (fun _ hc => hc) (fun _ => .rfl) rfl
  | @beat w r => exact hbeat w "online" rfl rfl rfl
  | @offline w r => exact hbeat w "offline" rfl rfl rfl
  | _ => exact hrest rfl rfl rfl (by rw [exec_workers hx rfl])

theorem noteStep (hcar : CarriesRows s) (hok : Unbroken s l) (h : noted s l = some (s', n)) :
    NoteStep key s s' n := by
  obtain ⟨⟨s₁, a⟩, hs, heq⟩ := Option.map_eq_some_iff.mp h
  obtain ⟨rfl, rfl⟩ := Prod.mk.inj heq
  rcases step_run_or_not hs with ⟨p, m, e, cmd, next, r, rfl, hran⟩ | hl
  · have hsteady : Steady s (.run p m e) := hok
    obtain ⟨rfl, -, hreply⟩ := hsteady.command hran
    exact noteStep_command hcar hreply hran
  · have hn : note s l a = .other := by
      cases l <;> first | rfl | exact absurd rfl (hl _ _ _)
    rw [hn]
    refine .same ?_ (fun failed q => ?_) rfl (fun _ => rfl) fun _ => rfl
    · rcases (step_local hs hl).1 with hw | ⟨_, -, hw⟩ <;> rw [hw]
    · refine local_moves (R := fun pc pc' => counts key failed pc' ↔ counts key failed pc) hs hl
        (fun _ => .rfl) ?_ ?_ (fun _ => .rfl) ?_ q
      · exact fun pc hpc => iff_of_false (not_counts_of_not_isCounting (not_isCounting_entry hpc))
          fun hc => hc
      · intro p hp
        subst hp
        exact iff_of_false (fun hc => hc) (not_counts_of_not_isCounting hok)
      · intro w job outcome
        cases outcome <;> rfl

/-- A run observed by what it does about workers is a run of the system. -/
theorem run_of_noted {ok : State → Label → Prop} (h : Run noted ok State.initial notes s) :
    ∃ tr, Run step ok State.initial tr s := by
  induction h with
  | start => exact ⟨[], .start⟩
  | next _ ho hs ih =>
    obtain ⟨tr, hrun⟩ := ih
    obtain ⟨⟨_, a⟩, hstep, heq⟩ := Option.map_eq_some_iff.mp hs
    cases heq
    exact ⟨_, .next hrun ho hstep⟩

/-- The row is there since the first heartbeat, and each mark is counted in it, about to be
counted or missed. -/
structure Account (key : String) (notes : List Note) (s : State) : Prop where
  present : (s.world.workers key).isSome ↔ ∃ n ∈ notes, isBeat key n
  tallied : ∀ failed, ∃ ps : Finset Pid, (∀ q, q ∈ ps ↔ counts key failed (s.procs q)) ∧
    tally key failed s.world.workers + ps.card + missed key failed notes = marks key failed notes

theorem account_step (ha : Account key notes s) (hn : NoteStep key s s' n) :
    Account key (notes ++ [n]) s' := by
  have hbeaten : (∃ m ∈ notes ++ [n], isBeat key m) ↔
      (∃ m ∈ notes, isBeat key m) ∨ isBeat key n := by
    simp only [List.mem_append, List.mem_singleton, or_and_right, exists_or, exists_eq_left]
  have hmissed : ∀ failed, isCount key failed n = false →
      missed key failed (notes ++ [n]) = missed key failed notes := by
    intro failed hc
    rw [missed_snoc, hc]
    simp
  cases hn with
  | same hrow hcounts hbeat hmark hcount =>
    refine ⟨by rw [hbeaten, hbeat, hrow, ha.present]; simp, fun failed => ?_⟩
    obtain ⟨ps, hps, hsum⟩ := ha.tallied failed
    refine ⟨ps, fun q => (hps q).trans (hcounts failed q).symm, ?_⟩
    rw [marks_snoc, hmark, hmissed failed (hcount failed), tally, hrow]
    exact hsum
  | @beaten worker hid hrow htally hcounts =>
    refine ⟨by rw [hbeaten]; simp [hrow, isBeat, hid], fun failed => ?_⟩
    obtain ⟨ps, hps, hsum⟩ := ha.tallied failed
    refine ⟨ps, fun q => (hps q).trans (hcounts failed q).symm, ?_⟩
    rw [marks_snoc, hmissed failed rfl, htally]
    exact hsum
  | @marked worker failed p hid hrow hnot hcounts =>
    refine ⟨by rw [hbeaten, hrow, ha.present]; simp [isBeat], fun f => ?_⟩
    obtain ⟨ps, hps, hsum⟩ := ha.tallied f
    rw [marks_snoc, hmissed f rfl, tally, hrow]
    by_cases hf : f = failed
    · refine ⟨insert p ps, fun q => ?_, ?_⟩
      · rw [Finset.mem_insert, hps, hcounts]
        simp [hf]
      · rw [Finset.card_insert_of_notMem fun hmem => hnot f ((hps p).mp hmem),
          if_pos (by simp [isMark, hid, hf])]
        rw [tally] at hsum
        omega
    · refine ⟨ps, fun q => ?_, ?_⟩
      · rw [hps, hcounts]
        simp [hf]
      · rw [if_neg (by simp [isMark, Ne.symm hf])]
        exact hsum
  | @counted worker failed p hid hsome htally hwas hcounts =>
    refine ⟨by rw [hbeaten, hsome, ha.present]; simp [isBeat], fun f => ?_⟩
    obtain ⟨ps, hps, hsum⟩ := ha.tallied f
    have hprior : (∀ m ∈ notes, isBeat key m = false) ↔ (s.world.workers key).isSome = false := by
      rw [← Bool.not_eq_true, ha.present]
      simp
    rw [marks_snoc, missed_snoc, htally]
    simp only [hprior]
    by_cases hf : f = failed
    · refine ⟨ps.erase p, fun q => ?_, ?_⟩
      · rw [Finset.mem_erase, hps, hcounts]
      · have hcard := Finset.card_erase_add_one ((hps p).mpr ((hwas f).mpr hf))
        have hcount : isCount key f (.counted worker failed) := by simp [isCount, hid, hf]
        rw [hcount]
        cases (s.world.workers key).isSome <;> simp [hf, isMark] at hsum hcard ⊢ <;> omega
    · refine ⟨ps, fun q => ?_, ?_⟩
      · rw [hps, hcounts]
        refine (and_iff_right_of_imp fun hc hq => ?_).symm
        exact hf ((hwas f).mp (hq ▸ hc))
      · rw [if_neg (by simp [hf]), if_neg (by simp [isCount, Ne.symm hf])]
        exact hsum

theorem account_run (h : Run noted Unbroken State.initial notes s) : Account key notes s := by
  refine h.invariant (I := fun notes s => Account key notes s) ?_ ?_
  · refine ⟨by simp [State.initial, World.initial], fun failed => ⟨∅, fun q => ?_, rfl⟩⟩
    exact iff_of_false (Finset.notMem_empty q) fun hc => hc
  · intro notes s s' l n hrun ha hok hs
    obtain ⟨tr, hrun⟩ := run_of_noted hrun
    exact account_step ha (noteStep (carried_run hrun) hok hs)

/-- The row of the key counts all marks. -/
structure CountersExact (key : String) (notes : List Note) (s : State) : Prop where
  processed : tally key false s.world.workers = marks key false notes
  failed : tally key true s.world.workers = marks key true notes

/-- No goroutine of the pool has counted a mark before the pool's first heartbeat. -/
def HeartbeatFirst (key : String) (notes : List Note) : Prop :=
  ∀ n ∈ notes.takeWhile fun n => !isBeat key n, ∀ failed, isCount key failed n = false

theorem heartbeatFirst_iff : HeartbeatFirst key notes ↔ ∀ failed, missed key failed notes = 0 := by
  simp only [HeartbeatFirst, missed, List.countP_eq_zero, Bool.not_eq_true]
  exact ⟨fun h failed n hn => h n hn failed, fun h n hn failed => h failed n hn⟩

/-- For every run and every pool: when no goroutine of the pool is between a mark and its
increment, the counters are exact exactly if the first heartbeat came before the first
increment. -/
theorem counters_exact_iff (h : Run noted Unbroken State.initial notes s)
    (hdone : ∀ p failed, ¬ counts key failed (s.procs p)) :
    CountersExact key notes s ↔ HeartbeatFirst key notes := by
  have haccount : Account key notes s := account_run h
  have hsum : ∀ failed, tally key failed s.world.workers + missed key failed notes =
      marks key failed notes := by
    intro failed
    obtain ⟨ps, hps, hsum⟩ := haccount.tallied failed
    have hempty : ps = ∅ := Finset.eq_empty_of_forall_notMem fun q hq =>
      hdone q failed ((hps q).mp hq)
    rwa [hempty, Finset.card_empty, Nat.add_zero] at hsum
  have hprocessed := hsum false
  have hfailed := hsum true
  rw [heartbeatFirst_iff]
  constructor
  · rintro ⟨hp, hf⟩ failed
    cases failed <;> omega
  · intro hnone
    have h0 := hnone false
    have h1 := hnone true
    exact ⟨by omega, by omega⟩

/-- The end of an execution about finitely many goroutines, none of which is counting. -/
theorem counted_outcome {ls : List Label} (h : (execute noted State.initial ls).isSome) (k : Nat)
    (ho : Admitted noted (fun s l => (∀ p ∈ Label.pid l, p < k) ∧ Unbroken s l) State.initial ls)
    (hk : ∀ p < k, isCounting ((outcome noted State.initial ls h).1.procs p) = false) (p : Pid)
    (failed : Bool) : ¬ counts key failed ((outcome noted State.initial ls h).1.procs p) := by
  refine not_counts_of_not_isCounting ?_
  by_cases hp : p < k
  · exact hk p hp
  · obtain ⟨tr, hrun⟩ := run_of_noted (Run.of_outcome h ho)
    rw [run_procs (fun _ _ hc hq => hp (hc.1 p hq)) hrun]
    rfl

def pool : Pool := ⟨"00000000000000000000000000000001", "host", ["default"]⟩

/-- A job is created (0), and a goroutine of the pool (1) completes it. -/
def work : List Label :=
  [.start 0 (.request (.create ⟨"u1", "default", "send_email", none, 0, 3, none⟩)),
    .run 0 .ok { freshID := "j1" }, .run 0 .ok {}, .run 0 .ok {}, .start 1 (.worker pool),
    .run 1 .ok {}, .run 1 .ok {}, .run 1 .ok {}, .finish 1 (.ok ()),
    .run 1 .ok {}, .run 1 .ok {}, .run 1 .ok {}]

/-- The heartbeat loop of the pool (2) starts and goes round once. -/
def beat : List Label := [.start 2 (.heartbeat pool), .run 2 .ok {}]

theorem beat_work_runs : (execute noted State.initial (beat ++ work)).isSome := by decide

/-- The heartbeat comes first. -/
theorem counters_exact_iff_beaten : ∃ notes s, Run noted Unbroken State.initial notes s ∧
    (∀ p failed, ¬ counts pool.id failed (s.procs p)) ∧ uuid pool.id = some pool.id ∧
    marks pool.id false notes = 1 ∧ (CountersExact pool.id notes s ↔ HeartbeatFirst pool.id notes) :=
  have ho : Admitted noted (fun s l => (∀ p ∈ Label.pid l, p < 3) ∧ Unbroken s l) State.initial
      (beat ++ work) := by decide
  have hrun := (Run.of_outcome beat_work_runs ho).mono fun _ _ => And.right
  have hdone := counted_outcome beat_work_runs 3 ho (by decide)
  ⟨_, _, hrun, hdone, by decide, by decide, counters_exact_iff hrun hdone⟩

theorem work_beat_runs : (execute noted State.initial (work ++ beat)).isSome := by decide

/-- The job is done before the first heartbeat, and the row never counts it. -/
theorem increment_missed : ¬ ∀ key notes s, Run noted Unbroken State.initial notes s →
    (∀ p failed, ¬ counts key failed (s.procs p)) → CountersExact key notes s := by
  intro hall
  have ho : Admitted noted (fun s l => (∀ p ∈ Label.pid l, p < 3) ∧ Unbroken s l) State.initial
      (work ++ beat) := by decide
  have hrun := (Run.of_outcome work_beat_runs ho).mono fun _ _ => And.right
  have hexact := hall pool.id _ _ hrun (counted_outcome work_beat_runs 3 ho (by decide))
  exact absurd hexact.processed (by decide)

end JobFlow.Runs.Counters
