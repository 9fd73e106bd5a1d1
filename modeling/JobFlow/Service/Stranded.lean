import JobFlow.Service.DroppedRetries
import Mathlib.Data.List.Perm.Subperm

/-!
# What a failing batch strands

`ReadyScheduled` makes up to a hundred rows queued in one statement, and `PromoteScheduled`
then enqueues them one by one and returns at the first error. The rows from there on are
queued in the table and in no queue, and no later pass selects them, since it looks for
`scheduled` rows only. The rows that the statement has not selected stay as they are, and
as the oldest are selected first their turn comes.
-/

namespace JobFlow.Service.Stranded

open JobFlow.Model
open JobFlow.Model.JobRepository
open JobFlow.Model.RedisQueue
open JobFlow.Model.JobService
open JobFlow.Service.Atomicity (EnqueueFails)
open JobFlow.Service.DroppedRetries

variable {p : Pattern} {w w' : World} {id : String} {t t' : JobTable} {now : Time}

/-! ## Rows that are passed over -/

/-- The row of `id` is selected by none of `n` successful statements, one after the other. -/
inductive PassedOver (id : String) : Time → JobTable → Nat → Prop
  | start {now : Time} {t : JobTable} : PassedOver id now t 0
  | again {now now' : Time} {t t' : JobTable} {batch : List String} {rows : List Job} {n : Nat}
      (hle : now ≤ now') (hready : readyScheduled t now' 100 batch = some (t', rows))
      (hnot : id ∉ batch) (hrest : PassedOver id now' t' n) : PassedOver id now t (n + 1)

/-- A row that waits until at most `limit`. -/
def waitsUntil (limit : Time) (r : Job) : Bool :=
  r.status = .scheduled && r.scheduledAt.any (· ≤ limit)

/-- A selection that leaves a due row out is full. -/
theorem length_of_isBatch {limit : Nat} {batch : List String} {r : Job}
    (hb : IsBatch t now limit batch) (hr : t.find id = some r) (hdue : isDue now r)
    (hnot : id ∉ batch) : batch.length = limit := by
  obtain ⟨hnodup, hsub, hlen, -⟩ := hb
  by_contra hne
  have hall : ((t.rows.filter (isDue now)).map Job.id).length ≤ batch.length := by
    rw [List.length_map]
    omega
  have hperm := (hnodup.subperm hsub).perm_of_length_le hall
  have hmem : r ∈ t.rows.filter (isDue now) :=
    List.mem_filter.mpr ⟨(t.mem_rows_iff r).mpr ((JobTable.find_id hr).symm ▸ hr), hdue⟩
  exact hnot (hperm.mem_iff.mpr (JobTable.find_id hr ▸ List.mem_map_of_mem hmem))

/-- As many rows have their id in the selection as it is long. -/
theorem countP_isBatch {limit : Nat} {batch : List String} (hb : IsBatch t now limit batch) :
    (t.rows.countP fun r => r.id ∈ batch) = batch.length := by
  have hperm : ((t.rows.filter fun r => r.id ∈ batch).map Job.id).Perm batch := by
    refine (List.perm_ext_iff_of_nodup (t.key.sublist (List.filter_sublist.map _)) hb.1).mpr ?_
    intro id
    constructor
    · intro h
      obtain ⟨r, hr, rfl⟩ := List.mem_map.mp h
      simpa using (List.mem_filter.mp hr).2
    · intro h
      obtain ⟨r, hr, rfl⟩ := List.mem_map.mp (hb.2.1 id h)
      exact List.mem_map_of_mem (List.mem_filter.mpr ⟨(List.mem_filter.mp hr).1, by simpa using h⟩)
  rw [List.countP_eq_length_filter, ← hperm.length_eq, List.length_map]

/-- A statement that passes over a due row takes a hundred rows that are due no later. -/
theorem passed_over_step {batch : List String} {rows : List Job} {r : Job}
    (hr : t.find id = some r) (hdue : isDue now r)
    (hready : readyScheduled t now 100 batch = some (t', rows)) (hnot : id ∉ batch) :
    t'.find id = some r ∧
      t'.rows.countP (waitsUntil (r.scheduledAt.getD 0)) + 100 =
        t.rows.countP (waitsUntil (r.scheduledAt.getD 0)) := by
  refine ⟨((readyScheduled_rows hready).2.2 id hnot).trans hr, ?_⟩
  unfold readyScheduled at hready
  obtain ⟨hb, heq⟩ := Option.ite_none_right_eq_some.mp hready
  obtain ⟨rfl, -⟩ := Prod.mk.inj (Option.some.inj heq)
  have hmem : r ∈ t.rows.filter (isDue now) :=
    List.mem_filter.mpr ⟨(t.mem_rows_iff r).mpr ((JobTable.find_id hr).symm ▸ hr), hdue⟩
  -- what is selected waits no longer than the row that is not
  have htaken : ∀ x ∈ t.rows, x.id ∈ batch → waitsUntil (r.scheduledAt.getD 0) x := by
    intro x hx hxb
    obtain ⟨y, hy, hid⟩ := List.mem_map.mp (hb.2.1 _ hxb)
    obtain ⟨hy, hyd⟩ := List.mem_filter.mp hy
    obtain rfl : y = x := List.inj_on_of_nodup_map t.key hy hx hid
    have hle := hb.2.2.2 y (List.mem_filter.mpr ⟨hy, hyd⟩) r hmem hxb
      (JobTable.find_id hr ▸ hnot)
    simp only [isDue, Bool.and_eq_true, decide_eq_true_eq, Option.any_eq_true] at hyd
    obtain ⟨hst, s, hs, -⟩ := hyd
    rw [hs] at hle
    simpa [waitsUntil, hst, hs] using hle
  have hlength := countP_isBatch hb
  rw [length_of_isBatch hb hr hdue hnot] at hlength
  have hleft : (t.update (fun r => r.id ∈ batch) (promotedSet now)).1.rows.countP
      (waitsUntil (r.scheduledAt.getD 0)) =
      t.rows.countP fun x => waitsUntil (r.scheduledAt.getD 0) x && x.id ∉ batch := by
    simp only [JobTable.update, List.countP_map]
    refine List.countP_congr fun x _ => ?_
    by_cases hx : x.id ∈ batch <;> simp [hx, waitsUntil, promotedSet]
  have hright : (t.rows.countP fun x => waitsUntil (r.scheduledAt.getD 0) x && x.id ∈ batch) =
      t.rows.countP fun x => x.id ∈ batch := by
    refine List.countP_congr fun x hx => ?_
    by_cases hxb : x.id ∈ batch
    · simp [hxb, htaken x hx hxb]
    · simp [hxb]
  have hsplit := t.rows.countP_eq_countP_filter_add (waitsUntil (r.scheduledAt.getD 0))
    fun x => x.id ∈ batch
  rw [List.countP_filter, List.countP_filter] at hsplit
  simp only [← decide_not] at hsplit
  omega

/-- A due row is passed over only as often as the rows due before it last. -/
theorem PassedOver.bound {n : Nat} {r : Job} (h : PassedOver id now t n)
    (hr : t.find id = some r) (hdue : isDue now r) :
    100 * n < t.rows.countP (waitsUntil (r.scheduledAt.getD 0)) + 1 := by
  induction h with
  | start => omega
  | @again now now' t t' batch rows n hle hready hnot hrest ih =>
    simp only [isDue, Bool.and_eq_true, decide_eq_true_eq, Option.any_eq_true] at hdue
    obtain ⟨hst, s, hs, hnow⟩ := hdue
    have hdue' : isDue now' r := by simpa [isDue, hst, hs] using hnow.trans hle
    obtain ⟨hr', hcount⟩ := passed_over_step hr hdue' hready hnot
    have hbound := ih hr' hdue'
    omega

theorem PassedOver.le_length {n : Nat} {r : Job} (h : PassedOver id now t n)
    (hr : t.find id = some r) (hdue : isDue now r) : n ≤ t.rows.length := by
  have hbound := h.bound hr hdue
  have hle := List.countP_le_length (p := waitsUntil (r.scheduledAt.getD 0)) (l := t.rows)
  omega

/-! ## What a pass leaves -/

/-- Each job whose row the call has changed from scheduled to queued is in its queue. Each
other due job is as it was, and no more than finitely many later statements pass it over. -/
structure NotStranded (w w' : World) : Prop where
  changed : ∀ id r r', w.jobs.find id = some r → r.status = .scheduled →
    w'.jobs.find id = some r' → r'.status = .queued →
    w'.redis.zscore (queueKey r'.queueName) id ≠ none
  other : ∀ id r, w.jobs.find id = some r → isDue w.clock r →
    (∃ r', w'.jobs.find id = some r' ∧ r'.status = .queued) ∨
    (w'.jobs.find id = some r ∧ ∃ bound, ∀ n, PassedOver id w.clock w'.jobs n → n ≤ bound)

/-- From the first row of the batch whose `Enqueue` fails on, every row has an entry in its
queue already. -/
def Harmless (p : Pattern) (w : World) : Prop :=
  p.ready.fails = false → ∀ before id after r, p.ready.env.batch = before ++ id :: after →
    w.jobs.find id = some r → EnqueueFails w r (p.enqueue id) →
    ∀ j ∈ id :: after, ∀ r', w.jobs.find j = some r' →
      w.redis.zscore (queueKey r'.queueName) j ≠ none

/-- What `PromoteRetries` does in the table and in the queues. -/
theorem promoteRetries_keeps (p : Pattern) (w : World) :
    (promoteRetries p w).1.jobs = w.jobs ∧ ∀ name m, w.redis.zscore (queueKey name) m ≠ none →
      (promoteRetries p w).1.redis.zscore (queueKey name) m ≠ none := by
  rcases promoteRetries_cases p w with ⟨heq, -⟩ | ⟨ids, -, hpassed, -⟩
  · rw [heq]
    exact ⟨rfl, fun _ _ => id⟩
  · exact ⟨hpassed.jobs, fun name m h => (hpassed.queued name m).mpr (.inl h)⟩

theorem publish_eq (c : Choice) (w : World) (event : String) (job : Job) :
    (publish c w event job).jobs = w.jobs ∧ (publish c w event job).redis = w.redis := by
  unfold publish
  split <;> exact ⟨rfl, rfl⟩

/-- The loop leaves the table, and no queue loses an entry. -/
theorem promoteRows_keeps (p : Pattern) (rows : List Job) (w : World) :
    (promoteRows p w rows).1.jobs = w.jobs ∧ ∀ name m, w.redis.zscore (queueKey name) m ≠ none →
      (promoteRows p w rows).1.redis.zscore (queueKey name) m ≠ none := by
  induction rows generalizing w with
  | nil => exact promoteRetries_keeps p w
  | cons job rows ih =>
    rcases attempt_enqueue w job (p.enqueue job.id) with ⟨-, e, he⟩ | ⟨-, r, hr, -, hscore⟩
    · rw [promoteRows_error he]
      exact ⟨rfl, fun _ _ => id⟩
    · rw [promoteRows_ok hr]
      obtain ⟨hjobs, hredis⟩ :=
        publish_eq (p.publish job.id) { w with redis := r } "job.queued" job
      obtain ⟨hkeep, hentries⟩ := ih (publish (p.publish job.id) { w with redis := r } "job.queued" job)
      refine ⟨hkeep.trans hjobs, fun name m h => hentries name m ?_⟩
      rw [hredis, hscore]
      split
      · simp
      · exact h

/-- A loop in which no `Enqueue` fails has put every row into its queue. -/
theorem promoteRows_all {rows : List Job} {w : World}
    (h : ∀ job ∈ rows, ¬ EnqueueFails w job (p.enqueue job.id)) :
    ∀ job ∈ rows, (promoteRows p w rows).1.redis.zscore (queueKey job.queueName) job.id ≠ none := by
  induction rows generalizing w with
  | nil => exact fun _ => nofun
  | cons job rows ih =>
    rcases attempt_enqueue w job (p.enqueue job.id) with ⟨hf, -⟩ | ⟨-, r, hr, hlists, hscore⟩
    · exact absurd hf (h job List.mem_cons_self)
    · rw [promoteRows_ok hr]
      obtain ⟨-, hredis⟩ := publish_eq (p.publish job.id) { w with redis := r } "job.queued" job
      intro job' hmem
      rcases List.mem_cons.mp hmem with rfl | hmem
      · refine (promoteRows_keeps p rows _).2 _ _ ?_
        rw [hredis, hscore, if_pos ⟨rfl, rfl⟩]
        simp
      · refine ih (fun x hx hf => h x (List.mem_cons_of_mem _ hx) ?_) job' hmem
        refine (EnqueueFails.congr ?_).mp hf
        rwa [hredis]

/-- A loop that ends at a failing `Enqueue` has added entries for the rows before it only. -/
theorem promoteRows_until {before after : List Job} {job : Job} {w : World}
    (h : ∀ x ∈ before, ¬ EnqueueFails w x (p.enqueue x.id))
    (hfail : EnqueueFails w job (p.enqueue job.id)) (name m : String) :
    (promoteRows p w (before ++ job :: after)).1.redis.zscore (queueKey name) m ≠ none ↔
      w.redis.zscore (queueKey name) m ≠ none ∨ ∃ x ∈ before, x.queueName = name ∧ x.id = m := by
  induction before generalizing w with
  | nil =>
    rcases attempt_enqueue w job (p.enqueue job.id) with ⟨-, e, he⟩ | ⟨hok, -⟩
    · rw [List.nil_append, promoteRows_error he]
      simp
    · exact absurd hfail hok
  | cons first before ih =>
    rcases attempt_enqueue w first (p.enqueue first.id) with ⟨hf, -⟩ | ⟨-, r, hr, hlists, hscore⟩
    · exact absurd hf (h first List.mem_cons_self)
    · obtain ⟨-, hredis⟩ := publish_eq (p.publish first.id) { w with redis := r } "job.queued" first
      have hcongr : ∀ x c, EnqueueFails
          (publish (p.publish first.id) { w with redis := r } "job.queued" first) x c ↔
          EnqueueFails w x c := fun x c => EnqueueFails.congr (by rwa [hredis])
      rw [List.cons_append, promoteRows_ok hr,
        ih (fun x hx => (hcongr x _).not.mpr (h x (List.mem_cons_of_mem _ hx)))
          ((hcongr job _).mpr hfail), hredis, hscore]
      by_cases hm : name = first.queueName ∧ m = first.id
      · rw [if_pos ⟨congrArg queueKey hm.1, hm.2⟩]
        simp [hm]
      · rw [if_neg fun h => hm ⟨queueKey_injective h.1, h.2⟩]
        refine or_congr_right ?_
        constructor
        · exact fun ⟨x, hx, hxm⟩ => ⟨x, List.mem_cons_of_mem _ hx, hxm⟩
        · rintro ⟨x, hx, hname, hid⟩
          rcases List.mem_cons.mp hx with rfl | hx
          · exact absurd ⟨hname.symm, hid.symm⟩ hm
          · exact ⟨x, hx, hname, hid⟩

/-- Every row of the batch has an entry in its queue after the loop exactly if the loop ends
at no row, or the rows from there on had one before. -/
theorem promoteRows_iff {rows : List Job} {w : World} (hkey : (rows.map Job.id).Nodup) :
    (∀ job ∈ rows, (promoteRows p w rows).1.redis.zscore (queueKey job.queueName) job.id ≠ none) ↔
    ∀ before job after, rows = before ++ job :: after → EnqueueFails w job (p.enqueue job.id) →
      ∀ x ∈ job :: after, w.redis.zscore (queueKey x.queueName) x.id ≠ none := by
  classical
  constructor
  · intro h before job after hrows hfail x hx
    -- the loop ends at this row or before it
    cases hfind : rows.find? fun r => EnqueueFails w r (p.enqueue r.id) with
    | none =>
      have hmem : job ∈ rows := hrows ▸ List.mem_append_right _ List.mem_cons_self
      exact absurd (decide_eq_true hfail) (List.find?_eq_none.mp hfind job hmem)
    | some first =>
      obtain ⟨hfirst, done, left, hsplit, hdone⟩ := List.find?_eq_some_iff_append.mp hfind
      simp only [Bool.not_eq_true', decide_eq_false_iff_not] at hdone
      have hxl : x ∈ first :: left := by
        rcases List.append_eq_append_iff.mp (hrows.symm.trans hsplit) with
          ⟨mid, hd, hj⟩ | ⟨mid, -, hj⟩
        · cases mid with
          | nil =>
            rw [List.nil_append] at hj
            exact hj ▸ hx
          | cons y mid =>
            obtain ⟨rfl, -⟩ := List.cons.inj hj
            exact absurd hfail (hdone _ (hd ▸ List.mem_append_right _ List.mem_cons_self))
        · exact hj ▸ List.mem_append_right _ hx
      have hentry := h x (hsplit ▸ List.mem_append_right _ hxl)
      rw [hsplit, promoteRows_until hdone (of_decide_eq_true hfirst)] at hentry
      refine hentry.resolve_right ?_
      rintro ⟨y, hy, -, hid⟩
      rw [hsplit, List.map_append, List.nodup_append] at hkey
      exact hkey.2.2 _ (List.mem_map_of_mem hy) _ (List.mem_map_of_mem hxl) hid
  · intro h
    cases hfind : rows.find? fun r => EnqueueFails w r (p.enqueue r.id) with
    | none =>
      exact promoteRows_all fun job hjob hf =>
        List.find?_eq_none.mp hfind job hjob (decide_eq_true hf)
    | some first =>
      obtain ⟨hfirst, done, left, hsplit, hdone⟩ := List.find?_eq_some_iff_append.mp hfind
      simp only [Bool.not_eq_true', decide_eq_false_iff_not] at hdone
      intro x hx
      rcases List.mem_append.mp (hsplit ▸ hx) with hxd | hxl
      · rw [hsplit, promoteRows_until hdone (of_decide_eq_true hfirst)]
        exact .inr ⟨x, hxd, rfl, rfl⟩
      · exact (promoteRows_keeps p rows w).2 _ _
          (h done first left hsplit (of_decide_eq_true hfirst) x hxl)

/-- The rows that the statement reports are the due rows of the batch, made queued. -/
theorem promoted_rows {batch : List String} {rows : List Job}
    (hready : readyScheduled t now 100 batch = some (t', rows)) {job : Job} (hjob : job ∈ rows) :
    ∃ r, t.find job.id = some r ∧ isDue now r ∧ t'.find job.id = some job ∧
      job = (promotedSet now).apply r := by
  obtain ⟨hids, hin, -⟩ := readyScheduled_rows hready
  obtain ⟨r, hr, hdue, hr'⟩ := hin job.id (hids ▸ List.mem_map_of_mem hjob)
  have hfound : t'.find job.id = some job := by
    unfold readyScheduled at hready
    obtain ⟨-, heq⟩ := Option.ite_none_right_eq_some.mp hready
    obtain ⟨rfl, rfl⟩ := Prod.mk.inj (Option.some.inj heq)
    obtain ⟨id, -, hid⟩ := List.mem_filterMap.mp hjob
    rwa [JobTable.find_id hid]
  exact ⟨r, hr, hdue, hfound, Option.some.inj (hfound.symm.trans hr')⟩

/-- What a pass that changes rows strands depends on its loop alone. -/
theorem notStranded_iff_queued {batch : List String} {rows : List Job}
    (hready : readyScheduled w.jobs w.clock 100 batch = some (t', rows)) (hjobs : w'.jobs = t') :
    NotStranded w w' ↔
      ∀ job ∈ rows, w'.redis.zscore (queueKey job.queueName) job.id ≠ none := by
  subst hjobs
  obtain ⟨hids, hin, hout⟩ := readyScheduled_rows hready
  constructor
  · intro h job hjob
    obtain ⟨r, hr, hdue, hfound, rfl⟩ := promoted_rows hready hjob
    simp only [isDue, Bool.and_eq_true, decide_eq_true_eq] at hdue
    exact h.changed _ r _ hr hdue.1 hfound rfl
  · intro h
    refine ⟨fun id r r' hr hst hr' hst' => ?_, fun id r hr hdue => ?_⟩
    · by_cases hid : id ∈ batch
      · obtain ⟨job, hjob, rfl⟩ := List.mem_map.mp (hids.symm ▸ hid)
        obtain ⟨-, -, -, hfound, -⟩ := promoted_rows hready hjob
        obtain rfl := Option.some.inj (hfound.symm.trans hr')
        exact h job hjob
      · rw [hout id hid, hr] at hr'
        obtain rfl := Option.some.inj hr'
        cases hst.symm.trans hst'
    · by_cases hid : id ∈ batch
      · obtain ⟨r₁, -, -, hfound⟩ := hin id hid
        exact .inl ⟨_, hfound, rfl⟩
      · have hr' := (hout id hid).trans hr
        exact .inr ⟨hr', w'.jobs.rows.length, fun n hn => hn.le_length hr' hdue⟩

/-- For every table, every batch the statement may select from it and every pattern of
failing calls, a pass strands no job exactly if its first failing `Enqueue` is harmless. -/
theorem strands_none_iff {result : Except Err Unit}
    (h : promoteScheduled p w = some (w', result)) : NotStranded w w' ↔ Harmless p w := by
  unfold promoteScheduled at h
  cases hf : p.ready.fails with
  | true =>
    rw [hf, if_pos rfl] at h
    cases h
    refine iff_of_true ⟨fun id r r' hr hst hr' hst' => ?_, fun id r hr hdue => ?_⟩
      fun hok => absurd (hf.symm.trans hok) (by simp)
    · obtain rfl := Option.some.inj (hr.symm.trans hr')
      cases hst.symm.trans hst'
    · exact .inr ⟨hr, w.jobs.rows.length, fun n hn => hn.le_length hr hdue⟩
  | false =>
    rw [hf, if_neg (by simp)] at h
    obtain ⟨⟨t', rows⟩, hready, heq⟩ := Option.map_eq_some_iff.mp h
    obtain rfl : (promoteRows p { w with jobs := t' } rows).1 = w' := congrArg Prod.fst heq
    obtain ⟨hids, hin, -⟩ := readyScheduled_rows hready
    have hkey : (rows.map Job.id).Nodup := by
      rw [hids]
      unfold readyScheduled at hready
      exact (Option.ite_none_right_eq_some.mp hready).1.1
    rw [notStranded_iff_queued hready (promoteRows_keeps p rows _).1, promoteRows_iff hkey]
    have hrow : ∀ job ∈ rows, ∃ r, w.jobs.find job.id = some r ∧ r.queueName = job.queueName :=
      fun job hjob => by
        obtain ⟨r, hr, -, -, hj⟩ := promoted_rows hready hjob
        exact ⟨r, hr, by rw [hj]; rfl⟩
    constructor
    · intro hall _ before id after r hbatch hr hfail j hj r' hr'
      rw [← hids] at hbatch
      obtain ⟨done, left, rfl, rfl, hleft⟩ := List.map_eq_append_iff.mp hbatch
      obtain ⟨job, rest, rfl, rfl, rfl⟩ := List.map_eq_cons_iff.mp hleft
      obtain ⟨x, hx, rfl⟩ := List.mem_map.mp (List.map_cons ▸ hj)
      obtain ⟨rj, hrj, hqj⟩ := hrow job (by simp)
      obtain ⟨rx, hrx, hqx⟩ := hrow x (List.mem_append_right _ hx)
      obtain rfl := Option.some.inj (hr.symm.trans hrj)
      obtain rfl := Option.some.inj (hr'.symm.trans hrx)
      have hentry := hall done job rest rfl (by rwa [EnqueueFails, hqj] at hfail) x hx
      rwa [hqx]
    · intro hall before job after hrows hfail x hx
      have hbatch : p.ready.env.batch = before.map Job.id ++ job.id :: after.map Job.id := by
        rw [← hids, hrows, List.map_append, List.map_cons]
      obtain ⟨rj, hrj, hqj⟩ := hrow job (by simp [hrows])
      obtain ⟨rx, hrx, hqx⟩ := hrow x (hrows ▸ List.mem_append_right _ hx)
      have hentry := hall hf _ job.id _ rj hbatch hrj (by rwa [EnqueueFails, hqj]) x.id
        (List.map_cons ▸ List.mem_map_of_mem hx) rx hrx
      rwa [← hqx]

/-- Two jobs of `u1` whose times have come. -/
def waiting : World :=
  let job (id : String) : Job := {
    id, userID := some "u1", queueName := "default", jobType := "send_email"
    payload := .object [], status := .scheduled, priority := 0, attempts := 0, maxAttempts := 3
    errorMessage := none, scheduledAt := some 0, startedAt := none, completedAt := none
    createdAt := 0, updatedAt := 0 }
  { World.initial with jobs := ⟨[job "j1", job "j2"], by decide⟩ }

/-- Both rows are selected, and the given `Enqueue`s fail. -/
def selectBoth (failing : String → Bool) : Pattern :=
  { ready := { env := { batch := ["j1", "j2"] } }, enqueue := fun id => { fails := failing id } }

/-- Nothing fails. -/
theorem strands_none_iff_smooth :
    ∃ w' result, promoteScheduled (selectBoth fun _ => false) waiting = some (w', result) ∧
      (NotStranded waiting w' ↔ Harmless (selectBoth fun _ => false) waiting) :=
  ⟨_, _, rfl, strands_none_iff rfl⟩

/-- The first `Enqueue` of the batch fails. -/
theorem batch_stranded :
    ¬ ∀ p w w' result, promoteScheduled p w = some (w', result) → NotStranded w w' := by
  intro hall
  have h := hall (selectBoth (· = "j1")) waiting _ _ rfl
  exact h.changed "j2" _ _ rfl rfl rfl rfl (by decide)

end JobFlow.Service.Stranded
