import JobFlow.Model.Stats

/-!
# What `Stats` makes of a broken stream

`Stats` leaves its loops when `Next` returns false and takes what it has counted for the
whole. If a stream has broken off before its last row, a status or a type is missing and no
error is returned.
-/

namespace JobFlow.Service.BrokenStreams

open JobFlow.Lib.Grouping
open JobFlow.Model
open JobFlow.Model.JobRepository

/-- The answer of `SELECT status, COUNT(*) FROM jobs GROUP BY status`. -/
def statusGroups (t : JobTable) : List (String × Nat) := sizes (t.rows.map (·.status.text))

/-- The answer of `SELECT job_type, COUNT(*) FROM jobs GROUP BY job_type`. -/
def typeGroups (t : JobTable) : List (String × Nat) := sizes (t.rows.map Job.jobType)

/-- The maps count the jobs of the table. -/
structure Complete (t : JobTable) (byStatus byType : Sizes String) : Prop where
  status : ∀ s : Status, byStatus.get s.text = countByStatus t s
  type : ∀ type, byType.get type = t.rows.countP fun r => r.jobType = type
  total : byStatus.get "total" = t.rows.length
  statuses : Sizes.sum (AList.erase "total" byStatus) = t.rows.length
  types : byType.sum = t.rows.length

/-- An error, or maps that count the jobs of the table. -/
def CompleteOrFails (t : JobTable) : Except Err (Sizes String × Sizes String) → Prop
  | .error _ => True
  | .ok (byStatus, byType) => Complete t byStatus byType

theorem text_injective : Function.Injective Status.text := by
  intro s s' h
  cases s <;> cases s' <;> first | rfl | exact absurd h (by decide)

theorem text_ne_total (s : Status) : s.text ≠ "total" := by
  cases s <;> decide

theorem count_texts (t : JobTable) (s : Status) :
    (t.rows.map (·.status.text)).count s.text = countByStatus t s := by
  rw [List.count, List.countP_map, countByStatus]
  refine List.countP_congr fun r _ => ?_
  simp [text_injective.eq_iff]

theorem count_types (t : JobTable) (type : String) :
    (t.rows.map Job.jobType).count type = t.rows.countP fun r => r.jobType = type := by
  rw [List.count, List.countP_map]
  refine List.countP_congr fun r _ => ?_
  simp

/-- The first loop fills a map and adds up what it puts in. -/
theorem foldl_addStatus (pairs : List (String × Nat)) (m : Sizes String) (n : Nat) :
    pairs.foldl addStatus (m, n) = (m.fill pairs, n + (pairs.map Prod.snd).sum) := by
  induction pairs generalizing m n with
  | nil => rfl
  | cons pair pairs ih =>
    rw [List.foldl_cons, addStatus, ih, List.map_cons, List.sum_cons, Nat.add_assoc]
    rfl

variable {statusRows typeRows : Except Err (Rows (String × Nat))}

/-- An error that is met is returned. -/
theorem stats_fails (h : Fails statusRows ∨ Fails typeRows) :
    ∃ e, stats statusRows typeRows = .error e := by
  cases statusRows with
  | error e => exact ⟨e, rfl⟩
  | ok rows =>
    cases hloop : eachRow addStatus (∅, 0) rows.scanned with
    | error e => exact ⟨e, by simp [stats, hloop, bind, Except.bind]⟩
    | ok acc =>
      rcases h with ⟨e, he⟩ | h
      · obtain ⟨e', he'⟩ := eachRow_error addStatus (∅, 0) he
        cases hloop.symm.trans he'
      · cases typeRows with
        | error e => exact ⟨e, by simp [stats, hloop, bind, Except.bind]⟩
        | ok rows' =>
          obtain ⟨e, he⟩ := h
          obtain ⟨e', he'⟩ := eachRow_error addType ∅ he
          exact ⟨e', by simp [stats, hloop, he', bind, Except.bind]⟩

/-- What is returned when nothing that is met fails. -/
theorem stats_ok {rows rows' : Rows (String × Nat)} {pairs pairs' : List (String × Nat)}
    (hs : rows.scanned = pairs.map .ok) (ht : rows'.scanned = pairs'.map .ok) :
    stats (.ok rows) (.ok rows') =
      .ok ((Sizes.fill ∅ pairs).insert "total" (pairs.map Prod.snd).sum, Sizes.fill ∅ pairs') := by
  simp only [stats, hs, ht, eachRow_ok, foldl_addStatus, Nat.zero_add, bind, Except.bind]
  rfl

/-- Where the streams have come as far as `n` and `n'`, the maps are complete exactly if that
is the end of both. -/
theorem complete_iff {t : JobTable} {order order' : List (String × Nat)} {n n' : Nat}
    (hs : order.Perm (statusGroups t)) (ht : order'.Perm (typeGroups t))
    (hn : n ≤ order.length) (hn' : n' ≤ order'.length) :
    Complete t ((Sizes.fill ∅ (order.take n)).insert "total" ((order.take n).map Prod.snd).sum)
      (Sizes.fill ∅ (order'.take n')) ↔ n = order.length ∧ n' = order'.length := by
  constructor
  · intro h
    constructor
    · by_contra hne
      have hlt := (fill_take hs (n := n) (by omega)).1
      have htotal := h.total
      rw [Sizes.get_insert, if_pos rfl] at htotal
      rw [List.length_map] at hlt
      omega
    · by_contra hne
      obtain ⟨-, type, htype, hzero⟩ := fill_take ht (n := n') (by omega)
      have hpos := List.count_pos_iff.mpr htype
      have hget := h.type type
      rw [hzero, ← count_types] at hget
      omega
  · rintro ⟨rfl, rfl⟩
    rw [List.take_length, List.take_length]
    have hsum : (order.map Prod.snd).sum = t.rows.length := by
      rw [sum_answer hs, List.length_map]
    have hsum' : (order'.map Prod.snd).sum = t.rows.length := by
      rw [sum_answer ht, List.length_map]
    have hnew : (Sizes.fill ∅ order).lookup "total" = none := by
      refine Sizes.lookup_fill_of_not_mem (nodup_answer hs) fun hmem => ?_
      obtain ⟨pair, hpair, htext⟩ := List.mem_map.mp hmem
      obtain ⟨r, -, hr⟩ := List.mem_map.mp ((mem_answer hs).mp hpair).1
      exact text_ne_total r.status (hr.trans htext)
    refine ⟨fun s => ?_, fun type => ?_, ?_, ?_, ?_⟩
    · rw [Sizes.get_insert, if_neg (text_ne_total s), get_fill_answer hs, count_texts]
    · rw [get_fill_answer ht, count_types]
    · rw [Sizes.get_insert, if_pos rfl, hsum]
    · rw [Sizes.erase_insert hnew, Sizes.sum_fill_empty (nodup_answer hs), hsum]
    · rw [Sizes.sum_fill_empty (nodup_answer ht), hsum']

/-- For every table and all that the two queries can return for it, `Stats` is complete or
fails exactly if some call that it checks fails or both streams deliver all their rows. -/
theorem complete_or_fails_iff {t : JobTable} (hs : Answers (statusGroups t) statusRows)
    (ht : Answers (typeGroups t) typeRows) :
    CompleteOrFails t (stats statusRows typeRows) ↔ (Fails statusRows ∨ Fails typeRows) ∨
      (Delivers (statusGroups t) statusRows ∧ Delivers (typeGroups t) typeRows) := by
  by_cases hf : Fails statusRows ∨ Fails typeRows
  · obtain ⟨e, he⟩ := stats_fails hf
    rw [he]
    exact iff_of_true trivial (.inl hf)
  · rw [or_iff_right hf]
    cases statusRows with
    | error e => exact absurd (.inl trivial) hf
    | ok rows =>
    cases typeRows with
    | error e => exact absurd (.inr trivial) hf
    | ok rows' =>
    obtain ⟨order, hperm, hscanned, hn⟩ := hs.scanned.resolve_left fun h => hf (.inl h)
    obtain ⟨order', hperm', hscanned', hn'⟩ := ht.scanned.resolve_left fun h => hf (.inr h)
    rw [stats_ok hscanned hscanned']
    have hiff := complete_iff hperm hperm' (hperm.length_eq ▸ hn) (hperm'.length_eq ▸ hn')
    rwa [hperm.length_eq, hperm'.length_eq] at hiff

/-- From complete maps the dashboard takes the numbers of the table. -/
theorem dashboard_reads {w : World} {queues : List String} {d : DashboardStats}
    (h : JobService.dashboard w queues = .ok d) {byStatus byType : Sizes String}
    (hc : Complete w.jobs byStatus byType) :
    d.totalJobs = byStatus.get "total" ∧ d.queued = byStatus.get "queued" ∧
      d.running = byStatus.get "running" ∧ d.completed = byStatus.get "completed" ∧
      d.failed = byStatus.get "failed" ∧ d.retrying = byStatus.get "retrying" ∧
      d.dlq = byStatus.get "dead_letter" ∧ ∀ pair ∈ d.byType, byType.get pair.1 = pair.2 := by
  unfold JobService.dashboard at h
  cases hs : RedisQueue.stats w.redis queues with
  | error e =>
    rw [hs] at h
    cases h
  | ok stats =>
    rw [hs] at h
    cases h
    refine ⟨hc.total.symm, (hc.status .queued).symm, (hc.status .running).symm,
      (hc.status .completed).symm, (hc.status .failed).symm, (hc.status .retrying).symm,
      (hc.status .deadLetter).symm, fun pair hpair => ?_⟩
    obtain ⟨type, -, rfl⟩ := List.mem_map.mp hpair
    exact hc.type type

/-- A queued and a completed job of one type. -/
def twoJobs : JobTable :=
  let job (id : String) (status : Status) : Job := {
    id, userID := some "u1", queueName := "default", jobType := "send_email"
    payload := .object [], status, priority := 0, attempts := 0, maxAttempts := 3
    errorMessage := none, scheduledAt := none, startedAt := none, completedAt := none
    createdAt := 0, updatedAt := 0 }
  ⟨[job "j1" .queued, job "j2" .completed], by decide⟩

/-- A stream of the given rows with what `Err` reports after them. -/
def stream (pairs : List (String × Nat)) (err : Option Err) : Except Err (Rows (String × Nat)) :=
  .ok ⟨pairs.map .ok, err⟩

theorem answers_types : Answers (typeGroups twoJobs) (stream [("send_email", 2)] none) :=
  .rows (.refl _) (.cons (.inl rfl) .nil) fun _ => rfl

/-- Both streams reach their ends. -/
theorem complete_or_fails_iff_ended :
    CompleteOrFails twoJobs (stats (stream [("queued", 1), ("completed", 1)] none)
        (stream [("send_email", 2)] none)) ↔
      (Fails (stream [("queued", 1), ("completed", 1)] none) ∨
        Fails (stream [("send_email", 2)] none)) ∨
      (Delivers (statusGroups twoJobs) (stream [("queued", 1), ("completed", 1)] none) ∧
        Delivers (typeGroups twoJobs) (stream [("send_email", 2)] none)) :=
  complete_or_fails_iff
    (.rows (.refl _) (.cons (.inl rfl) (.cons (.inl rfl) .nil)) fun _ => rfl) answers_types

/-- The first stream breaks off after the row of the queued job. -/
theorem total_too_small : ¬ ∀ t statusRows typeRows, Answers (statusGroups t) statusRows →
    Answers (typeGroups t) typeRows → CompleteOrFails t (stats statusRows typeRows) := by
  intro hall
  have h := hall twoJobs (stream [("queued", 1)] (some .unavailable))
    (stream [("send_email", 2)] none)
    (.rows (.refl _) (.cons (.inl rfl) .nil) nofun) answers_types
  exact absurd h.total (by decide)

end JobFlow.Service.BrokenStreams
