import JobFlow.Lib.ReadCommitted
import JobFlow.Model.JobRepository

/-!
# The updating statements of `JobRepository` as PostgreSQL runs them

A statement by itself does what the function of `JobRepository` does. Beside others it
keeps to `READ COMMITTED`: it selects in its snapshot and tests its own `WHERE` clause
again on a newer version of a row. For `ReadyScheduled` that clause is the membership in
what its inner `SELECT` has given.
-/

namespace JobFlow.Model.JobRepository

open JobFlow.Lib.ReadCommitted

/-- A statement with its arguments and its `NOW()`. -/
inductive Statement where
  | cancel (now : Time) (id userID : String)
  | markRunning (now : Time) (id : String)
  | markCompleted (now : Time) (id : String)
  | markFailed (now : Time) (id message : String)
  | requeue (now : Time) (id userID : String)
  | readyScheduled (now : Time) (limit : Nat)

namespace Statement

def promotes : Statement → Bool
  | .readyScheduled .. => true
  | _ => false

/-- The `WHERE` clause of the `UPDATE` on a version of a row. -/
def matching (batch : List String) : Statement → Job → Bool
  | .cancel _ id userID => cancelWhere id userID
  | .markRunning _ id => runningWhere id
  | .markCompleted _ id => fun r => r.id = id
  | .markFailed _ id _ => fun r => r.id = id
  | .requeue _ id userID => requeueWhere id userID
  | .readyScheduled .. => fun r => r.id ∈ batch

def assignment : Statement → JobTable.Assignment
  | .cancel now _ _ => cancelSet now
  | .markRunning now _ => runningSet now
  | .markCompleted now _ => completedSet now
  | .markFailed now _ message => failedSet now message
  | .requeue now _ _ => requeueSet now
  | .readyScheduled now _ => promotedSet now

/-- The rows of a snapshot that a statement goes to. -/
def selects (st : Statement) (t : JobTable) (ids : List String) : Bool :=
  match st with
  | .readyScheduled now limit => IsBatch t now limit ids
  | st => ids = (t.rows.filter (st.matching [])).map Job.id

/-- The statement by itself, as the function of the repository. -/
def alone (st : Statement) (t : JobTable) (ids : List String) : Option JobTable :=
  match st with
  | .cancel now id userID => some (JobRepository.cancel t now id userID).1
  | .markRunning now id => some (JobRepository.markRunning t now id).1
  | .markCompleted now id => some (JobRepository.markCompleted t now id).1
  | .markFailed now id message => some (JobRepository.markFailed t now id message).1
  | .requeue now id userID => some (JobRepository.requeue t now id userID).1
  | .readyScheduled now limit =>
    (JobRepository.readyScheduled t now limit ids).map Prod.fst

theorem selects_eq {st : Statement} (hp : st.promotes = false) (t : JobTable)
    (ids : List String) :
    st.selects t ids = decide (ids = (t.rows.filter (st.matching [])).map Job.id) := by
  cases st with
  | readyScheduled now limit => cases hp
  | _ => rfl

theorem matching_eq {st : Statement} (hp : st.promotes = false) (batch : List String) :
    st.matching batch = st.matching [] := by
  cases st with
  | readyScheduled now limit => cases hp
  | _ => rfl

end Statement

theorem JobTable.mem_filter_ids (t : JobTable) (matching : Job → Bool) {r : Job} (hr : r ∈ t.rows) :
    r.id ∈ (t.rows.filter matching).map Job.id ↔ matching r := by
  rw [List.mem_map]
  constructor
  · rintro ⟨r', hr', hid⟩
    obtain ⟨hmem, hm⟩ := List.mem_filter.mp hr'
    rwa [← List.inj_on_of_nodup_map t.key hmem hr hid]
  · exact fun hm => ⟨r, List.mem_filter.mpr ⟨hr, hm⟩, rfl⟩

theorem JobTable.update_congr {t : JobTable} {m m' : Job → Bool} (set : Assignment)
    (h : ∀ r ∈ t.rows, m r = m' r) : (t.update m set).1 = (t.update m' set).1 := by
  have hrows : (t.rows.map fun r => if m r then set.apply r else r) =
      t.rows.map fun r => if m' r then set.apply r else r :=
    List.map_congr_left fun r hr => by rw [h r hr]
  unfold JobTable.update
  simp only [hrows]

/-- The statements on the table of jobs. -/
def statements : Dialect JobTable String Job Statement where
  find := JobTable.find
  selects := Statement.selects
  rechecks st batch := st.matching batch
  set st := st.assignment.apply
  write t st ids := (t.update (fun r => r.id ∈ ids) st.assignment).1
  nodup {st t ids} h := by
    cases hp : st.promotes with
    | false =>
      rw [Statement.selects_eq hp, decide_eq_true_eq] at h
      rw [h]
      exact t.key.sublist (List.filter_sublist.map _)
    | true =>
      cases st with
      | readyScheduled now limit => exact (of_decide_eq_true h).1
      | _ => cases hp
  find_write t st ids id := by
    rw [JobTable.find_update]
    cases hf : t.find id with
    | none => simp
    | some r =>
      have hid := JobTable.find_id hf
      by_cases hmem : id ∈ ids <;> simp [hid, hmem]

namespace Statement

theorem found_of_selects {st : Statement} {t : JobTable} {ids : List String}
    (h : st.selects t ids) : ∀ id ∈ ids, ∃ r, t.find id = some r ∧
      (st.promotes = false → ∀ batch, st.matching batch r) := by
  intro id hid
  cases hp : st.promotes with
  | false =>
    rw [selects_eq hp, decide_eq_true_eq] at h
    obtain ⟨r, hr, rfl⟩ := List.mem_map.mp (h ▸ hid)
    obtain ⟨hrow, hm⟩ := List.mem_filter.mp hr
    exact ⟨r, (t.mem_rows_iff r).mp hrow, fun _ batch => by rwa [matching_eq hp]⟩
  | true =>
    cases st with
    | readyScheduled now limit =>
      obtain ⟨r, hr, rfl⟩ := List.mem_map.mp ((of_decide_eq_true h).2.1 id hid)
      exact ⟨r, (t.mem_rows_iff r).mp (List.mem_filter.mp hr).1, nofun⟩
    | _ => cases hp

/-- A scheduler's batch consists of rows that are due in the snapshot. -/
theorem due_of_selects {now : Time} {limit : Nat} {t : JobTable} {ids : List String}
    (h : (readyScheduled now limit).selects t ids) {id : String} (hid : id ∈ ids) {r : Job}
    (hr : t.find id = some r) : isDue now r := by
  obtain ⟨r', hr', rfl⟩ := List.mem_map.mp ((of_decide_eq_true h).2.1 id hid)
  obtain ⟨hrow, hdue⟩ := List.mem_filter.mp hr'
  rwa [← Option.some.inj (((t.mem_rows_iff r').mp hrow).symm.trans hr)]

/-- What a statement writes that has selected in the table itself is what the function of
the repository writes. -/
theorem alone_eq {st : Statement} {t : JobTable} {ids : List String} (h : st.selects t ids) :
    st.alone t ids = some (statements.write t st ids) := by
  cases hp : st.promotes with
  | false =>
    have hids := of_decide_eq_true ((selects_eq hp t ids).symm.trans h)
    have hwrite : statements.write t st ids = (t.update (st.matching []) st.assignment).1 := by
      refine JobTable.update_congr _ fun r hr => ?_
      rw [hids, Bool.eq_iff_iff, decide_eq_true_eq]
      exact t.mem_filter_ids _ hr
    rw [hwrite]
    cases st with
    | readyScheduled now limit => cases hp
    | _ => rfl
  | true =>
    cases st with
    | readyScheduled now limit =>
      have hb : IsBatch t now limit ids := of_decide_eq_true h
      simp only [alone, JobRepository.readyScheduled, if_pos hb]
      rfl
    | _ => cases hp

/-- A statement that runs while no other is under way does what the function of the
repository does. -/
theorem execute_alone {d : Database JobTable String Statement} {i : Nat}
    (hi : d.active i = none) (hfree : ∀ id, d.locks id = none) {st : Statement}
    {ids : List String} (h : st.selects d.table ids) :
    ∃ d' tr, Lib.Transition.execute statements.step d
        (.start i st ids :: (ids.map fun _ => .visit i) ++ [.commit i]) = some (d', tr) ∧
      st.alone d.table ids = some d'.table := by
  have hfound : ∀ id ∈ ids, (statements.find d.table id).isSome := fun id hid => by
    obtain ⟨r, hr, -⟩ := found_of_selects h id hid
    exact Option.isSome_iff_exists.mpr ⟨r, hr⟩
  obtain ⟨d', tr, hexec, htable, -⟩ :=
    Lib.ReadCommitted.execute_alone statements hi hfree h hfound
  exact ⟨d', tr, hexec, by rw [htable, alone_eq h]⟩

end Statement

end JobFlow.Model.JobRepository
