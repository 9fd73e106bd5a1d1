import JobFlow.Lib.Transition
import Mathlib.Data.List.Nodup
import Mathlib.Logic.Function.Basic

/-!
# Updating statements under READ COMMITTED

Each statement is a transaction of its own. It selects rows in a snapshot of what is
committed, then visits them one by one and locks those it changes. A row that another
transaction has changed since the snapshot is taken in its newest committed version, and
only if that passes the statement's recheck. The changes show when the statement commits.
Tables, keys, rows and statements are arbitrary.
-/

namespace JobFlow.Lib.ReadCommitted

open JobFlow.Lib.Transition

variable {T κ ρ S : Type*}

/-- The statements of a kind of table. -/
structure Dialect (T κ ρ S : Type*) [DecidableEq κ] where
  find : T → κ → Option ρ
  /-- What a statement may select in a snapshot, in the order it visits the rows. -/
  selects : S → T → List κ → Bool
  /-- Whether a newer version of a row is changed, by what has been selected. -/
  rechecks : S → List κ → ρ → Bool
  set : S → ρ → ρ
  write : T → S → List κ → T
  nodup : ∀ {st t ks}, selects st t ks → ks.Nodup
  find_write : ∀ t st ks k,
    find (write t st ks) k = if k ∈ ks then (find t k).map (set st) else find t k

/-- A statement that has its snapshot and has not committed. -/
structure Txn (T κ S : Type*) where
  statement : S
  snapshot : T
  /-- The version of each row in the snapshot. -/
  seen : κ → Nat
  selected : List κ
  pending : List κ
  written : List κ := []

structure Database (T κ S : Type*) where
  table : T
  /-- How often each row has been changed. -/
  version : κ → Nat := fun _ => 0
  locks : κ → Option Nat := fun _ => none
  active : Nat → Option (Txn T κ S) := fun _ => none

/-- The new version of a row, with the version it replaces. -/
structure Change (κ ρ S : Type*) where
  statement : S
  key : κ
  old : ρ
  new : ρ

inductive Label (κ S : Type*) where
  | start (i : Nat) (st : S) (selected : List κ)
  | visit (i : Nat)
  | commit (i : Nat)
  | abort (i : Nat)

/-- The end of a statement gives up its locks. -/
def Database.release (d : Database T κ S) (i : Nat) : Database T κ S :=
  { d with
    locks := fun k => if d.locks k = some i then none else d.locks k
    active := Function.update d.active i none }

namespace Dialect

variable [DecidableEq κ] (db : Dialect T κ ρ S)

def start (d : Database T κ S) (i : Nat) (st : S) (selected : List κ) :
    Option (Database T κ S) :=
  if (d.active i).isNone ∧ db.selects st d.table selected then
    some { d with
      active := Function.update d.active i (some {
        statement := st, snapshot := d.table, seen := d.version
        selected := selected, pending := selected }) }
  else none

/-- Whether a statement changes the row it has come to. -/
def takes (d : Database T κ S) (txn : Txn T κ S) (k : κ) : Bool :=
  (db.find d.table k).any fun r =>
    d.version k = txn.seen k || db.rechecks txn.statement txn.selected r

/-- A visit waits as long as the row is locked. -/
def visit (d : Database T κ S) (i : Nat) : Option (Database T κ S) :=
  match d.active i with
  | none => none
  | some txn =>
    match txn.pending with
    | [] => none
    | k :: rest =>
      if (d.locks k).isSome then none
      else if db.takes d txn k then
        some { d with
          locks := Function.update d.locks k (some i)
          active := Function.update d.active i
            (some { txn with pending := rest, written := txn.written ++ [k] }) }
      else
        some { d with
          active := Function.update d.active i (some { txn with pending := rest }) }

def changes (t : T) (st : S) (written : List κ) : List (Change κ ρ S) :=
  written.filterMap fun k => (db.find t k).map fun r => ⟨st, k, r, db.set st r⟩

def commit (d : Database T κ S) (i : Nat) :
    Option (Database T κ S × List (Change κ ρ S)) :=
  match d.active i with
  | none => none
  | some txn =>
    if txn.pending.isEmpty then
      some ({ d.release i with
          table := db.write d.table txn.statement txn.written
          version := fun k => if k ∈ txn.written then d.version k + 1 else d.version k },
        db.changes d.table txn.statement txn.written)
    else none

/-- The database as a machine. A commit shows the changes. -/
def step : Machine (Database T κ S) (Label κ S) (List (Change κ ρ S)) := fun d l =>
  match l with
  | .start i st selected => (db.start d i st selected).map fun d' => (d', [])
  | .visit i => (db.visit d i).map fun d' => (d', [])
  | .commit i => db.commit d i
  | .abort i => if (d.active i).isSome then some (d.release i, []) else none

end Dialect

/-! ## What is kept of every statement under way -/

section Soundness

variable [DecidableEq κ] (db : Dialect T κ ρ S)

structure TxnSound (d : Database T κ S) (txn : Txn T κ S) : Prop where
  selected : db.selects txn.statement txn.snapshot txn.selected = true
  ahead : (txn.written ++ txn.pending).Sublist txn.selected
  seen_le : ∀ k, txn.seen k ≤ d.version k
  unchanged : ∀ k, d.version k = txn.seen k → db.find d.table k = db.find txn.snapshot k
  taken : ∀ k ∈ txn.written, db.takes d txn k

structure Sound (d : Database T κ S) : Prop where
  locked : ∀ k i, d.locks k = some i ↔ ∃ txn, d.active i = some txn ∧ k ∈ txn.written
  txns : ∀ i txn, d.active i = some txn → TxnSound db d txn

variable {db} {d d' : Database T κ S}

theorem sound_initial (t : T) : Sound db { table := t } where
  locked k i := by simp
  txns i txn h := by cases h

theorem TxnSound.congr {txn : Txn T κ S} (h : TxnSound db d txn) (ht : d'.table = d.table)
    (hv : d'.version = d.version) : TxnSound db d' txn where
  selected := h.selected
  ahead := h.ahead
  seen_le := by rw [hv]; exact h.seen_le
  unchanged := by rw [hv, ht]; exact h.unchanged
  taken := by unfold Dialect.takes; rw [hv, ht]; exact h.taken

omit [DecidableEq κ] in
theorem update_eq_some {f : Nat → Option (Txn T κ S)} {i j : Nat} {x : Option (Txn T κ S)}
    {txn : Txn T κ S} : Function.update f i x j = some txn ↔
      (j = i ∧ x = some txn) ∨ (j ≠ i ∧ f j = some txn) := by
  by_cases hji : j = i
  · subst hji
    simp
  · simp [hji]

theorem sound_start (hs : Sound db d) {i : Nat} {st : S} {selected : List κ}
    (h : db.start d i st selected = some d') : Sound db d' := by
  unfold Dialect.start at h
  split at h
  case isFalse => cases h
  case isTrue hc =>
  obtain rfl := Option.some.inj h
  have hnone : d.active i = none := Option.isNone_iff_eq_none.mp hc.1
  refine ⟨fun k j => ?_, fun j txn hj => ?_⟩
  · rw [hs.locked k j]
    by_cases hji : j = i
    · subst hji
      simp [hnone]
    · simp [Function.update_of_ne hji]
  · obtain ⟨rfl, hself⟩ | ⟨-, hother⟩ := update_eq_some.mp hj
    · obtain rfl := Option.some.inj hself
      exact ⟨hc.2, .refl _, fun k => Nat.le_refl _, fun k _ => rfl, fun k hk => by cases hk⟩
    · exact (hs.txns j txn hother).congr rfl rfl

/-- A visit comes to the next row, which is not locked, and changes it or passes. -/
theorem visit_cases {i : Nat} (h : db.visit d i = some d') : ∃ txn k rest,
    d.active i = some txn ∧ txn.pending = k :: rest ∧ d.locks k = none ∧
    ((db.takes d txn k ∧ d' = { d with
        locks := Function.update d.locks k (some i)
        active := Function.update d.active i
          (some { txn with pending := rest, written := txn.written ++ [k] }) }) ∨
      d' = { d with active := Function.update d.active i (some { txn with pending := rest }) }) := by
  unfold Dialect.visit at h
  split at h
  · cases h
  · next txn htxn =>
    split at h
    · cases h
    · next k rest hpending =>
      refine ⟨txn, k, rest, htxn, hpending, ?_⟩
      split at h
      · cases h
      · next hlock =>
        refine ⟨by simpa using hlock, ?_⟩
        split at h
        · next htakes => exact .inl ⟨htakes, (Option.some.inj h).symm⟩
        · exact .inr (Option.some.inj h).symm

theorem sound_visit (hs : Sound db d) {i : Nat} (h : db.visit d i = some d') : Sound db d' := by
  obtain ⟨txn, k, rest, htxn, hpending, hlock, hd'⟩ := visit_cases h
  have ht := hs.txns i txn htxn
  have hahead := ht.ahead
  rw [hpending] at hahead
  rcases hd' with ⟨htakes, rfl⟩ | rfl
  · refine ⟨fun k' j => ?_, fun j txn' hj => ?_⟩
    · have hold := hs.locked k' j
      by_cases hji : j = i
      · subst hji
        by_cases hk : k' = k
        · subst hk
          simp
        · simp only [Function.update_of_ne hk, Function.update_self, Option.some.injEq]
          rw [hold, htxn]
          simp [hk]
      · by_cases hk : k' = k
        · subst hk
          rw [hlock] at hold
          simpa [Function.update_of_ne hji, Ne.symm hji] using hold
        · simpa [Function.update_of_ne hji, Function.update_of_ne hk] using hold
    · obtain ⟨rfl, hself⟩ | ⟨-, hother⟩ := update_eq_some.mp hj
      · obtain rfl := Option.some.inj hself
        refine ⟨ht.selected, by simpa using hahead, ht.seen_le, ht.unchanged, fun k' hk' => ?_⟩
        rcases List.mem_append.mp hk' with hk' | hk'
        · exact ht.taken k' hk'
        · obtain rfl := List.mem_singleton.mp hk'
          exact htakes
      · exact (hs.txns j txn' hother).congr rfl rfl
  · refine ⟨fun k' j => ?_, fun j txn' hj => ?_⟩
    · rw [hs.locked k' j]
      by_cases hji : j = i
      · subst hji
        simp [htxn]
      · simp [Function.update_of_ne hji]
    · obtain ⟨rfl, hself⟩ | ⟨-, hother⟩ := update_eq_some.mp hj
      · obtain rfl := Option.some.inj hself
        refine ⟨ht.selected, ?_, ht.seen_le, ht.unchanged, ht.taken⟩
        exact ((List.sublist_cons_self k rest).append_left _).trans hahead
      · exact (hs.txns j txn' hother).congr rfl rfl

theorem locked_release (hs : Sound db d) (i j : Nat) (k : κ) :
    (d.release i).locks k = some j ↔ ∃ txn, (d.release i).active j = some txn ∧ k ∈ txn.written := by
  simp only [Database.release, update_eq_some, reduceCtorEq, and_false, false_or]
  have hold := hs.locked k j
  split
  · next hi =>
    refine iff_of_false (by simp) ?_
    rintro ⟨txn, ⟨hji, hj⟩, hk⟩
    exact hji (Option.some.inj ((hold.mpr ⟨txn, hj, hk⟩).symm.trans hi))
  · next hi =>
    rw [hold]
    constructor
    · rintro ⟨txn, hj, hk⟩
      refine ⟨txn, ⟨fun hji => hi ?_, hj⟩, hk⟩
      exact hji ▸ hold.mpr ⟨txn, hj, hk⟩
    · rintro ⟨txn, ⟨-, hj⟩, hk⟩
      exact ⟨txn, hj, hk⟩

theorem sound_release (hs : Sound db d) (i : Nat) : Sound db (d.release i) := by
  refine ⟨fun k j => locked_release hs i j k, fun j txn hj => ?_⟩
  obtain ⟨-, hj⟩ | ⟨-, hj⟩ := update_eq_some.mp hj
  · cases hj
  · exact (hs.txns j txn hj).congr rfl rfl

theorem commit_cases {i : Nat} {log : List (Change κ ρ S)} (h : db.commit d i = some (d', log)) :
    ∃ txn, d.active i = some txn ∧ txn.pending = [] ∧
      log = db.changes d.table txn.statement txn.written ∧
      d' = { d.release i with
        table := db.write d.table txn.statement txn.written
        version := fun k => if k ∈ txn.written then d.version k + 1 else d.version k } := by
  unfold Dialect.commit at h
  split at h
  · cases h
  · next txn htxn =>
    split at h
    · next hpending =>
      obtain ⟨rfl, rfl⟩ := Prod.mk.inj (Option.some.inj h)
      exact ⟨txn, htxn, List.isEmpty_iff.mp hpending, rfl, rfl⟩
    · cases h

/-- The rows a statement has locked are out of reach of every other statement's commit. -/
theorem sound_commit (hs : Sound db d) {i : Nat} {log : List (Change κ ρ S)}
    (h : db.commit d i = some (d', log)) : Sound db d' := by
  obtain ⟨txn, htxn, -, -, rfl⟩ := commit_cases h
  refine ⟨fun k j => locked_release hs i j k, fun j txn' hj => ?_⟩
  obtain ⟨-, hj⟩ | ⟨hji, hj⟩ := update_eq_some.mp hj
  · cases hj
  have ht := hs.txns j txn' hj
  have hapart : ∀ k ∈ txn'.written, k ∉ txn.written := fun k hk hk' =>
    hji (Option.some.inj (((hs.locked k j).mpr ⟨txn', hj, hk⟩).symm.trans
      ((hs.locked k i).mpr ⟨txn, htxn, hk'⟩)))
  refine ⟨ht.selected, ht.ahead, fun k => ?_, fun k hk => ?_, fun k hk => ?_⟩
  · have := ht.seen_le k
    dsimp only
    split <;> omega
  · have hle := ht.seen_le k
    dsimp only at hk ⊢
    rw [db.find_write]
    split at hk
    · omega
    · next hnot => rw [if_neg hnot, ht.unchanged k hk]
  · have hnot := hapart k hk
    have htakes := ht.taken k hk
    simpa [Dialect.takes, db.find_write, hnot] using htakes

theorem sound_step (hs : Sound db d) {l : Label κ S} {log : List (Change κ ρ S)}
    (h : db.step d l = some (d', log)) : Sound db d' := by
  cases l with
  | start i st selected =>
    obtain ⟨hd₁, -⟩ := map_view_eq_some.mp h
    exact sound_start hs hd₁
  | visit i =>
    obtain ⟨hd₁, -⟩ := map_view_eq_some.mp h
    exact sound_visit hs hd₁
  | commit i => exact sound_commit hs h
  | abort i =>
    obtain ⟨-, hd'⟩ := Option.ite_none_right_eq_some.mp h
    obtain ⟨rfl, -⟩ := Prod.mk.inj (Option.some.inj hd')
    exact sound_release hs i

theorem sound_run {ok : Database T κ S → Label κ S → Prop} {t : T}
    {tr : List (List (Change κ ρ S))} (hr : Run db.step ok { table := t } tr d) : Sound db d :=
  hr.invariant (I := fun _ => Sound db) (sound_initial t) fun _ hs _ h => sound_step hs h

/-! ## What a commit changes -/

theorem mem_changes {t : T} {st : S} {written : List κ} {c : Change κ ρ S} :
    c ∈ db.changes t st written ↔ c.statement = st ∧ c.key ∈ written ∧
      db.find t c.key = some c.old ∧ c.new = db.set st c.old := by
  unfold Dialect.changes
  rw [List.mem_filterMap]
  constructor
  · rintro ⟨k, hk, hc⟩
    obtain ⟨r, hr, rfl⟩ := Option.map_eq_some_iff.mp hc
    exact ⟨rfl, hk, hr, rfl⟩
  · rintro ⟨rfl, hk, hr, hnew⟩
    refine ⟨c.key, hk, ?_⟩
    rw [hr, Option.map_some, ← hnew]

/-- Each row is changed once. -/
theorem count_changes {t : T} {st : S} {written : List κ} (hn : written.Nodup) (k : κ) :
    (db.changes t st written).countP (fun c => c.key = k) ≤ 1 := by
  have hkeys : (db.changes t st written).map Change.key =
      written.filter fun k => (db.find t k).isSome := by
    unfold Dialect.changes
    induction written with
    | nil => rfl
    | cons k' rest ih =>
      have hrest := ih (List.nodup_cons.mp hn).2
      cases hf : db.find t k' <;> simp [hf, hrest]
  have hcount := List.nodup_iff_count_le_one.mp (hkeys ▸ hn.filter _) k
  rwa [List.count, List.countP_map] at hcount

/-- Only commits show. -/
theorem step_cases {l : Label κ S} {log : List (Change κ ρ S)}
    (h : db.step d l = some (d', log)) :
    ((∀ i, l ≠ .commit i) ∧ log = [] ∧ d'.table = d.table ∧ d'.version = d.version) ∨
    ∃ i, l = .commit i ∧ db.commit d i = some (d', log) := by
  cases l with
  | start i st selected =>
    obtain ⟨hd₁, rfl⟩ := map_view_eq_some.mp h
    obtain ⟨-, hd₁⟩ := Option.ite_none_right_eq_some.mp hd₁
    obtain rfl := Option.some.inj hd₁
    exact .inl ⟨nofun, rfl, rfl, rfl⟩
  | visit i =>
    obtain ⟨hd₁, rfl⟩ := map_view_eq_some.mp h
    obtain ⟨txn, k, rest, -, -, -, ⟨-, rfl⟩ | rfl⟩ := visit_cases hd₁
    · exact .inl ⟨nofun, rfl, rfl, rfl⟩
    · exact .inl ⟨nofun, rfl, rfl, rfl⟩
  | commit i => exact .inr ⟨i, rfl, h⟩
  | abort i =>
    obtain ⟨-, hd'⟩ := Option.ite_none_right_eq_some.mp h
    obtain ⟨rfl, rfl⟩ := Prod.mk.inj (Option.some.inj hd')
    exact .inl ⟨nofun, rfl, rfl, rfl⟩

/-- What the statement knew of a row that it changes: the row was selected, and it is
still the one of the snapshot, or a newer one that has passed the recheck. -/
structure Justified (db : Dialect T κ ρ S) (d : Database T κ S) (txn : Txn T κ S)
    (c : Change κ ρ S) : Prop where
  statement : c.statement = txn.statement
  written : c.key ∈ txn.written
  selected : c.key ∈ txn.selected
  latest : db.find d.table c.key = some c.old
  new : c.new = db.set c.statement c.old
  old : db.find txn.snapshot c.key = some c.old ∨
    db.rechecks txn.statement txn.selected c.old = true

theorem commit_justified (hs : Sound db d) {i : Nat} {log : List (Change κ ρ S)}
    (h : db.commit d i = some (d', log)) :
    ∃ txn, d.active i = some txn ∧ TxnSound db d txn ∧ ∀ c ∈ log, Justified db d txn c := by
  obtain ⟨txn, htxn, -, rfl, -⟩ := commit_cases h
  have ht := hs.txns i txn htxn
  refine ⟨txn, htxn, ht, fun c hc => ?_⟩
  obtain ⟨hst, hk, hr, hnew⟩ := mem_changes.mp hc
  refine ⟨hst, hk, ht.ahead.subset (List.mem_append_left _ hk), hr, by rw [hst, hnew], ?_⟩
  have htakes := ht.taken c.key hk
  rw [Dialect.takes, hr, Option.any_some, Bool.or_eq_true, decide_eq_true_eq] at htakes
  exact htakes.imp_left fun hv => (ht.unchanged c.key hv).symm.trans hr

/-- A statement whose condition is in its recheck changes only rows that meet it. -/
theorem commit_guarded (hs : Sound db d) {i : Nat} {log : List (Change κ ρ S)}
    (h : db.commit d i = some (d', log)) {P : S → ρ → Prop}
    (hselects : ∀ st t ks, db.selects st t ks → ∀ k ∈ ks, ∀ r, db.find t k = some r → P st r)
    (hrechecks : ∀ st ks r, db.rechecks st ks r → P st r) : ∀ c ∈ log, P c.statement c.old := by
  obtain ⟨txn, -, ht, hlog⟩ := commit_justified hs h
  intro c hc
  have hj := hlog c hc
  rw [hj.statement]
  rcases hj.old with hold | hre
  · exact hselects _ _ _ ht.selected _ hj.selected _ hold
  · exact hrechecks _ _ _ hre

/-! ## A class of rows that no statement leads back to -/

/-- Rows that have been changed are outside the class, so each is taken out of it once. -/
structure Leaves (db : Dialect T κ ρ S) (C : ρ → Bool) (log : List (Change κ ρ S))
    (d : Database T κ S) : Prop where
  changed : ∀ k, 0 < d.version k → ∃ c ∈ log, c.key = k
  outside : ∀ c ∈ log, ∀ r, db.find d.table c.key = some r → C r = false
  once : ∀ k, log.countP (fun c => c.key = k && C c.old) ≤ 1

theorem leaves_commit {C : ρ → Bool} (hC : ∀ st r, C (db.set st r) = false)
    {past log : List (Change κ ρ S)} (hs : Sound db d) (hl : Leaves db C past d) {i : Nat}
    (h : db.commit d i = some (d', log)) : Leaves db C (past ++ log) d' := by
  obtain ⟨txn, htxn, -, rfl, rfl⟩ := commit_cases h
  have ht := hs.txns i txn htxn
  have hnodup : txn.written.Nodup :=
    (List.nodup_append.mp ((db.nodup ht.selected).sublist ht.ahead)).1
  refine ⟨fun k hk => ?_, fun c hc r hr => ?_, fun k => ?_⟩
  · dsimp only at hk
    split at hk
    · next hmem =>
      obtain ⟨r, hr, -⟩ := (Option.any_eq_true _ _).mp (ht.taken k hmem)
      refine ⟨⟨txn.statement, k, r, db.set txn.statement r⟩, List.mem_append_right _ ?_, rfl⟩
      exact mem_changes.mpr ⟨rfl, hmem, hr, rfl⟩
    · obtain ⟨c, hc, hk⟩ := hl.changed k hk
      exact ⟨c, List.mem_append_left _ hc, hk⟩
  · rw [db.find_write] at hr
    split at hr
    · obtain ⟨r₀, -, rfl⟩ := Option.map_eq_some_iff.mp hr
      exact hC _ _
    · next hnot =>
      rcases List.mem_append.mp hc with hc | hc
      · exact hl.outside c hc r hr
      · exact absurd (mem_changes.mp hc).2.1 hnot
  · rw [List.countP_append]
    have hpast := hl.once k
    have hlog : (db.changes d.table txn.statement txn.written).countP
        (fun c => c.key = k && C c.old) ≤ 1 :=
      Nat.le_trans (List.countP_mono_left fun c _ hc => (Bool.and_eq_true_iff.mp hc).1)
        (count_changes hnodup k)
    -- a row that has been changed before is outside by now
    by_cases hex : ∃ c ∈ past, c.key = k
    · obtain ⟨c₀, hc₀, rfl⟩ := hex
      have hzero : (db.changes d.table txn.statement txn.written).countP
          (fun c => c.key = c₀.key && C c.old) = 0 := by
        rw [List.countP_eq_zero]
        intro c hc hck
        obtain ⟨hkey, hold⟩ := Bool.and_eq_true_iff.mp hck
        have hr := (mem_changes.mp hc).2.2.1
        rw [of_decide_eq_true hkey] at hr
        exact absurd hold (by simp [hl.outside c₀ hc₀ _ hr])
      omega
    · have hzero : past.countP (fun c => c.key = k && C c.old) = 0 := by
        rw [List.countP_eq_zero]
        intro c hc hck
        exact hex ⟨c, hc, of_decide_eq_true (Bool.and_eq_true_iff.mp hck).1⟩
      omega

theorem leaves_run {C : ρ → Bool} (hC : ∀ st r, C (db.set st r) = false)
    {ok : Database T κ S → Label κ S → Prop} {t : T} {tr : List (List (Change κ ρ S))}
    (hr : Run db.step ok { table := t } tr d) : Leaves db C tr.flatten d := by
  refine hr.invariant (I := fun tr d => Leaves db C tr.flatten d) ?_ ?_
  · refine ⟨fun k hk => ?_, fun c hc => (by cases hc), fun k => Nat.zero_le _⟩
    exact absurd hk (Nat.lt_irrefl 0)
  · intro tr d d' l log hr hl _ hstep
    rw [List.flatten_append, List.flatten_singleton]
    rcases step_cases hstep with ⟨-, rfl, ht, hv⟩ | ⟨i, rfl, hc⟩
    · rw [List.append_nil]
      exact ⟨by rw [hv]; exact hl.changed, by rw [ht]; exact hl.outside, hl.once⟩
    · exact leaves_commit hC (sound_run hr) hl hc

/-- A row that has changed since a snapshot is outside the class. -/
theorem Leaves.of_seen_ne {C : ρ → Bool} {log : List (Change κ ρ S)} (hl : Leaves db C log d)
    {txn : Txn T κ S} (ht : TxnSound db d txn) {k : κ} (hk : d.version k ≠ txn.seen k) {r : ρ}
    (hr : db.find d.table k = some r) : C r = false := by
  have hle := ht.seen_le k
  obtain ⟨c, hc, rfl⟩ := hl.changed k (by omega)
  exact hl.outside c hc r hr

/-! ## A statement by itself -/

variable (db) in
theorem execute_visits {i : Nat} {txn : Txn T κ S} (hi : d.active i = some txn)
    (hn : txn.pending.Nodup) (hfree : ∀ k ∈ txn.pending, d.locks k = none)
    (htakes : ∀ k ∈ txn.pending, db.takes d txn k) (rest : List (Label κ S)) :
    ∃ d', d'.table = d.table ∧ d'.active i =
        some { txn with pending := [], written := txn.written ++ txn.pending } ∧
      execute db.step d (txn.pending.map (fun _ => .visit i) ++ rest) =
        (execute db.step d' rest).map fun x => (x.1, txn.pending.map (fun _ => []) ++ x.2) := by
  obtain ⟨st, snapshot, seen, selected, pending, written⟩ := txn
  induction pending generalizing d written with
  | nil =>
    refine ⟨d, rfl, by simpa using hi, ?_⟩
    simp
  | cons k pending ih =>
    have hk := hfree k List.mem_cons_self
    have hstep : db.step d (.visit i) = some ({ d with
        locks := Function.update d.locks k (some i)
        active := Function.update d.active i
          (some ⟨st, snapshot, seen, selected, pending, written ++ [k]⟩) }, []) := by
      simp [Dialect.step, Dialect.visit, hi, hk, htakes k List.mem_cons_self]
    obtain ⟨hnot, hn⟩ := List.nodup_cons.mp hn
    obtain ⟨d', htable, hactive, hexec⟩ := ih (d := { d with
        locks := Function.update d.locks k (some i)
        active := Function.update d.active i
          (some ⟨st, snapshot, seen, selected, pending, written ++ [k]⟩) })
      (written ++ [k]) (Function.update_self _ _ _) hn
      (fun k' hk' => by
        rw [← hfree k' (List.mem_cons_of_mem _ hk')]
        have hne : k' ≠ k := fun heq => hnot (heq ▸ hk')
        exact Function.update_of_ne hne _ _)
      (fun k' hk' => htakes k' (List.mem_cons_of_mem _ hk'))
    refine ⟨d', htable, by simpa using hactive, ?_⟩
    rw [List.map_cons, List.cons_append, execute, hstep]
    dsimp only [Option.bind_eq_bind, Option.bind_some]
    rw [hexec]
    cases execute db.step d' rest <;> simp

variable (db) in
/-- With no lock in its way a statement changes all that it selects. -/
theorem execute_alone {i : Nat} (hi : d.active i = none) (hfree : ∀ k, d.locks k = none) {st : S}
    {selected : List κ} (hsel : db.selects st d.table selected)
    (hfound : ∀ k ∈ selected, (db.find d.table k).isSome) :
    ∃ d' tr, execute db.step d
        (.start i st selected :: (selected.map fun _ => .visit i) ++ [.commit i]) = some (d', tr) ∧
      d'.table = db.write d.table st selected ∧
      tr.flatten = db.changes d.table st selected := by
  have hstart : db.step d (.start i st selected) = some ({ d with
      active := Function.update d.active i
        (some ⟨st, d.table, d.version, selected, selected, []⟩) }, []) := by
    simp [Dialect.step, Dialect.start, hi, hsel]
  obtain ⟨d', htable, hactive, hexec⟩ := execute_visits db (d := { d with
      active := Function.update d.active i
        (some ⟨st, d.table, d.version, selected, selected, []⟩) })
    (Function.update_self _ _ _) (db.nodup hsel) (fun k _ => hfree k)
    (fun k hk => by
      obtain ⟨r, hr⟩ := Option.isSome_iff_exists.mp (hfound k hk)
      simp [Dialect.takes, hr]) [.commit i]
  have hcommit : db.step d' (.commit i) = some ({ d'.release i with
      table := db.write d.table st selected
      version := fun k => if k ∈ selected then d'.version k + 1 else d'.version k },
      db.changes d.table st selected) := by
    simp [Dialect.step, Dialect.commit, hactive, htable]
  refine ⟨{ d'.release i with
      table := db.write d.table st selected
      version := fun k => if k ∈ selected then d'.version k + 1 else d'.version k },
    [] :: (selected.map fun _ => []) ++ [db.changes d.table st selected], ?_, rfl, ?_⟩
  · rw [List.cons_append, execute, hstart]
    dsimp only [Option.bind_eq_bind, Option.bind_some]
    rw [hexec, execute, hcommit]
    rfl
  · simp

end Soundness

end JobFlow.Lib.ReadCommitted
