import JobFlow.Lib.SortedSet
import JobFlow.Model.Job
import Mathlib.Data.Int.Order.Basic
import Mathlib.Data.String.Basic
import Mathlib.Logic.Function.Basic

/-!
# The Redis commands the code issues

A key holds a sorted set or a list, or does not exist; a collection that
becomes empty is deleted with its key. A command on a key of the other type
fails with `WRONGTYPE` and changes nothing. Scores are exact integers.
-/

namespace JobFlow.Model

open JobFlow.Lib (SortedSet)

inductive RedisValue where
  | zset (z : SortedSet String Int)
  | list (items : List String)

abbrev Redis := String → Option RedisValue

namespace Redis

def empty : Redis := fun _ => none

def sortedAt (r : Redis) (key : String) : Except Err (SortedSet String Int) :=
  match r key with
  | none => .ok SortedSet.empty
  | some (.zset z) => .ok z
  | some (.list _) => .error .wrongType

def listAt (r : Redis) (key : String) : Except Err (List String) :=
  match r key with
  | none => .ok []
  | some (.list items) => .ok items
  | some (.zset _) => .error .wrongType

def putSorted (r : Redis) (key : String) (z : SortedSet String Int) : Redis :=
  Function.update r key (if z.card = 0 then none else some (.zset z))

def zadd (r : Redis) (key : String) (score : Int) (member : String) : Except Err Redis := do
  let z ← r.sortedAt key
  return r.putSorted key (z.add score member)

def zrem (r : Redis) (key : String) (member : String) : Except Err Redis := do
  let z ← r.sortedAt key
  return r.putSorted key (z.erase member)

/-- `ZPOPMIN key 1`. -/
def zpopmin (r : Redis) (key : String) : Except Err (Redis × Option String) := do
  let z ← r.sortedAt key
  match z.popMin with
  | none => return (r, none)
  | some (e, z') => return (r.putSorted key z', some e.2)

/-- `ZRANGEBYSCORE key -inf max`. -/
def zrangebyscore (r : Redis) (key : String) (max : Int) : Except Err (List String) := do
  let z ← r.sortedAt key
  return z.upTo max

def zcard (r : Redis) (key : String) : Except Err Nat := do
  let z ← r.sortedAt key
  return z.card

def lpush (r : Redis) (key : String) (item : String) : Except Err Redis := do
  let items ← r.listAt key
  return Function.update r key (some (.list (item :: items)))

def llen (r : Redis) (key : String) : Except Err Nat := do
  let items ← r.listAt key
  return items.length

/-- The score a member has under a key, `none` when the key holds no sorted set. -/
def zscore (r : Redis) (key member : String) : Option Int :=
  match r key with
  | some (.zset z) => z.score member
  | _ => none

theorem sortedAt_score {r : Redis} {key : String} {z : SortedSet String Int}
    (h : r.sortedAt key = .ok z) (m : String) : z.score m = r.zscore key m := by
  unfold sortedAt at h
  unfold zscore
  split at h <;> cases h <;> simp_all

theorem zscore_putSorted (r : Redis) (key : String) (z : SortedSet String Int) (k m : String) :
    (r.putSorted key z).zscore k m = if k = key then z.score m else r.zscore k m := by
  unfold putSorted zscore
  by_cases hk : k = key
  · subst hk
    by_cases hz : z.card = 0
    · simp [hz, SortedSet.card_eq_zero hz]
    · simp [hz]
  · simp [hk]

/-- A command that succeeds found a sorted set under its key, possibly an empty one. -/
theorem bind_sortedAt {α : Type} {r : Redis} {key : String} {x : α}
    {f : SortedSet String Int → Except Err α} (h : r.sortedAt key >>= f = .ok x) :
    ∃ z, r.sortedAt key = .ok z ∧ f z = .ok x := by
  cases hz : r.sortedAt key with
  | error e =>
    rw [hz] at h
    cases h
  | ok z =>
    rw [hz] at h
    exact ⟨z, rfl, h⟩

/-- The only error of a command on a sorted set. -/
theorem sortedAt_error {r : Redis} {key : String} {x : Err} (h : r.sortedAt key = .error x) :
    x = .wrongType := by
  unfold sortedAt at h
  split at h <;> cases h
  rfl

theorem zadd_error {r : Redis} {key m : String} {s : Int} {x : Err}
    (h : r.zadd key s m = .error x) : x = .wrongType := by
  unfold zadd at h
  cases hz : r.sortedAt key with
  | error y =>
    rw [hz] at h
    cases h
    exact sortedAt_error hz
  | ok z =>
    rw [hz] at h
    cases h

theorem zrem_error {r : Redis} {key m : String} {x : Err} (h : r.zrem key m = .error x) :
    x = .wrongType := by
  unfold zrem at h
  cases hz : r.sortedAt key with
  | error y =>
    rw [hz] at h
    cases h
    exact sortedAt_error hz
  | ok z =>
    rw [hz] at h
    cases h

theorem zadd_ok {r r' : Redis} {key m : String} {s : Int} (h : r.zadd key s m = .ok r') :
    ∃ z, r.sortedAt key = .ok z ∧ r' = r.putSorted key (z.add s m) := by
  obtain ⟨z, hz, hr⟩ := bind_sortedAt h
  exact ⟨z, hz, (Except.ok.inj hr).symm⟩

theorem zrem_ok {r r' : Redis} {key m : String} (h : r.zrem key m = .ok r') :
    ∃ z, r.sortedAt key = .ok z ∧ r' = r.putSorted key (z.erase m) := by
  obtain ⟨z, hz, hr⟩ := bind_sortedAt h
  exact ⟨z, hz, (Except.ok.inj hr).symm⟩

theorem zpopmin_ok {r r' : Redis} {key : String} {popped : Option String}
    (h : r.zpopmin key = .ok (r', popped)) : ∃ z, r.sortedAt key = .ok z ∧
      ((z.popMin = none ∧ popped = none ∧ r' = r) ∨
        ∃ e z', z.popMin = some (e, z') ∧ popped = some e.2 ∧ r' = r.putSorted key z') := by
  obtain ⟨z, hz, hr⟩ := bind_sortedAt h
  refine ⟨z, hz, ?_⟩
  split at hr
  · next hp =>
    obtain ⟨rfl, rfl⟩ := Prod.mk.inj (Except.ok.inj hr)
    exact .inl ⟨hp, rfl, rfl⟩
  · next e z' hp =>
    obtain ⟨rfl, rfl⟩ := Prod.mk.inj (Except.ok.inj hr)
    exact .inr ⟨e, z', hp, rfl, rfl⟩

theorem lpush_ok {r r' : Redis} {key item : String} (h : r.lpush key item = .ok r') :
    ∃ items, r.listAt key = .ok items ∧
      r' = Function.update r key (some (.list (item :: items))) := by
  unfold lpush at h
  cases hl : r.listAt key with
  | error e =>
    rw [hl] at h
    cases h
  | ok items =>
    rw [hl] at h
    exact ⟨items, rfl, (Except.ok.inj h).symm⟩

/-- The only error of a command on a list. -/
theorem lpush_error {r : Redis} {key item : String} {x : Err} (h : r.lpush key item = .error x) :
    x = .wrongType := by
  unfold lpush listAt at h
  split at h <;> cases h
  rfl

theorem zscore_zadd {r r' : Redis} {key m : String} {s : Int} (h : r.zadd key s m = .ok r')
    (k m' : String) :
    r'.zscore k m' = if k = key ∧ m' = m then some s else r.zscore k m' := by
  obtain ⟨z, hz, rfl⟩ := zadd_ok h
  rw [zscore_putSorted]
  by_cases hk : k = key
  · subst hk
    simp [sortedAt_score hz]
  · simp [hk]

theorem zscore_zrem {r r' : Redis} {key m : String} (h : r.zrem key m = .ok r') (k m' : String) :
    r'.zscore k m' = if k = key ∧ m' = m then none else r.zscore k m' := by
  obtain ⟨z, hz, rfl⟩ := zrem_ok h
  rw [zscore_putSorted]
  by_cases hk : k = key
  · subst hk
    simp [sortedAt_score hz]
  · simp [hk]

/-- `ZPOPMIN` takes one member with a least score, or finds the key empty. -/
theorem zscore_zpopmin {r r' : Redis} {key : String} {popped : Option String}
    (h : r.zpopmin key = .ok (r', popped)) :
    (popped = none ∧ r' = r ∧ ∀ m, r.zscore key m = none) ∨
    ∃ m s, popped = some m ∧ r.zscore key m = some s ∧
      (∀ k m', r'.zscore k m' = if k = key ∧ m' = m then none else r.zscore k m') ∧
      ∀ m' s', r.zscore key m' = some s' → SortedSet.Precedes (s, m) (s', m') := by
  obtain ⟨z, hz, ⟨hp, rfl, rfl⟩ | ⟨e, z', hp, rfl, rfl⟩⟩ := zpopmin_ok h
  · exact .inl ⟨rfl, rfl, fun m => sortedAt_score hz m ▸ SortedSet.popMin_eq_none hp m⟩
  · obtain ⟨hs, hrest, hleast⟩ := SortedSet.popMin_eq_some hp
    refine .inr ⟨e.2, e.1, rfl, sortedAt_score hz _ ▸ hs, ?_, ?_⟩
    · intro k m'
      rw [zscore_putSorted]
      by_cases hk : k = key
      · subst hk
        simp [hrest, sortedAt_score hz]
      · simp [hk]
    · intro m' s' hm
      exact hleast s' m' ((sortedAt_score hz m').trans hm)

/-- `ZCARD` counts the members. -/
theorem zcard_ok {r : Redis} {key : String} {n : Nat} (h : r.zcard key = .ok n) :
    ∃ members : List String, members.Nodup ∧ members.length = n ∧
      ∀ m, m ∈ members ↔ r.zscore key m ≠ none := by
  obtain ⟨z, hz, hn⟩ := bind_sortedAt h
  obtain rfl := Except.ok.inj hn
  refine ⟨z.entries.map Prod.snd, z.nodup, List.length_map _, fun m => ?_⟩
  rw [← sortedAt_score hz, Option.ne_none_iff_exists', List.mem_map]
  simp only [← SortedSet.mem_entries_iff]
  constructor
  · rintro ⟨⟨s, _⟩, he, rfl⟩
    exact ⟨s, he⟩
  · rintro ⟨s, he⟩
    exact ⟨(s, m), he, rfl⟩

theorem mem_zrangebyscore {r : Redis} {key : String} {max : Int} {members : List String}
    (h : r.zrangebyscore key max = .ok members) (m : String) :
    m ∈ members ↔ ∃ s, r.zscore key m = some s ∧ s ≤ max := by
  obtain ⟨z, hz, hm⟩ := bind_sortedAt h
  obtain rfl := Except.ok.inj hm
  rw [SortedSet.mem_upTo]
  simp only [sortedAt_score hz]

/-- `LPUSH` runs only where there is no sorted set, so no score changes. -/
theorem zscore_lpush {r r' : Redis} {key item : String} (h : r.lpush key item = .ok r')
    (k m : String) : r'.zscore k m = r.zscore k m := by
  obtain ⟨items, hl, rfl⟩ := lpush_ok h
  unfold zscore
  by_cases hk : k = key
  · subst hk
    unfold listAt at hl
    split at hl <;> simp_all
  · rw [Function.update_of_ne hk]

end Redis

end JobFlow.Model
