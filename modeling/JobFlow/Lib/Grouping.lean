import Mathlib.Algebra.BigOperators.Group.List.Lemmas
import Mathlib.Algebra.GroupWithZero.Nat
import Mathlib.Data.List.AList

/-!
# Groups and their sizes

The answer of a `GROUP BY` with `COUNT(*)` has one pair for each key that occurs. A map that
is filled from all of these pairs holds the size of each group. One that is filled from some
of them only lacks a key that occurs, and its sizes sum to less than there are rows.
-/

namespace JobFlow.Lib.Grouping

variable {α : Type} [DecidableEq α]

/-- Each key that occurs, with how often it does. -/
def sizes (keys : List α) : List (α × Nat) :=
  keys.dedup.map fun k => (k, keys.count k)

/-- A map from keys to sizes. -/
abbrev Sizes (α : Type) := AList fun _ : α => Nat

namespace Sizes

/-- The size under a key, zero where there is none. -/
def get (m : Sizes α) (k : α) : Nat := (m.lookup k).getD 0

def sum (m : Sizes α) : Nat := (m.entries.map Sigma.snd).sum

/-- The map with the pairs put in, one after the other. -/
def fill (m : Sizes α) (pairs : List (α × Nat)) : Sizes α :=
  pairs.foldl (fun m pair => m.insert pair.1 pair.2) m

theorem get_insert (m : Sizes α) (k k' : α) (n : Nat) :
    (get (m.insert k n) k') = if k' = k then n else get m k' := by
  unfold get
  split
  · next h => rw [h, AList.lookup_insert, Option.getD_some]
  · next h => rw [AList.lookup_insert_ne h]

variable {m : Sizes α} {pairs : List (α × Nat)}

/-- New keys are added as they are. -/
theorem entries_fill (hkeys : (pairs.map Prod.fst).Nodup) (hnew : ∀ pair ∈ pairs, pair.1 ∉ m) :
    (fill m pairs).entries.Perm (pairs.map (fun pair => ⟨pair.1, pair.2⟩) ++ m.entries) := by
  induction pairs generalizing m with
  | nil => exact .refl _
  | cons pair pairs ih =>
    rw [List.map_cons, List.nodup_cons] at hkeys
    have hnot := hnew pair List.mem_cons_self
    have hrest : ∀ q ∈ pairs, q.1 ∉ m.insert pair.1 pair.2 := by
      intro q hq hmem
      rcases (AList.mem_insert m).mp hmem with heq | hm
      · exact hkeys.1 (heq ▸ List.mem_map_of_mem hq)
      · exact hnew q (List.mem_cons_of_mem _ hq) hm
    have hfill := ih hkeys.2 hrest
    rw [AList.entries_insert_of_notMem hnot] at hfill
    exact hfill.trans List.perm_middle

theorem entries_fill_empty (hkeys : (pairs.map Prod.fst).Nodup) :
    (fill ∅ pairs).entries.Perm (pairs.map fun pair => ⟨pair.1, pair.2⟩) := by
  have hperm := entries_fill (m := ∅) hkeys fun pair _ => AList.notMem_empty pair.1
  rwa [AList.empty_entries, List.append_nil] at hperm

theorem sum_fill_empty (hkeys : (pairs.map Prod.fst).Nodup) :
    (fill ∅ pairs).sum = (pairs.map Prod.snd).sum := by
  have hperm := (entries_fill_empty hkeys).map Sigma.snd
  rw [List.map_map] at hperm
  exact hperm.sum_eq

theorem lookup_fill (hkeys : (pairs.map Prod.fst).Nodup) (k : α) (n : Nat) :
    (fill ∅ pairs).lookup k = some n ↔ (k, n) ∈ pairs := by
  rw [← Option.mem_def, AList.mem_lookup_iff, (entries_fill_empty hkeys).mem_iff, List.mem_map]
  constructor
  · rintro ⟨pair, hpair, heq⟩
    cases heq
    exact hpair
  · exact fun hpair => ⟨(k, n), hpair, rfl⟩

theorem get_fill_of_mem (hkeys : (pairs.map Prod.fst).Nodup) {k : α} {n : Nat}
    (h : (k, n) ∈ pairs) : (fill ∅ pairs).get k = n := by
  rw [get, (lookup_fill hkeys k n).mpr h, Option.getD_some]

theorem lookup_fill_of_not_mem (hkeys : (pairs.map Prod.fst).Nodup) {k : α}
    (h : k ∉ pairs.map Prod.fst) : (fill ∅ pairs).lookup k = none := by
  cases hl : (fill ∅ pairs).lookup k with
  | none => rfl
  | some n => exact absurd (List.mem_map_of_mem ((lookup_fill hkeys k n).mp hl)) h

theorem get_fill_of_not_mem (hkeys : (pairs.map Prod.fst).Nodup) {k : α}
    (h : k ∉ pairs.map Prod.fst) : (fill ∅ pairs).get k = 0 := by
  rw [get, lookup_fill_of_not_mem hkeys h, Option.getD_none]

theorem erase_insert {k : α} (h : m.lookup k = none) (n : Nat) :
    AList.erase k (m.insert k n) = m := by
  refine AList.ext ?_
  change List.kerase k (m.insert k n).entries = m.entries
  rw [AList.entries_insert_of_notMem (AList.lookup_eq_none.mp h)]
  exact List.kerase_cons_eq rfl

end Sizes

variable {keys : List α} {answer : List (α × Nat)}

theorem keys_sizes (keys : List α) : (sizes keys).map Prod.fst = keys.dedup := by
  rw [sizes, List.map_map]
  exact List.map_id _

theorem nodup_answer (h : answer.Perm (sizes keys)) : (answer.map Prod.fst).Nodup := by
  rw [(h.map Prod.fst).nodup_iff, keys_sizes]
  exact keys.nodup_dedup

theorem mem_answer (h : answer.Perm (sizes keys)) {k : α} {n : Nat} :
    (k, n) ∈ answer ↔ k ∈ keys ∧ n = keys.count k := by
  rw [h.mem_iff, sizes, List.mem_map]
  simp only [List.mem_dedup, Prod.mk.injEq]
  constructor
  · rintro ⟨_, hk, rfl, rfl⟩
    exact ⟨hk, rfl⟩
  · rintro ⟨hk, rfl⟩
    exact ⟨k, hk, rfl, rfl⟩

theorem sum_answer (h : answer.Perm (sizes keys)) :
    (answer.map Prod.snd).sum = keys.length := by
  rw [(h.map Prod.snd).sum_eq, sizes, List.map_map]
  exact List.sum_map_count_dedup_eq_length keys

/-- From the whole answer, in whatever order, the map holds the size of each group. -/
theorem get_fill_answer (h : answer.Perm (sizes keys)) (k : α) :
    (Sizes.fill ∅ answer).get k = keys.count k := by
  by_cases hk : k ∈ keys
  · exact Sizes.get_fill_of_mem (nodup_answer h) ((mem_answer h).mpr ⟨hk, rfl⟩)
  · rw [List.count_eq_zero_of_not_mem hk]
    refine Sizes.get_fill_of_not_mem (nodup_answer h) ?_
    rw [(h.map Prod.fst).mem_iff, keys_sizes, List.mem_dedup]
    exact hk

/-- A group that is left out is missing in the map and in the sum. -/
theorem fill_take {n : Nat} (h : answer.Perm (sizes keys)) (hlt : n < answer.length) :
    ((answer.take n).map Prod.snd).sum < keys.length ∧
      ∃ k ∈ keys, (Sizes.fill ∅ (answer.take n)).get k = 0 := by
  have hsum := sum_answer h
  have hnodup := nodup_answer h
  rw [← List.take_append_drop n answer, List.map_append] at hnodup hsum
  rw [List.drop_eq_getElem_cons hlt] at hnodup hsum
  rw [List.sum_append, List.map_cons, List.sum_cons] at hsum
  rw [List.map_cons, List.nodup_append] at hnodup
  have hmem : (answer[n].1, answer[n].2) ∈ answer := List.getElem_mem hlt
  obtain ⟨hk, hcount⟩ := (mem_answer h).mp hmem
  have hpos := List.count_pos_iff.mpr hk
  refine ⟨by omega, _, hk, Sizes.get_fill_of_not_mem hnodup.1 fun htaken => ?_⟩
  exact hnodup.2.2 _ htaken _ List.mem_cons_self rfl

end JobFlow.Lib.Grouping
