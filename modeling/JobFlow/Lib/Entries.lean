import Mathlib.Data.List.Nodup
import Mathlib.Data.List.Perm.Subperm

/-!
# Maps that keep the order of insertion

A list of entries with each key once. A key that is set again keeps its place and takes
the new value.
-/

namespace JobFlow.Lib.Entries

variable {κ α : Type*} [DecidableEq κ]

/-- Set the value of a key, in its place or at the end. -/
def set (key : κ) (value : α) : List (κ × α) → List (κ × α)
  | [] => [(key, value)]
  | (k, v) :: rest => if k = key then (key, value) :: rest else (k, v) :: set key value rest

/-- The entries set one after the other. -/
def fromEntries (entries : List (κ × α)) : List (κ × α) :=
  entries.foldl (fun m e => set e.1 e.2 m) []

def keys (entries : List (κ × α)) : List κ := entries.map Prod.fst

theorem mem_keys_set (key k : κ) (value : α) (m : List (κ × α)) :
    k ∈ keys (set key value m) ↔ k = key ∨ k ∈ keys m := by
  induction m with
  | nil => simp [set, keys]
  | cons e rest ih =>
    obtain ⟨k', v⟩ := e
    rw [set]
    split_ifs with h
    · simp [keys, h]
    · simp only [keys, List.map_cons, List.mem_cons] at ih ⊢
      rw [ih]
      exact or_left_comm

theorem nodup_keys_set {m : List (κ × α)} (h : (keys m).Nodup) (key : κ) (value : α) :
    (keys (set key value m)).Nodup := by
  induction m with
  | nil => exact List.nodup_singleton _
  | cons e rest ih =>
    obtain ⟨k, v⟩ := e
    obtain ⟨hk, hrest⟩ := List.nodup_cons.mp h
    rw [set]
    split_ifs with heq
    · exact heq ▸ h
    · refine List.nodup_cons.mpr ⟨fun hmem => ?_, ih hrest⟩
      exact ((mem_keys_set key k value rest).mp hmem).elim heq hk

/-- A key that is not there is set at the end. -/
theorem set_of_notMem {m : List (κ × α)} {key : κ} (h : key ∉ keys m) (value : α) :
    set key value m = m ++ [(key, value)] := by
  induction m with
  | nil => rfl
  | cons e rest ih =>
    rw [keys, List.map_cons, List.mem_cons, not_or] at h
    obtain ⟨hne, hrest⟩ := h
    rw [set, if_neg (Ne.symm hne), ih hrest, List.cons_append]

/-- The keys of a map that further entries are set in. -/
theorem keys_foldl (entries : List (κ × α)) {m : List (κ × α)} (h : (keys m).Nodup) :
    (keys (entries.foldl (fun m e => set e.1 e.2 m) m)).Nodup ∧
      ∀ k, k ∈ keys (entries.foldl (fun m e => set e.1 e.2 m) m) ↔ k ∈ keys m ∨ k ∈ keys entries := by
  induction entries generalizing m with
  | nil => exact ⟨h, by simp [keys]⟩
  | cons e rest ih =>
    obtain ⟨hnodup, hmem⟩ := ih (nodup_keys_set h e.1 e.2)
    refine ⟨hnodup, fun k => (hmem k).trans ?_⟩
    have hcons : k ∈ keys (e :: rest) ↔ k = e.1 ∨ k ∈ keys rest := List.mem_cons
    rw [mem_keys_set, hcons, or_assoc, or_left_comm]

omit [DecidableEq κ] in
theorem nodup_keys_nil : (keys ([] : List (κ × α))).Nodup := List.nodup_nil

theorem nodup_keys_fromEntries (entries : List (κ × α)) : (keys (fromEntries entries)).Nodup :=
  (keys_foldl entries nodup_keys_nil).1

theorem mem_keys_fromEntries (entries : List (κ × α)) (k : κ) :
    k ∈ keys (fromEntries entries) ↔ k ∈ keys entries := by
  rw [fromEntries, (keys_foldl entries nodup_keys_nil).2 k]
  simp [keys]

theorem foldl_set_of_nodup (entries m : List (κ × α)) (h : (keys (m ++ entries)).Nodup) :
    entries.foldl (fun m e => set e.1 e.2 m) m = m ++ entries := by
  induction entries generalizing m with
  | nil => exact (List.append_nil m).symm
  | cons e rest ih =>
    have hnew : e.1 ∉ keys m := by
      rw [keys, List.map_append, List.map_cons] at h
      exact fun hmem => (List.nodup_append.mp h).2.2 e.1 hmem e.1 List.mem_cons_self rfl
    have hsplit : m ++ e :: rest = m ++ [e] ++ rest := by simp
    rw [hsplit] at h ⊢
    rw [List.foldl_cons, set_of_notMem hnew]
    exact ih _ h

/-- Entries with distinct keys are kept as they are. -/
theorem fromEntries_of_nodup {entries : List (κ × α)} (h : (keys entries).Nodup) :
    fromEntries entries = entries := foldl_set_of_nodup entries [] h

/-- No entry is lost exactly when the keys are distinct. -/
theorem length_fromEntries_eq_iff (entries : List (κ × α)) :
    (fromEntries entries).length = entries.length ↔ (keys entries).Nodup := by
  refine ⟨fun hlen => ?_, fun h => by rw [fromEntries_of_nodup h]⟩
  have hnodup := nodup_keys_fromEntries entries
  have hsub : keys (fromEntries entries) ⊆ keys entries :=
    fun k => (mem_keys_fromEntries entries k).mp
  have hle : (keys entries).length ≤ (keys (fromEntries entries)).length := by
    simp only [keys, List.length_map]
    exact Nat.le_of_eq hlen.symm
  have hperm := (hnodup.subperm hsub).perm_of_length_le hle
  exact hperm.nodup_iff.mp hnodup

end JobFlow.Lib.Entries
