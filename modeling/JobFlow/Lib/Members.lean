import Mathlib.Data.List.Basic
import Mathlib.Order.Basic
import Mathlib.Order.Lattice

/-!
# The members of an object

A map written as a list in the order of its keys, each key once.
-/

namespace JobFlow.Lib.Members

variable {κ α β : Type*} [LinearOrder κ]

/-- Set the value of a key. -/
def put (key : κ) (value : α) : List (κ × α) → List (κ × α)
  | [] => [(key, value)]
  | (k, v) :: rest =>
    if key < k then (key, value) :: (k, v) :: rest
    else if key = k then (key, value) :: rest
    else (k, v) :: put key value rest

/-- Set one after the other; the last value of a key counts. -/
def putAll (members fields : List (κ × α)) : List (κ × α) :=
  fields.foldl (fun m f => put f.1 f.2 m) members

def Sorted (members : List (κ × α)) : Prop := members.Pairwise fun a b => a.1 < b.1

theorem mem_put {key : κ} {value : α} {members : List (κ × α)} {p : κ × α}
    (h : p ∈ put key value members) : p = (key, value) ∨ p ∈ members := by
  induction members with
  | nil => exact .inl (List.mem_singleton.mp h)
  | cons m rest ih =>
    simp only [put] at h
    split_ifs at h
    · exact List.mem_cons.mp h
    · exact (List.mem_cons.mp h).imp_right (List.mem_cons_of_mem _)
    · rcases List.mem_cons.mp h with rfl | h
      · exact .inr List.mem_cons_self
      · exact (ih h).imp_right (List.mem_cons_of_mem _)

theorem sorted_put {members : List (κ × α)} (h : Sorted members) (key : κ) (value : α) :
    Sorted (put key value members) := by
  induction members with
  | nil => exact List.pairwise_singleton _ _
  | cons m rest ih =>
    obtain ⟨hm, hrest⟩ := List.pairwise_cons.mp h
    simp only [put]
    split_ifs with hlt heq
    · refine List.pairwise_cons.mpr ⟨fun p hp => ?_, h⟩
      rcases List.mem_cons.mp hp with rfl | hp
      · exact hlt
      · exact hlt.trans (hm p hp)
    · exact List.pairwise_cons.mpr ⟨fun p hp => heq ▸ hm p hp, hrest⟩
    · refine List.pairwise_cons.mpr ⟨fun p hp => ?_, ih hrest⟩
      rcases mem_put hp with rfl | hp
      · exact lt_of_le_of_ne (not_lt.mp hlt) (Ne.symm heq)
      · exact hm p hp

theorem sorted_putAll {members : List (κ × α)} (h : Sorted members) (fields : List (κ × α)) :
    Sorted (putAll members fields) := by
  induction fields generalizing members with
  | nil => exact h
  | cons f fields ih => exact ih (sorted_put h f.1 f.2)

theorem mem_putAll {members fields : List (κ × α)} {p : κ × α} (h : p ∈ putAll members fields) :
    p ∈ members ∨ p ∈ fields := by
  induction fields generalizing members with
  | nil => exact .inl h
  | cons f fields ih =>
    rcases ih h with h | h
    · rcases mem_put h with rfl | h
      · exact .inr List.mem_cons_self
      · exact .inl h
    · exact .inr (List.mem_cons_of_mem _ h)

/-- A key after all others is put at the end. -/
theorem put_last {members : List (κ × α)} {key : κ} (h : ∀ m ∈ members, m.1 < key) (value : α) :
    put key value members = members ++ [(key, value)] := by
  induction members with
  | nil => rfl
  | cons m rest ih =>
    have hm := h m List.mem_cons_self
    rw [put, if_neg (not_lt.mpr hm.le), if_neg hm.ne', List.cons_append,
      ih fun p hp => h p (List.mem_cons_of_mem _ hp)]

theorem putAll_sorted {members fields : List (κ × α)} (h : Sorted (members ++ fields)) :
    putAll members fields = members ++ fields := by
  induction fields generalizing members with
  | nil => exact (List.append_nil _).symm
  | cons f fields ih =>
    have hlt : ∀ m ∈ members, m.1 < f.1 := fun m hm =>
      (List.pairwise_append.mp h).2.2 m hm f List.mem_cons_self
    have hcons : members ++ f :: fields = members ++ [f] ++ fields := by simp
    rw [hcons] at h ⊢
    rw [← ih h, ← put_last hlt f.2]
    rfl

/-- Members that are in order are kept as they are. -/
theorem putAll_nil {fields : List (κ × α)} (h : Sorted fields) : putAll [] fields = fields :=
  putAll_sorted h

section Lookup

variable [BEq κ] [LawfulBEq κ]

theorem lookup_put (key k : κ) (value : α) (members : List (κ × α)) :
    (put key value members).lookup k = if k = key then some value else members.lookup k := by
  induction members with
  | nil =>
    rw [put, List.lookup_cons]
    split
    next h => rw [if_pos (beq_iff_eq.mp h)]
    next h => rw [if_neg (beq_eq_false_iff_ne.mp h)]
  | cons m rest ih =>
    rw [put]
    by_cases hk : k = key
    · rw [if_pos hk, hk] at ih ⊢
      split_ifs with hlt heq
      · exact List.lookup_cons_self
      · exact List.lookup_cons_self
      · rw [List.lookup_cons, beq_eq_false_iff_ne.mpr heq, ih]
    · have hne := beq_eq_false_iff_ne.mpr hk
      rw [if_neg hk] at ih ⊢
      split_ifs with hlt heq
      · rw [List.lookup_cons, hne]
      · rw [List.lookup_cons, List.lookup_cons, ← heq, hne]
      · rw [List.lookup_cons, List.lookup_cons, ih]

/-- A value that is there already. -/
theorem put_of_lookup {members : List (κ × α)} (h : Sorted members) {key : κ} {value : α}
    (hlookup : members.lookup key = some value) : put key value members = members := by
  induction members with
  | nil => cases hlookup
  | cons m rest ih =>
    obtain ⟨hm, hrest⟩ := List.pairwise_cons.mp h
    rw [List.lookup_cons] at hlookup
    rw [put]
    by_cases heq : key = m.1
    · rw [beq_iff_eq.mpr heq] at hlookup
      rw [if_neg heq.not_lt, if_pos heq, heq, ← Option.some.inj hlookup]
    · rw [beq_eq_false_iff_ne.mpr heq] at hlookup
      have hlt : ¬ key < m.1 := by
        obtain ⟨before, after, hsplit, -⟩ := List.lookup_eq_some_iff.mp hlookup
        exact (hm (key, value) (hsplit ▸ List.mem_append_right _ List.mem_cons_self)).not_gt
      rw [if_neg hlt, if_neg heq, ih hrest hlookup]

/-- The last value of a key counts. -/
theorem lookup_putAll (k : κ) (members fields : List (κ × α)) :
    (putAll members fields).lookup k = (fields.reverse.lookup k).or (members.lookup k) := by
  induction fields generalizing members with
  | nil => rfl
  | cons f fields ih =>
    have hstep : putAll members (f :: fields) = putAll (put f.1 f.2 members) fields := rfl
    rw [hstep, ih, lookup_put, List.reverse_cons, List.lookup_append, Option.or_assoc,
      List.lookup_cons]
    by_cases hk : k = f.1
    · rw [if_pos hk, beq_iff_eq.mpr hk, Option.some_or]
    · rw [if_neg hk, beq_eq_false_iff_ne.mpr hk, List.lookup_nil, Option.none_or]

end Lookup

variable (f : α → β)

/-- The same keys with other values. -/
def mapValues (members : List (κ × α)) : List (κ × β) := members.map fun p => (p.1, f p.2)

omit [LinearOrder κ] in
theorem mapValues_mapValues {γ : Type*} (g : β → γ) (members : List (κ × α)) :
    mapValues g (mapValues f members) = mapValues (fun a => g (f a)) members := List.map_map

theorem put_mapValues (key : κ) (value : α) (members : List (κ × α)) :
    put key (f value) (mapValues f members) = mapValues f (put key value members) := by
  induction members with
  | nil => rfl
  | cons m rest ih =>
    simp only [mapValues, List.map_cons, put] at ih ⊢
    split_ifs
    · rfl
    · rfl
    · rw [ih, List.map_cons]

theorem putAll_mapValues (members fields : List (κ × α)) :
    putAll (mapValues f members) (mapValues f fields) = mapValues f (putAll members fields) := by
  induction fields generalizing members with
  | nil => rfl
  | cons p fields ih =>
    have hput := put_mapValues f p.1 p.2 members
    have hstep := ih (put p.1 p.2 members)
    rw [← hput] at hstep
    exact hstep

omit [LinearOrder κ] in
theorem lookup_mapValues [BEq κ] (key : κ) (members : List (κ × α)) :
    (mapValues f members).lookup key = (members.lookup key).map f := by
  induction members with
  | nil => rfl
  | cons m rest ih =>
    rw [mapValues, List.map_cons, List.lookup_cons, List.lookup_cons]
    cases key == m.1 with
    | true => rfl
    | false => exact ih

theorem sorted_mapValues {members : List (κ × α)} (h : Sorted members) :
    Sorted (mapValues f members) := List.pairwise_map.mpr h

end JobFlow.Lib.Members
