import Mathlib.Data.List.Sort
import Mathlib.Order.Defs.LinearOrder

/-!
# Sets of members kept in the order of their scores

A sorted set maps each member to one score and is read in the order of the
scores, members of one score in their own order. The representation is the
list of entries in that order; both the order and the uniqueness of members
are fields, so every value of the type is a well-formed set.
-/

namespace JobFlow.Lib.SortedSet

variable {α β : Type*} [LinearOrder α] [LinearOrder β]

/-- Reading order of two entries, each a score and a member. -/
def Precedes (x y : β × α) : Prop := x.1 < y.1 ∨ (x.1 = y.1 ∧ x.2 ≤ y.2)

instance : DecidableRel (Precedes (α := α) (β := β)) := fun x y =>
  inferInstanceAs (Decidable (x.1 < y.1 ∨ (x.1 = y.1 ∧ x.2 ≤ y.2)))

instance : Std.Total (Precedes (α := α) (β := β)) where
  total x y := by
    unfold Precedes
    rcases lt_trichotomy x.1 y.1 with h | h | h
    · exact .inl (.inl h)
    · rcases le_total x.2 y.2 with hm | hm
      · exact .inl (.inr ⟨h, hm⟩)
      · exact .inr (.inr ⟨h.symm, hm⟩)
    · exact .inr (.inl h)

instance : IsTrans (β × α) Precedes where
  trans x y z hxy hyz := by
    rcases hxy with hxy | ⟨hxy, hm⟩ <;> rcases hyz with hyz | ⟨hyz, hm'⟩
    · exact .inl (hxy.trans hyz)
    · exact .inl (hyz ▸ hxy)
    · exact .inl (hxy ▸ hyz)
    · exact .inr ⟨hxy.trans hyz, hm.trans hm'⟩

end JobFlow.Lib.SortedSet

namespace JobFlow.Lib

open SortedSet (Precedes)

/-- Members of `α` with scores in `β`. -/
structure SortedSet (α β : Type*) [LinearOrder α] [LinearOrder β] where
  entries : List (β × α)
  sorted : entries.Pairwise Precedes
  nodup : (entries.map Prod.snd).Nodup

namespace SortedSet

variable {α β : Type*} [LinearOrder α] [LinearOrder β]

def empty : SortedSet α β := ⟨[], .nil, .nil⟩

/-- The score of a member, `none` when it is absent. -/
def score (z : SortedSet α β) (m : α) : Option β :=
  (z.entries.find? fun e => e.2 = m).map Prod.fst

def card (z : SortedSet α β) : Nat := z.entries.length

def erase (z : SortedSet α β) (m : α) : SortedSet α β where
  entries := z.entries.filter fun e => e.2 ≠ m
  sorted := z.sorted.filter _
  nodup := z.nodup.sublist (List.filter_sublist.map _)

theorem notMem_erase (z : SortedSet α β) (m : α) : m ∉ (z.erase m).entries.map Prod.snd := by
  simp [erase]

/-- Set the score of a member, inserting it when it is absent. -/
def add (z : SortedSet α β) (s : β) (m : α) : SortedSet α β where
  entries := (z.erase m).entries.orderedInsert Precedes (s, m)
  sorted := (z.erase m).sorted.orderedInsert _ _
  nodup := by
    have hp := (List.perm_orderedInsert Precedes (s, m) (z.erase m).entries).map Prod.snd
    rw [hp.nodup_iff, List.map_cons, List.nodup_cons]
    exact ⟨z.notMem_erase m, (z.erase m).nodup⟩

/-- Everything after the first entry. -/
def tail (z : SortedSet α β) : SortedSet α β where
  entries := z.entries.tail
  sorted := z.sorted.sublist (List.tail_sublist _)
  nodup := z.nodup.sublist ((List.tail_sublist _).map _)

/-- Take the first entry in reading order. -/
def popMin (z : SortedSet α β) : Option ((β × α) × SortedSet α β) :=
  z.entries.head?.map fun e => (e, z.tail)

/-- Members whose score is at most the bound, in reading order. -/
def upTo (z : SortedSet α β) (b : β) : List α :=
  (z.entries.filter fun e => e.1 ≤ b).map Prod.snd

theorem mem_entries_iff (z : SortedSet α β) (s : β) (m : α) :
    (s, m) ∈ z.entries ↔ z.score m = some s := by
  unfold score
  constructor
  · intro h
    cases hf : z.entries.find? (fun e => e.2 = m) with
    | none => simpa using List.find?_eq_none.mp hf _ h
    | some e =>
      have hm : e.2 = m := by simpa using List.find?_some hf
      have heq : e = (s, m) :=
        List.inj_on_of_nodup_map z.nodup (List.mem_of_find?_eq_some hf) h hm
      rw [heq, Option.map_some]
  · intro h
    obtain ⟨e, hf, hs⟩ := Option.map_eq_some_iff.mp h
    have hm : e.2 = m := by simpa using List.find?_some hf
    have heq : e = (s, m) := Prod.ext hs hm
    exact heq ▸ List.mem_of_find?_eq_some hf

/-- Two sorted sets that hold the same entries give every member the same score. -/
theorem score_eq_of_mem_iff {z z' : SortedSet α β} {m : α}
    (h : ∀ s, (s, m) ∈ z.entries ↔ (s, m) ∈ z'.entries) : z.score m = z'.score m := by
  apply Option.ext
  intro s
  rw [← mem_entries_iff, ← mem_entries_iff, h]

@[simp] theorem score_empty (m : α) : (empty : SortedSet α β).score m = none := rfl

@[simp] theorem score_erase (z : SortedSet α β) (m m' : α) :
    (z.erase m).score m' = if m' = m then none else z.score m' := by
  split
  · next h =>
    subst h
    rw [Option.eq_none_iff_forall_ne_some]
    intro s hs
    rw [← mem_entries_iff] at hs
    exact z.notMem_erase m' (List.mem_map.mpr ⟨_, hs, rfl⟩)
  · next h =>
    apply score_eq_of_mem_iff
    intro s
    simp [erase, h]

@[simp] theorem score_add (z : SortedSet α β) (s : β) (m m' : α) :
    (z.add s m).score m' = if m' = m then some s else z.score m' := by
  split
  · next h =>
    subst h
    rw [← mem_entries_iff]
    simp [add]
  · next h =>
    have he : (z.add s m).score m' = (z.erase m).score m' := by
      apply score_eq_of_mem_iff
      intro s'
      simp [add, h]
    rw [he, score_erase, if_neg h]

/-- The entry taken is a least one, and exactly its member leaves the set. -/
theorem popMin_eq_some {z z' : SortedSet α β} {e : β × α} (h : z.popMin = some (e, z')) :
    z.score e.2 = some e.1 ∧
    (∀ m, z'.score m = if m = e.2 then none else z.score m) ∧
    ∀ s m, z.score m = some s → Precedes e (s, m) := by
  obtain ⟨e', hhead, hp⟩ := Option.map_eq_some_iff.mp h
  obtain ⟨rfl, rfl⟩ := Prod.mk.inj hp
  obtain ⟨rest, he⟩ := List.head?_eq_some_iff.mp hhead
  have hn := z.nodup
  have hs := z.sorted
  rw [he, List.map_cons, List.nodup_cons] at hn
  rw [he, List.pairwise_cons] at hs
  have ht : z.tail.entries = rest := by simp [tail, he]
  refine ⟨?_, ?_, ?_⟩
  · rw [← mem_entries_iff, he]
    exact List.mem_cons_self
  · intro m
    split
    · next hm =>
      subst hm
      rw [Option.eq_none_iff_forall_ne_some]
      intro s hs'
      rw [← mem_entries_iff, ht] at hs'
      exact hn.1 (List.mem_map.mpr ⟨_, hs', rfl⟩)
    · next hm =>
      apply score_eq_of_mem_iff
      intro s
      rw [ht, he, List.mem_cons]
      exact ⟨.inr, fun hor => hor.resolve_left fun hp => hm (congrArg Prod.snd hp)⟩
  · intro s m hm
    rw [← mem_entries_iff, he, List.mem_cons] at hm
    rcases hm with rfl | hm
    · exact .inr ⟨rfl, le_refl _⟩
    · exact hs.1 _ hm

theorem popMin_eq_none {z : SortedSet α β} (h : z.popMin = none) (m : α) : z.score m = none := by
  have he : z.entries = [] := by simpa [popMin] using h
  simp [score, he]

theorem mem_upTo (z : SortedSet α β) (b : β) (m : α) :
    m ∈ z.upTo b ↔ ∃ s, z.score m = some s ∧ s ≤ b := by
  simp only [upTo, List.mem_map, List.mem_filter, decide_eq_true_eq, Prod.exists,
    exists_eq_right, mem_entries_iff]

theorem card_eq_zero {z : SortedSet α β} (h : z.card = 0) (m : α) : z.score m = none := by
  simp [score, List.eq_nil_of_length_eq_zero h]

end SortedSet

end JobFlow.Lib
