import Mathlib.Data.Set.Card

/-!
# Members that wait to be taken in order

Members wait with a rank, and the one that is taken has a least rank. Who may still be taken
before a member is then a finite set that an arrival enlarges by at most one, and only if its
rank is not greater, while every other member that is taken leaves it.
-/

namespace JobFlow.Lib.Waiting

variable {α β : Type*} [LE β] {rank rank' : α → Option β} {m j : α} {b b' : β}

/-- The others that may be taken before `m`, which waits with rank `b`. -/
def ahead (rank : α → Option β) (m : α) (b : β) : Set α :=
  {j | j ≠ m ∧ ∃ b', rank j = some b' ∧ b' ≤ b}

/-- The member waits, and nobody who waits has a smaller rank. -/
def IsLeast (rank : α → Option β) (m : α) : Prop :=
  ∃ b, rank m = some b ∧ ∀ j b', rank j = some b' → b ≤ b'

theorem ahead_finite (hfin : {j | rank j ≠ none}.Finite) (m : α) (b : β) :
    (ahead rank m b).Finite := by
  refine hfin.subset fun j hj => ?_
  obtain ⟨-, b', hb', -⟩ := hj
  exact Option.ne_none_iff_exists'.mpr ⟨b', hb'⟩

/-- Whoever is least is `m` or ahead of it. -/
theorem IsLeast.mem_ahead (h : IsLeast rank j) (hm : rank m = some b) (hne : j ≠ m) :
    j ∈ ahead rank m b := by
  obtain ⟨b', hb', hleast⟩ := h
  exact ⟨hne, b', hb', hleast m b hm⟩

variable [DecidableEq α]

theorem ncard_ahead_put [DecidableLE β] (hfin : {j | rank j ≠ none}.Finite) (m j : α) (b b' : β) :
    (ahead (Function.update rank j (some b')) m b).ncard ≤
      (ahead rank m b).ncard + if b' ≤ b then 1 else 0 := by
  have hold : (ahead rank m b).Finite := ahead_finite hfin m b
  split
  · next hle =>
    refine (Set.ncard_le_ncard ?_ (hold.insert j)).trans (Set.ncard_insert_le j _)
    intro i hi
    obtain ⟨hne, c, hc, hcb⟩ := hi
    by_cases hij : i = j
    · exact .inl hij
    · rw [Function.update_of_ne hij] at hc
      exact .inr ⟨hne, c, hc, hcb⟩
  · next hlt =>
    refine Set.ncard_le_ncard ?_ hold
    intro i hi
    obtain ⟨hne, c, hc, hcb⟩ := hi
    by_cases hij : i = j
    · rw [hij, Function.update_self] at hc
      cases hc
      exact absurd hcb hlt
    · rw [Function.update_of_ne hij] at hc
      exact ⟨hne, c, hc, hcb⟩

theorem ncard_ahead_take (hfin : {j | rank j ≠ none}.Finite) (hj : j ∈ ahead rank m b) :
    (ahead (Function.update rank j none) m b).ncard + 1 = (ahead rank m b).ncard := by
  have hrest : ahead (Function.update rank j none) m b = ahead rank m b \ {j} := by
    ext i
    simp only [ahead, Set.mem_sdiff, Set.mem_ofPred_eq, Set.mem_singleton_iff,
      Function.update_apply]
    constructor
    · intro ⟨hne, c, hc, hcb⟩
      split at hc
      · cases hc
      · next hij => exact ⟨⟨hne, c, hc, hcb⟩, hij⟩
    · intro ⟨⟨hne, c, hc, hcb⟩, hij⟩
      exact ⟨hne, c, (if_neg hij).trans hc, hcb⟩
  rw [hrest]
  exact Set.ncard_sdiff_singleton_add_one hj (ahead_finite hfin m b)

end JobFlow.Lib.Waiting
