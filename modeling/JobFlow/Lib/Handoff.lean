import Mathlib.Data.Set.Subsingleton

/-!
# Passing a single token between places

A token occupies a set of places. A step may vacate places, and may occupy one
new place if it vacates an old one for it. Under such steps the token never
multiplies, and a token that is nowhere does not come back.
-/

namespace JobFlow.Lib

variable {π : Type*}

/-- Every place occupied afterwards was occupied before, but for at most one, which
took the token over from a place that is now vacant. -/
def Handoff (before after : Set π) : Prop :=
  after ⊆ before ∨
  ∃ source ∈ before, source ∉ after ∧ ∃ target, ∀ x ∈ after, x ∈ before ∨ x = target

namespace Handoff

variable {before after : Set π}

theorem of_subset (h : after ⊆ before) : Handoff before after := .inl h

theorem subsingleton (h : Handoff before after) (hb : before.Subsingleton) :
    after.Subsingleton := by
  rcases h with h | ⟨source, hs, hgone, target, htarget⟩
  · exact hb.anti h
  · have hall : ∀ x ∈ after, x = target := by
      intro x hx
      refine (htarget x hx).resolve_left fun hxb => ?_
      exact hgone (hb hxb hs ▸ hx)
    intro x hx y hy
    rw [hall x hx, hall y hy]

theorem empty (h : Handoff before after) (hb : before = ∅) : after = ∅ := by
  rcases h with h | ⟨source, hs, -⟩
  · exact Set.subset_empty_iff.mp (hb ▸ h)
  · rw [hb] at hs
    exact hs.elim

end Handoff

end JobFlow.Lib
