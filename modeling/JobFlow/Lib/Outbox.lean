import Mathlib.Data.List.Basic

/-!
# Parties that commit first and publish later

Each party commits entries to a common log and publishes its own entries to a common
channel at some later time. If no entry is committed while any party still owes one,
the channel carries the log in order.
-/

namespace JobFlow.Lib.Outbox

variable {π α : Type*}

/-- At most one party owes entries, and these are what the channel lacks. -/
def InOrder (log out : List α) (owed : π → List α) : Prop :=
  ∃ p, (∀ q, q ≠ p → owed q = []) ∧ log = out ++ owed p

namespace InOrder

variable {log out commits outs : List α} {owed owed' : π → List α} {q : π}

theorem start (p : π) : InOrder ([] : List α) [] fun _ : π => [] := ⟨p, fun _ _ => rfl, rfl⟩

theorem channel_isPrefix (h : InOrder log out owed) : out <+: log := by
  obtain ⟨p, -, rfl⟩ := h
  exact List.prefix_append _ _

/-- A party commits entries, publishes some it owes first, and still owes the others. -/
theorem move (h : InOrder log out owed) (hother : ∀ p, p ≠ q → owed' p = owed p)
    (hmove : owed q ++ commits = outs ++ owed' q)
    (hfree : commits ≠ [] → ∀ p, owed p = []) :
    InOrder (log ++ commits) (out ++ outs) owed' := by
  obtain ⟨p, honly, rfl⟩ := h
  by_cases hqp : q = p
  · subst hqp
    refine ⟨q, fun x hx => (hother x hx).trans (honly x hx), ?_⟩
    rw [List.append_assoc, List.append_assoc, hmove]
  · rw [honly q hqp, List.nil_append] at hmove
    by_cases hc : commits = []
    · obtain ⟨rfl, hnone⟩ := List.append_eq_nil_iff.mp (hmove.symm.trans hc)
      refine ⟨p, fun x hx => ?_, by simp [hc, hother p (Ne.symm hqp)]⟩
      by_cases hxq : x = q
      · rw [hxq, hnone]
      · rw [hother x hxq, honly x hx]
    · -- nobody owes anything, so the channel has the whole log
      have hnone := hfree hc
      refine ⟨q, fun x hx => (hother x hx).trans (hnone x), ?_⟩
      rw [hnone p, List.append_nil, hmove, List.append_assoc]

end InOrder

end JobFlow.Lib.Outbox
