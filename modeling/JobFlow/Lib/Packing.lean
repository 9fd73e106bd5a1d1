import JobFlow.Lib.SortedSet
import Mathlib.Data.Prod.Lex
import Mathlib.Data.Set.Finite.Lemmas
import Mathlib.Tactic.Linarith

/-!
# Two keys packed into one score

Members wait with a priority and the time since when they wait. The order meant
is higher priority first and earlier time second; the order kept is that of one
number, in which a step of priority counts as much as `base` units of time.
This module says exactly when the first member by the number is first by the
two keys, for any finite family of members with distinct times.
-/

namespace JobFlow.Lib.Packing

open SortedSet (Precedes)

structure Keys where
  priority : Int
  since : Int
  deriving DecidableEq

/-- The packed score; smaller scores go first. -/
def pack (base : Int) (k : Keys) : Int := -k.priority * base + k.since

/-- The order the two keys stand for. -/
def Outranks (x y : Keys) : Prop :=
  y.priority < x.priority ∨ (y.priority = x.priority ∧ x.since ≤ y.since)

variable {α : Type*} {base : Int} {waiting : α → Option Keys} {m : α} {k : Keys}

/-- The member waits and outranks everyone who waits. -/
def IsBest (waiting : α → Option Keys) (m : α) : Prop :=
  ∃ k, waiting m = some k ∧ ∀ j k', waiting j = some k' → Outranks k k'

theorem pack_lt_pack (x y : Keys) :
    pack base x < pack base y ↔ x.since - y.since < (x.priority - y.priority) * base := by
  unfold pack
  rw [sub_mul]
  constructor <;> intro h <;> linarith

theorem pack_eq_pack (x y : Keys) :
    pack base x = pack base y ↔ x.since - y.since = (x.priority - y.priority) * base := by
  unfold pack
  rw [sub_mul]
  constructor <;> intro h <;> linarith

/-- Among finitely many waiting members one is best. -/
theorem exists_isBest (hfin : {j | waiting j ≠ none}.Finite) (hm : waiting m = some k) :
    ∃ b, IsBest waiting b := by
  let rank : α → Int ×ₗ Int := fun j =>
    toLex ((waiting j).elim (0, 0) fun k => (-k.priority, k.since))
  have hne : {j | waiting j ≠ none}.Nonempty := ⟨m, by simp [hm]⟩
  obtain ⟨b, hb, hmin⟩ := Set.exists_min_image _ rank hfin hne
  obtain ⟨kb, hkb⟩ := Option.ne_none_iff_exists'.mp hb
  refine ⟨b, kb, hkb, fun j kj hj => ?_⟩
  have hle := hmin j (by simp [hj])
  simp only [rank, hkb, hj, Option.elim_some, Prod.Lex.toLex_le_toLex] at hle
  unfold Outranks
  omega

variable [LinearOrder α]

/-- No member of lower priority has waited so much longer than a best one that
time makes up for the priority. -/
def Separated (base : Int) (waiting : α → Option Keys) : Prop :=
  ∀ m k j k', IsBest waiting m → waiting m = some k → waiting j = some k' →
    k'.priority < k.priority →
    k.since - k'.since < (k.priority - k'.priority) * base ∨
      (k.since - k'.since = (k.priority - k'.priority) * base ∧ m < j)

/-- The member with the least score is best exactly when the waiting members
are separated. Times are distinct, so equal priorities give distinct scores. -/
theorem least_isBest_iff (hfin : {j | waiting j ≠ none}.Finite)
    (hdistinct : ∀ j j' k k', waiting j = some k → waiting j' = some k' →
      k.since = k'.since → j = j')
    (hm : waiting m = some k)
    (hleast : ∀ j k', waiting j = some k' → Precedes (pack base k, m) (pack base k', j)) :
    IsBest waiting m ↔ Separated base waiting := by
  constructor
  · rintro ⟨k₁, hk₁, hbest⟩ b kb j kj ⟨kb', hkb', hbb⟩ hb hj hlt
    obtain rfl : k = k₁ := Option.some.inj (hm.symm.trans hk₁)
    obtain rfl : kb = kb' := Option.some.inj (hb.symm.trans hkb')
    obtain rfl : b = m := by
      have h₁ := hbest b kb hb
      have h₂ := hbb m k hm
      unfold Outranks at h₁ h₂
      exact hdistinct b m kb k hb hm (by omega)
    obtain rfl : k = kb := Option.some.inj (hm.symm.trans hb)
    rcases hleast j kj hj with hs | ⟨hs, hid⟩
    · exact .inl ((pack_lt_pack k kj).mp hs)
    · refine .inr ⟨(pack_eq_pack k kj).mp hs, lt_of_le_of_ne hid ?_⟩
      rintro rfl
      obtain rfl : k = kj := Option.some.inj (hm.symm.trans hj)
      exact lt_irrefl _ hlt
  · intro hsep
    obtain ⟨b, kb, hb, hbb⟩ := exists_isBest hfin hm
    have hbm := hbb m k hm
    suffices heq : m = b by
      subst heq
      exact ⟨kb, hb, hbb⟩
    rcases hbm with hlt | ⟨hpri, hle⟩
    · have hgap := hsep b kb m k ⟨kb, hb, hbb⟩ hb hm hlt
      rw [← pack_lt_pack, ← pack_eq_pack] at hgap
      rcases hleast b kb hb with hs | ⟨hs, hid⟩
      · omega
      · rcases hgap with hgap | ⟨-, hlt'⟩
        · omega
        · exact absurd hid (not_le.mpr hlt')
    · by_contra hne
      have hsince : kb.since ≠ k.since := fun h => hne (hdistinct m b k kb hm hb h.symm)
      have hs : pack base kb < pack base k := by
        rw [pack_lt_pack, hpri]
        have hstrict : kb.since < k.since := lt_of_le_of_ne hle hsince
        simpa using hstrict
      rcases hleast b kb hb with hs' | ⟨hs', -⟩ <;> simp only at hs' <;> omega

end JobFlow.Lib.Packing
