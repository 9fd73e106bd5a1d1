import Mathlib.Algebra.Order.Field.Rat
import Mathlib.Data.List.Sort
import Mathlib.Data.Rat.Floor

/-!
# Stable orders and pages

A list sorted by a total preorder in which ties keep their order, and a list cut into pages
of one size.
-/

namespace JobFlow.Lib.Paging

variable {α : Type*}

section Order

variable {r : α → α → Prop} [DecidableRel r]

/-- Neither comes before the other. -/
def Tie (r : α → α → Prop) (a b : α) : Prop := r a b ∧ r b a

instance (a b : α) : Decidable (Tie r a b) := inferInstanceAs (Decidable (_ ∧ _))

/-- What ties with an element is in the order in which it was. -/
theorem filter_insertionSort [Std.Total r] [IsTrans α r] (a : α) (l : List α) :
    (l.insertionSort r).filter (fun b => Tie r a b) = l.filter fun b => Tie r a b := by
  have hpairwise : (l.filter fun b => Tie r a b).Pairwise r := by
    refine List.pairwise_of_forall_mem_list fun b hb c hc => ?_
    have hb' : Tie r a b := by simpa using (List.mem_filter.mp hb).2
    have hc' : Tie r a c := by simpa using (List.mem_filter.mp hc).2
    exact trans_of r hb'.2 hc'.1
  have hsub := (List.sublist_insertionSort hpairwise List.filter_sublist).filter fun b => Tie r a b
  rw [List.filter_filter] at hsub
  simp only [Bool.and_self] at hsub
  exact (hsub.eq_of_length ((List.perm_insertionSort r l).filter _).length_eq.symm).symm

end Order

variable (l : List α) (size : ℕ)

/-- A page, counted from zero. -/
def page (i : ℕ) : List α := (l.drop (i * size)).take size

theorem flatMap_page_eq_take (n : ℕ) : (List.range n).flatMap (page l size) = l.take (n * size) := by
  induction n with
  | zero => simp
  | succ n ih =>
    rw [List.range_succ, List.flatMap_append, ih, List.flatMap_singleton, page, Nat.succ_mul,
      List.take_add]

variable {l size}

/-- Enough pages make up the list. -/
theorem flatMap_page {n : ℕ} (h : l.length ≤ n * size) :
    (List.range n).flatMap (page l size) = l := by
  rw [flatMap_page_eq_take, List.take_of_length_le h]

theorem mem_page_iff {i : ℕ} {a : α} :
    a ∈ page l size i ↔ ∃ n, i * size ≤ n ∧ n < i * size + size ∧ l[n]? = some a := by
  rw [page, List.mem_iff_getElem?]
  constructor
  · rintro ⟨m, hm⟩
    rw [List.getElem?_take] at hm
    split_ifs at hm with hlt
    rw [List.getElem?_drop] at hm
    exact ⟨i * size + m, by omega, by omega, hm⟩
  · rintro ⟨n, hlo, hhi, hn⟩
    refine ⟨n - i * size, ?_⟩
    rw [List.getElem?_take, if_pos (by omega), List.getElem?_drop, Nat.add_sub_cancel' hlo]
    exact hn

/-- Where nothing occurs twice, nothing is on two pages. -/
theorem page_unique (h : l.Nodup) {i j : ℕ} {a : α} (hi : a ∈ page l size i)
    (hj : a ∈ page l size j) : i = j := by
  obtain ⟨n, hlo, hhi, hn⟩ := mem_page_iff.mp hi
  obtain ⟨m, hlo', hhi', hm⟩ := mem_page_iff.mp hj
  obtain ⟨hlt, -⟩ := List.getElem?_eq_some_iff.mp hn
  obtain rfl := (List.getElem?_inj hlt h).mp (hn.trans hm.symm)
  have hsucc : (i + 1) * size = i * size + size := Nat.succ_mul i size
  have hsucc' : (j + 1) * size = j * size + size := Nat.succ_mul j size
  have hij : i < j + 1 := lt_of_mul_lt_mul_right (hlo.trans_lt (by omega)) (Nat.zero_le size)
  have hji : j < i + 1 := lt_of_mul_lt_mul_right (hlo'.trans_lt (by omega)) (Nat.zero_le size)
  omega

/-- The number of pages that a list needs. -/
theorem le_ceil_mul (n : ℕ) {size : ℕ} (h : 0 < size) : n ≤ ⌈(n : ℚ) / size⌉₊ * size := by
  have hsize : (0 : ℚ) < size := by exact_mod_cast h
  have hceil := (div_le_iff₀ hsize).mp (Nat.le_ceil ((n : ℚ) / size))
  exact_mod_cast hceil

end JobFlow.Lib.Paging
