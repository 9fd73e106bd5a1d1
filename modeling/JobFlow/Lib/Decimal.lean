import Mathlib.Algebra.Group.Nat.Defs
import Mathlib.Data.List.Basic
import Mathlib.Data.Nat.Init

/-!
# Decimal digits with leading zeros

Natural numbers written in decimal with at least a given number of digits.
-/

namespace JobFlow.Lib.Decimal

/-- The digits of a number, filled up with zeros on the left. -/
def padded (width n : Nat) : List Char := (Nat.toDigits 10 n).leftpad width '0'

theorem isDigit_of_mem_padded {width n : Nat} {c : Char} (h : c ∈ padded width n) : c.isDigit := by
  unfold padded List.leftpad at h
  rcases List.mem_append.mp h with h | h
  · rw [List.eq_of_mem_replicate h]
    rfl
  · exact Nat.isDigit_of_mem_toDigits (by decide) (by decide) h

theorem length_padded (width n : Nat) :
    (padded width n).length = max width (Nat.toDigits 10 n).length :=
  List.length_leftpad ..

/-- A number that has no more digits takes the given width. -/
theorem length_padded_of_lt {width n : Nat} (hw : 0 < width) (h : n < 10 ^ width) :
    (padded width n).length = width := by
  rw [length_padded]
  exact Nat.max_eq_left ((Nat.length_toDigits_le_iff (by decide) hw).mpr h)

/-- The digits read back. -/
theorem ofDigitChars_padded (width n : Nat) : Nat.ofDigitChars 10 (padded width n) 0 = n := by
  rw [padded, List.leftpad, Nat.ofDigitChars_append, Nat.ofDigitChars_replicate_zero, Nat.mul_zero,
    Nat.ofDigitChars_ten_toDigits]

/-- A positive number is written without a leading zero. -/
theorem head?_toDigits {n : Nat} (h : 0 < n) : (Nat.toDigits 10 n).head? ≠ some '0' := by
  induction n using Nat.strongRecOn with
  | ind n ih =>
    rw [Nat.toDigits_eq_if (by decide)]
    split
    next hlt =>
      have hdigit : ∀ d < 10, 0 < d → d.digitChar ≠ '0' := by decide
      simpa using hdigit n hlt h
    next hge =>
      have hrest := ih (n / 10) (by omega) (by omega)
      obtain ⟨c, cs, hcs⟩ := List.exists_cons_of_ne_nil (Nat.toDigits_ne_nil (n := n / 10) (b := 10))
      rw [hcs] at hrest ⊢
      exact hrest

end JobFlow.Lib.Decimal
