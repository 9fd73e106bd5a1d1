import JobFlow.Lib.Numeral
import Mathlib.Algebra.Order.Field.Rat
import Mathlib.Data.Int.Log
import Mathlib.Data.Rat.Floor
import Mathlib.Tactic.Linarith
import Mathlib.Tactic.Positivity

/-!
# Decimal numbers in binary floating point

Magnitudes are rational numbers. A magnitude is rounded to 53 significant bits, ties to
the even one, and written back as the shortest decimal number that is rounded to it.
Seventeen digits always suffice for that.
-/

namespace JobFlow.Lib.Binary64

/-- The exponent of the last of the 53 bits; below it lie the subnormal numbers. -/
def scale (a : ℚ) : ℤ := max (Int.log 2 a - 52) (-1074)

/-- The nearest integer, of two equally near the even one. -/
def roundEven (a : ℚ) : ℤ :=
  if a - ⌊a⌋ < 1 / 2 then ⌊a⌋
  else if 1 / 2 < a - ⌊a⌋ then ⌊a⌋ + 1
  else if ⌊a⌋ % 2 = 0 then ⌊a⌋
  else ⌊a⌋ + 1

/-- Rounded, as if there were no greatest exponent. -/
def nearest (a : ℚ) : ℚ := roundEven (a / 2 ^ scale a) * 2 ^ scale a

theorem roundEven_eq {a : ℚ} {m : ℤ} (h : |a - m| < 1 / 2) : roundEven a = m := by
  obtain ⟨hlo, hhi⟩ := abs_lt.mp h
  rcases le_or_gt (m : ℚ) a with hm | hm
  · have hfloor : ⌊a⌋ = m := Int.floor_eq_iff.mpr ⟨hm, by linarith⟩
    rw [roundEven, hfloor, if_pos (by linarith)]
  · have hfloor : ⌊a⌋ = m - 1 := Int.floor_eq_iff.mpr
      ⟨by push_cast; linarith, by push_cast; linarith⟩
    have habove : 1 / 2 < a - ((m - 1 : ℤ) : ℚ) := by push_cast; linarith
    rw [roundEven, hfloor, if_neg (not_lt.mpr habove.le), if_pos habove]
    omega

theorem two_zpow_pos (e : ℤ) : (0 : ℚ) < 2 ^ e := zpow_pos (by norm_num) e

/-- Close to a multiple of the last bit's value. -/
theorem nearest_eq {a : ℚ} {m e : ℤ} (he : scale a = e) (h : |a - m * 2 ^ e| < 2 ^ e / 2) :
    nearest a = m * 2 ^ e := by
  have hpos := two_zpow_pos e
  have hdiv : |a / 2 ^ e - m| < 1 / 2 := by
    have heq : a / 2 ^ e - m = (a - m * 2 ^ e) / 2 ^ e := by
      field_simp
    rw [heq, abs_div, abs_of_pos hpos, div_lt_iff₀ hpos]
    linarith
  rw [nearest, he, roundEven_eq hdiv]

/-- A number of 53 bits, none of them below the least. -/
def Representable (x : ℚ) : Prop :=
  ∃ m e : ℤ, 0 ≤ m ∧ m ≤ 2 ^ 53 ∧ -1074 ≤ e ∧ x = m * 2 ^ e

theorem scale_le_iff {a : ℚ} (h : 0 < a) {e : ℤ} (he : -1074 ≤ e) :
    scale a ≤ e ↔ a < 2 ^ (e + 53) := by
  have hlog := Int.lt_zpow_iff_log_lt (b := 2) (by norm_num) (x := e + 53) h
  rw [Nat.cast_ofNat] at hlog
  rw [hlog, scale, max_le_iff]
  omega

theorem le_scale_iff {a : ℚ} (h : 0 < a) {e : ℤ} (he : -1074 < e) :
    e ≤ scale a ↔ 2 ^ (e + 52) ≤ a := by
  have hlog := Int.zpow_le_iff_le_log (b := 2) (by norm_num) (x := e + 52) h
  rw [Nat.cast_ofNat] at hlog
  rw [hlog, scale, le_max_iff]
  omega

theorem least_le_scale (a : ℚ) : -1074 ≤ scale a := le_max_right _ _

theorem zpow_add_nat (e : ℤ) (n : ℕ) : (2 : ℚ) ^ (e + n) = 2 ^ n * 2 ^ e := by
  rw [zpow_add₀ (by norm_num), zpow_natCast, mul_comm]

/-- A representable number as a multiple of its own last bit. -/
theorem Representable.canonical {x : ℚ} (hx : Representable x) (hpos : 0 < x) :
    ∃ m : ℤ, x = m * 2 ^ scale x ∧ m < 2 ^ 53 := by
  obtain ⟨m, e, -, hm, he, rfl⟩ := hx
  have hpow := two_zpow_pos e
  have hle : scale (m * 2 ^ e) ≤ e + 1 := by
    rw [scale_le_iff hpos (by omega), show e + 1 + 53 = e + (54 : ℕ) by norm_num; ring, zpow_add_nat]
    have hcast : (m : ℚ) ≤ 2 ^ 53 := by exact_mod_cast hm
    nlinarith
  rcases Int.lt_or_le e (scale (m * 2 ^ e)) with hlt | hge
  · -- only `2 ^ 53` itself has a last bit above the given one
    have hscale : scale (m * 2 ^ e) = e + 1 := by omega
    have hbig : (2 : ℚ) ^ (e + 1 + 52) ≤ m * 2 ^ e := by
      rw [← le_scale_iff hpos (by omega), hscale]
    rw [show e + 1 + 52 = e + (53 : ℕ) by norm_num; ring, zpow_add_nat] at hbig
    have hmin : (2 : ℚ) ^ 53 ≤ m := le_of_mul_le_mul_right hbig hpow
    have hm' : m = 2 ^ 53 := le_antisymm hm (by exact_mod_cast hmin)
    refine ⟨2 ^ 52, ?_, by norm_num⟩
    rw [hscale, hm', zpow_add₀ (by norm_num)]
    push_cast
    ring
  · obtain ⟨k, hk⟩ := Int.le.dest hge
    have heq : (m : ℚ) * 2 ^ e = (m * 2 ^ k : ℤ) * 2 ^ scale (m * 2 ^ e) := by
      conv => lhs; rw [← hk, zpow_add_nat]
      push_cast
      ring
    refine ⟨m * 2 ^ k, heq, ?_⟩
    have hlt : (m : ℚ) * 2 ^ e < 2 ^ (scale (m * 2 ^ e) + (53 : ℕ)) :=
      (scale_le_iff hpos (least_le_scale _)).mp le_rfl
    rw [zpow_add_nat] at hlt
    have hm' := lt_of_mul_lt_mul_right (heq.symm.trans_lt hlt) (two_zpow_pos _).le
    exact_mod_cast hm'

/-- A decimal number that is off by half a unit of the seventeenth digit at most is
rounded back. -/
theorem nearest_of_near {x : ℚ} (hx : Representable x) (hpos : 0 < x) {d : ℚ}
    (hd : |d - x| ≤ x / (2 * 10 ^ 16)) : nearest d = x := by
  obtain ⟨m, hm, hlt⟩ := hx.canonical hpos
  generalize hs : scale x = e at hm
  have he : -1074 ≤ e := hs ▸ least_le_scale x
  have hpow := two_zpow_pos e
  have hm53 : (m : ℚ) + 1 ≤ 2 ^ 53 := by exact_mod_cast hlt
  have hoff : |d - x| < 2 ^ e / 2 := by
    refine hd.trans_lt ?_
    rw [hm]
    nlinarith
  obtain ⟨hlo, hhi⟩ := abs_le.mp hd
  have hdpos : 0 < d := by nlinarith
  -- the number itself is off by less than half its last bit, so `d` stays below the next power
  have htop : scale d ≤ e := by
    rw [scale_le_iff hdpos he, show e + 53 = e + (53 : ℕ) by norm_num, zpow_add_nat]
    have := (abs_lt.mp hoff).2
    nlinarith
  rcases eq_or_lt_of_le htop with heq | hbelow
  · rw [hm] at hoff
    rw [nearest_eq heq hoff, ← hm]
  · -- just below a power of two the last bit is worth half
    have hex : 2 ^ (e + 52) ≤ x := (le_scale_iff hpos (by have := least_le_scale d; omega)).mp hs.ge
    have hdx : d < 2 ^ (e + 52) := by
      rw [← not_le, ← le_scale_iff hdpos (by have := least_le_scale d; omega)]
      omega
    rw [show e + 52 = e + (52 : ℕ) by norm_num, zpow_add_nat] at hex hdx
    have hm52 : m = 2 ^ 52 := by
      refine le_antisymm (Int.lt_add_one_iff.mp ?_) ?_
      · have : (m : ℚ) < 2 ^ 52 + 1 := by nlinarith
        exact_mod_cast this
      · rw [hm] at hex
        exact_mod_cast le_of_mul_le_mul_right hex hpow
    have hhalf : (2 : ℚ) ^ e = 2 * 2 ^ (e - 1) := by
      rw [zpow_sub_one₀ (by norm_num)]
      ring
    have hx' : x = (2 ^ 53 : ℤ) * 2 ^ (e - 1) := by
      rw [hm, hm52, hhalf]
      push_cast
      ring
    have hscale : scale d = e - 1 := by
      refine le_antisymm (by omega) ?_
      rcases eq_or_lt_of_le (show -1074 ≤ e - 1 by have := least_le_scale d; omega) with h | h
      · exact h ▸ least_le_scale d
      · rw [le_scale_iff hdpos h, show e - 1 + 52 = e - 1 + (52 : ℕ) by norm_num, zpow_add_nat]
        rw [hx'] at hlo
        push_cast at hlo
        nlinarith [two_zpow_pos (e - 1)]
    rw [nearest_eq (m := 2 ^ 53) hscale, ← hx']
    rw [← hx']
    refine hd.trans_lt ?_
    rw [hx']
    push_cast
    nlinarith [two_zpow_pos (e - 1)]

/-- What is representable is left as it is. -/
theorem nearest_self {x : ℚ} (hx : Representable x) (hpos : 0 ≤ x) : nearest x = x := by
  rcases hpos.eq_or_lt with rfl | hpos
  · decide +kernel
  · refine nearest_of_near hx hpos ?_
    rw [sub_self, abs_zero]
    positivity

theorem roundEven_le {a : ℚ} {m : ℤ} (h : a ≤ m) : roundEven a ≤ m := by
  have hfloor : ⌊a⌋ ≤ m := by
    have := Int.floor_le a
    exact_mod_cast this.trans h
  rcases eq_or_lt_of_le hfloor with heq | hlt
  · have hself : a = m := le_antisymm h (heq ▸ Int.floor_le a)
    rw [roundEven, heq, if_pos (by rw [hself]; norm_num)]
  · unfold roundEven
    split_ifs <;> omega

theorem roundEven_nonneg {a : ℚ} (h : 0 ≤ a) : 0 ≤ roundEven a := by
  have hfloor : 0 ≤ ⌊a⌋ := Int.floor_nonneg.mpr h
  unfold roundEven
  split_ifs <;> omega

theorem nearest_nonneg {a : ℚ} (h : 0 ≤ a) : 0 ≤ nearest a := by
  have hround : (0 : ℚ) ≤ roundEven (a / 2 ^ scale a) := by
    exact_mod_cast roundEven_nonneg (div_nonneg h (two_zpow_pos _).le)
  exact mul_nonneg hround (two_zpow_pos _).le

theorem representable_nearest {a : ℚ} (h : 0 ≤ a) : Representable (nearest a) := by
  refine ⟨roundEven (a / 2 ^ scale a), scale a, ?_, ?_, least_le_scale a, rfl⟩
  · exact roundEven_nonneg (div_nonneg h (two_zpow_pos _).le)
  · refine roundEven_le ?_
    rw [div_le_iff₀ (two_zpow_pos _)]
    rcases h.eq_or_lt with rfl | hpos
    · exact mul_nonneg (by norm_num) (two_zpow_pos _).le
    · have hlt := (scale_le_iff hpos (least_le_scale a)).mp le_rfl
      rw [show scale a + 53 = scale a + (53 : ℕ) by norm_num, zpow_add_nat] at hlt
      exact_mod_cast hlt.le

/-! ## The shortest decimal -/

/-- The unit of the last of `k` digits. -/
def unit (x : ℚ) (k : ℕ) : ℤ := Int.log 10 x + 1 - k

/-- The two multiples of a unit next to a number, the nearer one first; of two equally
near the even one. -/
def neighbours (q : ℚ) : ℕ × ℕ :=
  if roundEven q = ⌊q⌋ then (⌊q⌋₊, ⌊q⌋₊ + 1) else (⌊q⌋₊ + 1, ⌊q⌋₊)

/-- Ten units of the first digit are one of the digit before. -/
def carry (k n : ℕ) (p : ℤ) : ℕ × ℤ := if n = 10 ^ k then (1, p + k) else (n, p)

/-- A decimal number of `k` digits that is rounded to `x`. -/
def candidate (x : ℚ) (k : ℕ) : Option (ℕ × ℤ) :=
  let p := unit x k
  let (near, far) := neighbours (x / 10 ^ p)
  if nearest (near * 10 ^ p) = x then some (carry k near p)
  else if nearest (far * 10 ^ p) = x then some (carry k far p)
  else none

/-- The first candidate, with digits and unit. -/
def shortest (x : ℚ) : ℕ × ℤ :=
  ((List.range 17).findSome? fun i => candidate x (i + 1)).getD (0, 0)

theorem ten_zpow_pos (e : ℤ) : (0 : ℚ) < 10 ^ e := zpow_pos (by norm_num) e

theorem roundEven_near (a : ℚ) : |roundEven a - a| ≤ 1 / 2 := by
  have hlo := Int.floor_le a
  have hhi := Int.lt_floor_add_one a
  unfold roundEven
  split_ifs <;> push_cast <;> rw [abs_le] <;> constructor <;> linarith

/-- The nearer neighbour. -/
theorem neighbours_fst {q : ℚ} (h : 0 ≤ q) : |((neighbours q).1 : ℚ) - q| ≤ 1 / 2 := by
  have hfloor : ((⌊q⌋₊ : ℕ) : ℚ) = (⌊q⌋ : ℤ) := by
    exact_mod_cast Int.natCast_floor_eq_floor h
  have hnear := roundEven_near q
  have hcases : roundEven q = ⌊q⌋ ∨ roundEven q = ⌊q⌋ + 1 := by
    unfold roundEven
    split_ifs <;> simp
  unfold neighbours
  split
  next heq => rwa [hfloor, ← heq]
  next hne =>
    rw [hcases.resolve_left hne] at hnear
    push_cast at hnear ⊢
    rwa [hfloor]

theorem carry_value (k n : ℕ) (p : ℤ) :
    ((carry k n p).1 : ℚ) * 10 ^ (carry k n p).2 = n * 10 ^ p := by
  unfold carry
  split
  next h =>
    rw [h, zpow_add₀ (by norm_num), zpow_natCast]
    push_cast
    ring
  · rfl

theorem candidate_eq_some {x : ℚ} {k : ℕ} {d : ℕ × ℤ} (h : candidate x k = some d) :
    nearest (d.1 * 10 ^ d.2) = x := by
  simp only [candidate] at h
  split_ifs at h <;> cases h <;> rw [carry_value] <;> assumption

/-- Of seventeen digits there is always a candidate. -/
theorem candidate_seventeen {x : ℚ} (hx : Representable x) (hpos : 0 < x) :
    (candidate x 17).isSome := by
  have hlog : (10 : ℚ) ^ Int.log 10 x ≤ x := by
    exact_mod_cast Int.zpow_log_le_self (b := 10) (by norm_num) hpos
  have hunit : (10 : ℚ) ^ unit x 17 * 10 ^ 16 ≤ x := by
    rw [← zpow_natCast (10 : ℚ) 16, ← zpow_add₀ (by norm_num), unit]
    refine le_of_eq_of_le ?_ hlog
    congr 1
    push_cast
    ring
  have hp := ten_zpow_pos (unit x 17)
  have hnear := neighbours_fst (div_nonneg hpos.le hp.le)
  have hreads : nearest ((neighbours (x / 10 ^ unit x 17)).1 * 10 ^ unit x 17) = x := by
    refine nearest_of_near hx hpos ?_
    have hscaled : ((neighbours (x / 10 ^ unit x 17)).1 : ℚ) * 10 ^ unit x 17 - x =
        ((neighbours (x / 10 ^ unit x 17)).1 - x / 10 ^ unit x 17) * 10 ^ unit x 17 := by
      field_simp
    rw [hscaled, abs_mul, abs_of_pos hp, le_div_iff₀ (by norm_num)]
    nlinarith
  simp only [candidate, hreads, if_true, Option.isSome_some]

/-- A search in a range ends at or before any index at which it may. -/
theorem findSome?_range {β : Type*} {f : ℕ → Option β} {m n : ℕ} (hn : n < m)
    (hf : (f n).isSome) : ∃ i ≤ n, ∃ d, f i = some d ∧ (List.range m).findSome? f = some d := by
  obtain ⟨d, hd⟩ : ∃ d, (List.range m).findSome? f = some d := by
    rw [← Option.isSome_iff_exists, List.findSome?_isSome_iff]
    exact ⟨n, List.mem_range.mpr hn, hf⟩
  obtain ⟨before, i, after, hrange, hi, hbefore⟩ := List.findSome?_eq_some_iff.mp hd
  refine ⟨i, ?_, d, hi, hd⟩
  by_contra hlt
  have hmem : n ∈ before ++ i :: after := hrange ▸ List.mem_range.mpr hn
  have hsorted : (before ++ i :: after).Pairwise (· < ·) := hrange ▸ List.pairwise_lt_range
  have hafter := (List.pairwise_cons.mp (List.pairwise_append.mp hsorted).2.1).1
  rcases List.mem_append.mp hmem with hb | ha
  · rw [hbefore _ hb] at hf
    cases hf
  · rcases List.mem_cons.mp ha with heq | ha
    · omega
    · have := hafter _ ha
      omega

/-- The shortest decimal is a candidate, of no more digits than any other. -/
theorem shortest_candidate {x : ℚ} {n : ℕ} (hn : n < 17) (h : (candidate x (n + 1)).isSome) :
    ∃ i ≤ n, candidate x (i + 1) = some (shortest x) := by
  obtain ⟨i, hle, d, hi, hd⟩ := findSome?_range (f := fun i => candidate x (i + 1)) hn h
  refine ⟨i, hle, ?_⟩
  rw [shortest, hd]
  exact hi

/-- The shortest decimal is rounded back. -/
theorem nearest_shortest {x : ℚ} (hx : Representable x) (h : 0 ≤ x) :
    nearest ((shortest x).1 * 10 ^ (shortest x).2) = x := by
  rcases h.eq_or_lt with rfl | hpos
  · decide +kernel
  · obtain ⟨i, -, hi⟩ := shortest_candidate (by decide : 16 < 17) (candidate_seventeen hx hpos)
    exact candidate_eq_some hi

/-- What is written for a magnitude. -/
def written (a : ℚ) : ℚ := (shortest (nearest a)).1 * 10 ^ (shortest (nearest a)).2

theorem written_nonneg (a : ℚ) : 0 ≤ written a :=
  mul_nonneg (Nat.cast_nonneg _) (ten_zpow_pos _).le

theorem written_zero : written 0 = 0 := by decide +kernel

theorem nearest_written {a : ℚ} (h : 0 ≤ a) : nearest (written a) = nearest a :=
  nearest_shortest (representable_nearest h) (nearest_nonneg h)

/-! ### Integers -/

theorem nearest_close (a : ℚ) : |nearest a - a| ≤ 2 ^ scale a / 2 := by
  have hpos := two_zpow_pos (scale a)
  have hround := roundEven_near (a / 2 ^ scale a)
  have heq : nearest a - a = (roundEven (a / 2 ^ scale a) - a / 2 ^ scale a) * 2 ^ scale a := by
    rw [nearest]
    field_simp
  rw [heq, abs_mul, abs_of_pos hpos]
  nlinarith

theorem representable_natCast {n : ℕ} (h : n ≤ 2 ^ 53) : Representable n :=
  ⟨n, 0, by positivity, by exact_mod_cast h, by norm_num, by simp⟩

/-- A candidate is a multiple of its unit and exceeds the number by one unit at most. -/
theorem candidate_multiple {x : ℚ} (hx : 0 ≤ x) {k : ℕ} {d : ℕ × ℤ} (h : candidate x k = some d) :
    ∃ c : ℕ, (d.1 : ℚ) * 10 ^ d.2 = c * 10 ^ unit x k ∧ c * 10 ^ unit x k ≤ x + 10 ^ unit x k := by
  have hp := ten_zpow_pos (unit x k)
  have hq : 0 ≤ x / 10 ^ unit x k := div_nonneg hx hp.le
  have hbound : ∀ c : ℕ, c ≤ ⌊x / 10 ^ unit x k⌋₊ + 1 →
      (c : ℚ) * 10 ^ unit x k ≤ x + 10 ^ unit x k := by
    intro c hc
    have hfloor := Nat.floor_le hq
    have hc' : (c : ℚ) ≤ x / 10 ^ unit x k + 1 := by
      have : (c : ℚ) ≤ ⌊x / 10 ^ unit x k⌋₊ + 1 := by exact_mod_cast hc
      linarith
    calc (c : ℚ) * 10 ^ unit x k ≤ (x / 10 ^ unit x k + 1) * 10 ^ unit x k :=
          mul_le_mul_of_nonneg_right hc' hp.le
      _ = x + 10 ^ unit x k := by field_simp
  have hneighbours : (neighbours (x / 10 ^ unit x k)).1 ≤ ⌊x / 10 ^ unit x k⌋₊ + 1 ∧
      (neighbours (x / 10 ^ unit x k)).2 ≤ ⌊x / 10 ^ unit x k⌋₊ + 1 := by
    unfold neighbours
    split <;> simp
  simp only [candidate] at h
  split_ifs at h <;> cases h
  · exact ⟨_, carry_value .., hbound _ hneighbours.1⟩
  · exact ⟨_, carry_value .., hbound _ hneighbours.2⟩

/-- With the unit one an integer is its own candidate. -/
theorem candidate_natCast {n : ℕ} (h : n ≤ 2 ^ 53) {k : ℕ} (hk : unit n k = 0) :
    (candidate n k).isSome := by
  have hneighbour : (neighbours ((n : ℚ) / 10 ^ unit n k)).1 = n := by
    have hround : roundEven (n : ℚ) = n := roundEven_eq (m := n) (by simp)
    rw [hk, zpow_zero, div_one, neighbours, Int.floor_natCast, hround, if_pos rfl]
    exact Nat.floor_natCast n
  have hreads : nearest ((neighbours ((n : ℚ) / 10 ^ unit n k)).1 * 10 ^ unit n k) = n := by
    rw [hneighbour, hk, zpow_zero, mul_one]
    exact nearest_self (representable_natCast h) (Nat.cast_nonneg n)
  simp only [candidate, hreads, if_true, Option.isSome_some]

/-- Among the integers of 54 bits only an integer below `2 ^ 53` itself is rounded to it. -/
theorem eq_of_nearest_natCast {m n : ℕ} (hm : m < 2 ^ 54) (hn : n < 2 ^ 53)
    (h : nearest (m : ℚ) = n) : m = n := by
  rcases Nat.lt_or_ge (2 ^ 53) m with hbig | hsmall
  · -- beyond `2 ^ 53` rounding moves an integer by one at most
    have hpos : (0 : ℚ) < m := by exact_mod_cast (by omega : 0 < m)
    have hscale : scale (m : ℚ) ≤ 1 := by
      rw [scale_le_iff hpos (by norm_num)]
      exact_mod_cast hm
    have hstep : (2 : ℚ) ^ scale (m : ℚ) ≤ 2 :=
      (zpow_le_zpow_right₀ (by norm_num) hscale).trans_eq (zpow_one 2)
    have hclose := (abs_le.mp (nearest_close (m : ℚ))).1
    rw [h] at hclose
    have hfar : (m : ℚ) ≤ n + 1 := by linarith
    have hfar' : m ≤ n + 1 := by exact_mod_cast hfar
    omega
  · rw [nearest_self (representable_natCast hsmall) (Nat.cast_nonneg m)] at h
    exact_mod_cast h

/-- Integers below `2 ^ 53` are written as they are. -/
theorem written_natCast {n : ℕ} (h : n < 2 ^ 53) : written n = n := by
  rcases Nat.eq_zero_or_pos n with rfl | hpos
  · exact written_zero
  have hself : nearest (n : ℚ) = n :=
    nearest_self (representable_natCast h.le) (Nat.cast_nonneg n)
  have hlog : Int.log 10 (n : ℚ) = Nat.log 10 n := Int.log_natCast 10 n
  have hdigits : Nat.log 10 n < 17 :=
    Nat.log_lt_of_lt_pow (by omega) (h.trans (by norm_num))
  have hown : (candidate (n : ℚ) (Nat.log 10 n + 1)).isSome := by
    refine candidate_natCast h.le ?_
    rw [unit, hlog]
    push_cast
    ring
  -- the search stops before the unit falls below one
  obtain ⟨i, hle, hi⟩ := shortest_candidate hdigits hown
  obtain ⟨p, hp⟩ : ∃ p : ℕ, unit (n : ℚ) (i + 1) = p :=
    ⟨Nat.log 10 n - i, by rw [unit, hlog]; push_cast [hle]; ring⟩
  obtain ⟨c, hvalue, hbound⟩ := candidate_multiple (Nat.cast_nonneg n) hi
  have hreads := candidate_eq_some hi
  have hunit : 10 ^ p ≤ n := by
    have hp' : p ≤ Nat.log 10 n := by
      rw [unit, hlog] at hp
      push_cast at hp
      omega
    exact (Nat.pow_le_pow_right (by norm_num) hp').trans (Nat.pow_log_le_self 10 hpos.ne')
  rw [hvalue, hp, zpow_natCast] at hreads
  rw [hp, zpow_natCast] at hbound
  have hbound' : c * 10 ^ p ≤ n + 10 ^ p := by exact_mod_cast hbound
  have hsame : c * 10 ^ p = n := by
    refine eq_of_nearest_natCast (by omega) h ?_
    push_cast
    exact hreads
  rw [written, hself, hvalue, hp, zpow_natCast]
  exact_mod_cast hsame

/-- Rounded with its sign. -/
def nearestSigned (q : ℚ) : ℚ := if q < 0 then -nearest (-q) else nearest q

theorem nearestSigned_neg {a : ℚ} (h : 0 ≤ a) : nearestSigned (-a) = -nearest a := by
  rcases h.eq_or_lt with rfl | hpos
  · decide +kernel
  · rw [nearestSigned, if_pos (neg_lt_zero.mpr hpos), neg_neg]

/-- Integers of 53 bits are exact. -/
theorem nearestSigned_intCast {z : ℤ} (h : z.natAbs ≤ 2 ^ 53) : nearestSigned z = z := by
  have hself : nearest (z.natAbs : ℚ) = z.natAbs :=
    nearest_self (representable_natCast h) (Nat.cast_nonneg _)
  rcases Int.natAbs_eq z with hz | hz
  · rw [hz, Int.cast_natCast, nearestSigned, if_neg (not_lt.mpr (Nat.cast_nonneg _)), hself]
  · rw [hz, Int.cast_neg, Int.cast_natCast, nearestSigned_neg (Nat.cast_nonneg _), hself]

/-- Rounding takes a natural number to one. -/
theorem nearest_natCast (n : ℕ) : ∃ k : ℕ, nearest n = k := by
  rcases Nat.le_total n (2 ^ 53) with hle | hge
  · exact ⟨n, nearest_self (representable_natCast hle) (Nat.cast_nonneg n)⟩
  · have hpos : (0 : ℚ) < n := by exact_mod_cast (Nat.two_pow_pos 53).trans_le hge
    have hscale : 0 ≤ scale n := by
      rw [le_scale_iff hpos (by norm_num)]
      exact_mod_cast (Nat.pow_le_pow_right (by norm_num) (by norm_num)).trans hge
    obtain ⟨s, hs⟩ := Int.eq_ofNat_of_zero_le hscale
    have hround := roundEven_nonneg (div_nonneg hpos.le (two_zpow_pos (scale n)).le)
    obtain ⟨m, hm⟩ := Int.eq_ofNat_of_zero_le hround
    refine ⟨m * 2 ^ s, ?_⟩
    rw [nearest, hm, hs, zpow_natCast]
    push_cast
    rfl

/-- Rounding takes an integer to one. -/
theorem nearestSigned_integral (z : ℤ) : ∃ k : ℤ, nearestSigned z = k := by
  obtain ⟨k, hk⟩ := nearest_natCast z.natAbs
  rcases Int.natAbs_eq z with hz | hz
  · refine ⟨k, ?_⟩
    rw [hz, Int.cast_natCast, nearestSigned, if_neg (not_lt.mpr (Nat.cast_nonneg _)), hk,
      Int.cast_natCast]
  · refine ⟨-k, ?_⟩
    rw [hz, Int.cast_neg, Int.cast_natCast, nearestSigned_neg (Nat.cast_nonneg _), hk,
      Int.cast_neg, Int.cast_natCast]

/-- What a number has become once it was rounded and written. -/
def reread (q : ℚ) : ℚ := if q < 0 then -written (-q) else written q

theorem reread_of_nonneg {q : ℚ} (h : 0 ≤ q) : reread q = written q := if_neg (not_lt.mpr h)

theorem reread_neg {q : ℚ} (h : 0 ≤ q) : reread (-q) = -written q := by
  rcases h.eq_or_lt with rfl | hpos
  · rw [neg_zero, reread_of_nonneg le_rfl, written_zero, neg_zero]
  · rw [reread, if_pos (neg_lt_zero.mpr hpos), neg_neg]

/-- Integers of less than 53 bits stay as they are. -/
theorem reread_intCast {z : ℤ} (h : z.natAbs < 2 ^ 53) : reread z = z := by
  have hwritten := written_natCast h
  rcases Int.natAbs_eq z with hz | hz
  · rw [hz, Int.cast_natCast, reread_of_nonneg (Nat.cast_nonneg _), hwritten]
  · rw [hz, Int.cast_neg, Int.cast_natCast, reread_neg (Nat.cast_nonneg _), hwritten]

/-- Once rounded and written, a number stays as it is. -/
theorem reread_reread (q : ℚ) : reread (reread q) = reread q := by
  have hwritten : ∀ a : ℚ, 0 ≤ a → written (written a) = written a := fun a ha => by
    rw [written, nearest_written ha, written]
  rcases le_total 0 q with h | h
  · rw [reread_of_nonneg h, reread_of_nonneg (written_nonneg q), hwritten q h]
  · obtain ⟨a, rfl⟩ : ∃ a, q = -a := ⟨-q, (neg_neg q).symm⟩
    have ha := neg_nonpos.mp h
    rw [reread_neg ha, reread_neg (written_nonneg a), hwritten a ha]

end JobFlow.Lib.Binary64

namespace JobFlow.Lib

/-- A finite number: its sign, and a magnitude that rounding leaves as it is. -/
structure Binary64 where
  negative : Bool
  magnitude : ℚ
  nonneg : 0 ≤ magnitude
  rounded : Binary64.nearest magnitude = magnitude
  finite : magnitude < 2 ^ 1024

namespace Binary64

theorem magnitude_nonneg (n : Numeral) : 0 ≤ n.magnitude :=
  mul_nonneg (Nat.cast_nonneg _) (ten_zpow_pos _).le

def value (x : Binary64) : ℚ := if x.negative then -x.magnitude else x.magnitude

/-- The nearest finite number; `none` where the magnitude is out of range. -/
def ofNumeral? (n : Numeral) : Option Binary64 :=
  if h : nearest n.magnitude < 2 ^ 1024 then
    some ⟨n.negative, nearest n.magnitude, nearest_nonneg (magnitude_nonneg n),
      nearest_self (representable_nearest (magnitude_nonneg n)) (nearest_nonneg (magnitude_nonneg n)),
      h⟩
  else none

/-- The shortest decimal. -/
def toNumeral (x : Binary64) : Numeral :=
  ⟨x.negative, (shortest x.magnitude).1, (shortest x.magnitude).2⟩

theorem representable (x : Binary64) : Representable x.magnitude :=
  x.rounded ▸ representable_nearest x.nonneg

/-- A number is read back from its shortest decimal, however that is written. -/
theorem ofNumeral?_toNumeral {n : Numeral} {x : Binary64} (hneg : n.negative = x.negative)
    (hmag : n.magnitude = x.toNumeral.magnitude) : ofNumeral? n = some x := by
  have hnearest : nearest n.magnitude = x.magnitude := by
    rw [hmag]
    exact nearest_shortest x.representable x.nonneg
  have hfinite : nearest n.magnitude < 2 ^ 1024 := hnearest ▸ x.finite
  rw [ofNumeral?, dif_pos hfinite]
  obtain ⟨negative, magnitude, _, _, _⟩ := x
  cases hneg
  cases hnearest
  rfl

/-- Integers of less than 53 bits are among the numbers. -/
theorem ofNumeral?_natCast {n : Numeral} {k : ℕ} (hk : k < 2 ^ 53) (hmag : n.magnitude = k) :
    ∃ x, ofNumeral? n = some x ∧ x.negative = n.negative ∧ x.magnitude = k := by
  have hnearest : nearest n.magnitude = k := by
    rw [hmag]
    exact nearest_self (representable_natCast hk.le) (Nat.cast_nonneg k)
  have hfinite : nearest n.magnitude < 2 ^ 1024 := by
    have hlt : (k : ℚ) < 2 ^ 53 := by exact_mod_cast hk
    rw [hnearest]
    exact hlt.trans (pow_lt_pow_right₀ (by norm_num) (by decide))
  exact ⟨_, dif_pos hfinite, rfl, hnearest⟩

theorem value_toNumeral {n : Numeral} {x : Binary64} (h : ofNumeral? n = some x) :
    x.toNumeral.value = reread n.value := by
  unfold ofNumeral? at h
  split at h <;> cases h
  have hn := magnitude_nonneg n
  have hm : Numeral.magnitude ⟨n.negative, (shortest (nearest n.magnitude)).1,
      (shortest (nearest n.magnitude)).2⟩ = written n.magnitude := rfl
  simp only [Numeral.value, toNumeral, hm]
  cases n.negative with
  | false => exact (reread_of_nonneg hn).symm
  | true => exact (reread_neg hn).symm

end Binary64

end JobFlow.Lib
