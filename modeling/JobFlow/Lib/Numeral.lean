import JobFlow.Lib.Decimal
import Mathlib.Algebra.Order.Field.Rat
import Mathlib.Data.List.Basic
import Mathlib.Tactic.FieldSimp
import Mathlib.Tactic.Ring

/-!
# Numerals

The grammar of the numbers of JSON: an optional minus sign, digits without a leading
zero, an optional fraction and an optional exponent. Numbers that are written in it are
read back with their value.
-/

namespace JobFlow.Lib

/-- A decimal number: the mantissa times a power of ten. -/
structure Numeral where
  negative : Bool
  mantissa : Nat
  exponent : Int
  deriving DecidableEq

namespace Numeral

/-- The characters a numeral is made of. -/
def isPart (c : Char) : Bool := c.isDigit || c == '-' || c == '+' || c == '.' || c == 'e' || c == 'E'

/-- One or more digits. -/
def digits? (ds : List Char) : Option Nat :=
  if ds ≠ [] ∧ ds.all Char.isDigit then some (Nat.ofDigitChars 10 ds 0) else none

/-- Digits that do not start with a zero, or a zero. -/
def whole? (ds : List Char) : Option Nat :=
  if ds = ['0'] ∨ ds.head? ≠ some '0' then digits? ds else none

/-- Digits after an optional sign. -/
def signed? : List Char → Option Int
  | '-' :: ds => (digits? ds).map fun n : Nat => -(n : Int)
  | '+' :: ds => (digits? ds).map Int.ofNat
  | ds => (digits? ds).map Int.ofNat

/-- `strconv.Atoi`: the value and whether there is an error. The value is zero where the text is
no number, and the nearest one of 64 bits where the number is out of range. -/
def atoi (text : String) : Int × Bool :=
  match signed? text.toList with
  | none => (0, true)
  | some n =>
    let value := max (-2 ^ 63) (min (2 ^ 63 - 1) n)
    (value, value ≠ n)

/-- The power of ten that is written last. -/
def exponent? : List Char → Option Int
  | [] => some 0
  | c :: ds => if c = 'e' ∨ c = 'E' then signed? ds else none

/-- What follows the digits of the whole part. -/
def scaled? (negative : Bool) (whole : Nat) (whole' : List Char) : Option Numeral :=
  match whole' with
  | '.' :: rest => do
    let fraction := rest.takeWhile Char.isDigit
    let _ ← digits? fraction
    let exponent ← exponent? (rest.dropWhile Char.isDigit)
    some ⟨negative, Nat.ofDigitChars 10 fraction whole, exponent - fraction.length⟩
  | rest => (exponent? rest).map fun exponent => ⟨negative, whole, exponent⟩

def unsigned? (negative : Bool) (text : List Char) : Option Numeral := do
  let whole ← whole? (text.takeWhile Char.isDigit)
  scaled? negative whole (text.dropWhile Char.isDigit)

def parse : List Char → Option Numeral
  | '-' :: text => unsigned? true text
  | text => unsigned? false text

theorem digits?_isSome {ds : List Char} (h : (digits? ds).isSome) : ds ≠ [] ∧ ds.all isPart := by
  unfold digits? at h
  split at h
  next hds =>
    refine ⟨hds.1, List.all_eq_true.mpr fun c hc => ?_⟩
    rw [isPart, List.all_eq_true.mp hds.2 c hc]
    rfl
  · cases h

theorem whole?_isSome {ds : List Char} (h : (whole? ds).isSome) : ds ≠ [] ∧ ds.all isPart := by
  unfold whole? at h
  split at h
  · exact digits?_isSome h
  · cases h

theorem signed?_isSome {ds : List Char} (h : (signed? ds).isSome) : ds.all isPart := by
  unfold signed? at h
  split at h <;> rw [Option.isSome_map] at h
  · rw [List.all_cons, (digits?_isSome h).2]
    rfl
  · rw [List.all_cons, (digits?_isSome h).2]
    rfl
  · exact (digits?_isSome h).2

theorem exponent?_isSome {text : List Char} (h : (exponent? text).isSome) : text.all isPart := by
  cases text with
  | nil => rfl
  | cons c ds =>
    rw [exponent?] at h
    split at h
    case isFalse => cases h
    next hc =>
    rw [List.all_cons, signed?_isSome h]
    rcases hc with rfl | rfl <;> rfl

theorem scaled?_isSome {negative : Bool} {whole : Nat} {text : List Char}
    (h : (scaled? negative whole text).isSome) : text.all isPart := by
  unfold scaled? at h
  split at h
  next rest =>
    obtain ⟨n, hn⟩ := Option.isSome_iff_exists.mp h
    obtain ⟨_, hfraction, hn⟩ := Option.bind_eq_some_iff.mp hn
    obtain ⟨_, hexponent, -⟩ := Option.bind_eq_some_iff.mp hn
    have hf := (digits?_isSome (Option.isSome_of_eq_some hfraction)).2
    have he := exponent?_isSome (Option.isSome_of_eq_some hexponent)
    have hrest : rest.all isPart := by
      rw [← List.takeWhile_append_dropWhile (p := Char.isDigit) (l := rest), List.all_append, hf, he]
      rfl
    rw [List.all_cons, hrest]
    decide
  · rw [Option.isSome_map] at h
    exact exponent?_isSome h

theorem unsigned?_isSome {negative : Bool} {text : List Char}
    (h : (unsigned? negative text).isSome) : text ≠ [] ∧ text.all isPart := by
  obtain ⟨n, hn⟩ := Option.isSome_iff_exists.mp h
  obtain ⟨whole, hwhole, hn⟩ := Option.bind_eq_some_iff.mp hn
  obtain ⟨hne, hw⟩ := whole?_isSome (Option.isSome_of_eq_some hwhole)
  have hs := scaled?_isSome (Option.isSome_of_eq_some hn)
  constructor
  · rintro rfl
    exact hne rfl
  · rw [← List.takeWhile_append_dropWhile (p := Char.isDigit) (l := text), List.all_append, hw, hs]
    rfl

/-- A numeral is not empty and made of the characters of numerals. -/
theorem parse_isSome {text : List Char} (h : (parse text).isSome) :
    text ≠ [] ∧ text.all isPart := by
  unfold parse at h
  split at h
  next text =>
    have := (unsigned?_isSome h).2
    exact ⟨List.cons_ne_nil _ _, by rw [List.all_cons, this]; decide⟩
  · exact unsigned?_isSome h

example : parse "-12.50e+3".toList = some ⟨true, 1250, 1⟩ := by decide +kernel

/-! ### Writing -/

def magnitude (n : Numeral) : ℚ := n.mantissa * 10 ^ n.exponent

def value (n : Numeral) : ℚ := if n.negative then -n.magnitude else n.magnitude

/-- Digits with `point` of them before the decimal point, where it stands among them or a
few places from them; otherwise with one digit before it and an exponent. -/
def unsignedText (ds : List Char) (exponent : Int) : List Char :=
  let point := ds.length + exponent
  if 0 ≤ exponent ∧ point ≤ 21 then ds ++ List.replicate exponent.toNat '0'
  else if 0 < point ∧ point ≤ 21 then ds.take point.toNat ++ '.' :: ds.drop point.toNat
  else if -6 < point ∧ point ≤ 0 then
    '0' :: '.' :: (List.replicate (-point).toNat '0' ++ ds)
  else
    ds.take 1 ++ (if ds.length = 1 then [] else '.' :: ds.drop 1) ++
      'e' :: (if 0 < point then '+' else '-') :: Nat.toDigits 10 (point - 1).natAbs

/-- How the number is written. -/
def text (n : Numeral) : List Char :=
  (if n.negative then ['-'] else []) ++
    if n.mantissa = 0 then ['0'] else unsignedText (Nat.toDigits 10 n.mantissa) n.exponent

example : text ⟨true, 125, -2⟩ = "-1.25".toList ∧ text ⟨false, 125, -9⟩ = "1.25e-7".toList ∧
    text ⟨false, 1, 21⟩ = "1e+21".toList ∧ text ⟨false, 5, -3⟩ = "0.005".toList := by
  decide +kernel

theorem digits?_eq {ds : List Char} (hne : ds ≠ []) (h : ds.all Char.isDigit) :
    digits? ds = some (Nat.ofDigitChars 10 ds 0) := if_pos ⟨hne, h⟩

theorem all_isDigit_toDigits (n : Nat) : (Nat.toDigits 10 n).all Char.isDigit :=
  List.all_eq_true.mpr fun _ hc => Nat.isDigit_of_mem_toDigits (by decide) (by decide) hc

/-- A text that does not go on with a digit. -/
def Stops (text : List Char) : Prop := ∀ c ∈ text.head?, c.isDigit = false

theorem span_digits {ds text : List Char} (h : ds.all Char.isDigit) (ht : Stops text) :
    (ds ++ text).takeWhile Char.isDigit = ds ∧ (ds ++ text).dropWhile Char.isDigit = text := by
  have hall := List.all_eq_true.mp h
  rw [List.takeWhile_append_of_pos hall, List.dropWhile_append_of_pos hall]
  cases text with
  | nil => exact ⟨List.append_nil _, rfl⟩
  | cons c text =>
    have hc := ht c rfl
    rw [List.takeWhile_cons_of_neg (by rw [hc]; decide), List.append_nil]
    exact ⟨rfl, List.dropWhile_cons_of_neg (by rw [hc]; decide)⟩

/-- Digits that are the whole part of a number. -/
structure Whole (ds : List Char) : Prop where
  nonempty : ds ≠ []
  digits : ds.all Char.isDigit
  leading : ds = ['0'] ∨ ds.head? ≠ some '0'

theorem unsigned?_eq (negative : Bool) {ds text : List Char} (h : Whole ds) (ht : Stops text) :
    unsigned? negative (ds ++ text) = scaled? negative (Nat.ofDigitChars 10 ds 0) text := by
  obtain ⟨htake, hdrop⟩ := span_digits h.digits ht
  rw [unsigned?, htake, hdrop, whole?, if_pos h.leading, digits?_eq h.nonempty h.digits]
  rfl

/-- A number with a fraction. -/
theorem scaled?_fraction (negative : Bool) (whole : Nat) {ds text : List Char} (hne : ds ≠ [])
    (h : ds.all Char.isDigit) (ht : Stops text) :
    scaled? negative whole ('.' :: (ds ++ text)) =
      (exponent? text).map fun e =>
        ⟨negative, Nat.ofDigitChars 10 ds whole, e - ds.length⟩ := by
  obtain ⟨htake, hdrop⟩ := span_digits h ht
  simp only [scaled?, htake, hdrop, digits?_eq hne h]
  cases exponent? text <;> rfl

theorem scaled?_exponent (negative : Bool) (whole : Nat) (text : List Char) :
    scaled? negative whole ('e' :: text) =
      (exponent? ('e' :: text)).map fun e => ⟨negative, whole, e⟩ := rfl

theorem exponent?_text (point : Int) :
    exponent? ('e' :: (if 0 < point then '+' else '-') :: Nat.toDigits 10 (point - 1).natAbs) =
      some (point - 1) := by
  have hdigits := digits?_eq Nat.toDigits_ne_nil (all_isDigit_toDigits (point - 1).natAbs)
  rw [Nat.ofDigitChars_ten_toDigits] at hdigits
  rw [exponent?, if_pos (.inl rfl)]
  split
  next h =>
    rw [signed?, hdigits, Option.map_some, Int.ofNat_eq_natCast]
    congr 1
    omega
  next h =>
    rw [signed?, hdigits, Option.map_some]
    congr 1
    omega

theorem whole_toDigits {m : Nat} (h : 0 < m) : Whole (Nat.toDigits 10 m) :=
  ⟨Nat.toDigits_ne_nil, all_isDigit_toDigits m, .inr (Decimal.head?_toDigits h)⟩

theorem all_isDigit_zeros (k : Nat) : (List.replicate k '0').all Char.isDigit := by simp

theorem stops_nil : Stops [] := by simp [Stops]

theorem stops_cons {c : Char} (h : c.isDigit = false) (text : List Char) : Stops (c :: text) := by
  intro d hd
  rw [List.head?_cons, Option.mem_some_iff] at hd
  rw [← hd, h]

/-- Digits that do not begin with a zero. -/
structure Significant (ds : List Char) : Prop where
  nonempty : ds ≠ []
  digits : ds.all Char.isDigit
  leading : ds.head? ≠ some '0'

theorem significant_toDigits {m : Nat} (h : 0 < m) : Significant (Nat.toDigits 10 m) :=
  ⟨Nat.toDigits_ne_nil, all_isDigit_toDigits m, Decimal.head?_toDigits h⟩

variable {ds : List Char} (negative : Bool)

theorem Significant.whole_append (h : Significant ds) {ds' : List Char}
    (h' : ds'.all Char.isDigit) : Whole (ds ++ ds') := by
  refine ⟨by simp [h.nonempty], ?_, .inr ?_⟩
  · rw [List.all_append, h.digits, h']
    rfl
  · obtain ⟨c, cs, hcs⟩ := List.exists_cons_of_ne_nil h.nonempty
    have hlead := h.leading
    rw [hcs] at hlead ⊢
    exact hlead

/-- The digits before the point. -/
theorem Significant.whole_take (h : Significant ds) {k : Nat} (hk : 0 < k) :
    Whole (ds.take k) := by
  obtain ⟨c, cs, hcs⟩ := List.exists_cons_of_ne_nil h.nonempty
  obtain ⟨k, rfl⟩ : ∃ j, k = j + 1 := ⟨k - 1, by omega⟩
  have hlead := h.leading
  rw [hcs] at hlead ⊢
  refine ⟨List.cons_ne_nil _ _, List.all_eq_true.mpr fun d hd => ?_, .inr hlead⟩
  exact List.all_eq_true.mp h.digits d (hcs ▸ List.mem_of_mem_take hd)

theorem Significant.all_drop (h : Significant ds) (k : Nat) : (ds.drop k).all Char.isDigit :=
  List.all_eq_true.mpr fun d hd => List.all_eq_true.mp h.digits d (List.mem_of_mem_drop hd)

theorem ofDigitChars_take_drop (ds : List Char) (k : Nat) :
    Nat.ofDigitChars 10 (ds.drop k) (Nat.ofDigitChars 10 (ds.take k) 0) =
      Nat.ofDigitChars 10 ds 0 := by
  rw [← Nat.ofDigitChars_append, List.take_append_drop]

theorem unsigned?_integer (h : Significant ds) (k : Nat) :
    unsigned? negative (ds ++ List.replicate k '0') =
      some ⟨negative, 10 ^ k * Nat.ofDigitChars 10 ds 0, 0⟩ := by
  have heq := unsigned?_eq negative (h.whole_append (all_isDigit_zeros k)) stops_nil
  rw [List.append_nil, Nat.ofDigitChars_append, Nat.ofDigitChars_replicate_zero] at heq
  exact heq

theorem unsigned?_point (h : Significant ds) {k : Nat} (hk : 0 < k) (hlt : k < ds.length) :
    unsigned? negative (ds.take k ++ '.' :: ds.drop k) =
      some ⟨negative, Nat.ofDigitChars 10 ds 0, k - ds.length⟩ := by
  have hne : ds.drop k ≠ [] := by simpa using hlt
  have heq := fun whole => scaled?_fraction negative whole hne (h.all_drop k) stops_nil
  simp only [List.append_nil] at heq
  rw [unsigned?_eq negative (h.whole_take hk) (stops_cons rfl _), heq, ofDigitChars_take_drop,
    List.length_drop]
  simp only [exponent?, Option.map_some, Option.some.injEq, Numeral.mk.injEq, true_and]
  omega

theorem unsigned?_small (h : Significant ds) (k : Nat) :
    unsigned? negative ('0' :: '.' :: (List.replicate k '0' ++ ds)) =
      some ⟨negative, Nat.ofDigitChars 10 ds 0, -(k + ds.length)⟩ := by
  have hzero : Whole ['0'] := ⟨List.cons_ne_nil _ _, rfl, .inl rfl⟩
  have hall : (List.replicate k '0' ++ ds).all Char.isDigit := by
    rw [List.all_append, all_isDigit_zeros, h.digits]
    rfl
  have hne : List.replicate k '0' ++ ds ≠ [] := by simp [h.nonempty]
  have heq := scaled?_fraction negative 0 hne hall stops_nil
  have hwhole := unsigned?_eq negative hzero
    (stops_cons (c := '.') rfl (List.replicate k '0' ++ ds))
  rw [List.append_nil] at heq
  rw [List.singleton_append] at hwhole
  rw [hwhole]
  refine heq.trans ?_
  rw [Nat.ofDigitChars_append, Nat.ofDigitChars_replicate_zero, Nat.mul_zero]
  simp only [exponent?, Option.map_some, List.length_append, List.length_replicate]
  congr 2
  omega

theorem unsigned?_exponent (h : Significant ds) (point : Int) :
    unsigned? negative (ds.take 1 ++ (if ds.length = 1 then [] else '.' :: ds.drop 1) ++
        'e' :: (if 0 < point then '+' else '-') :: Nat.toDigits 10 (point - 1).natAbs) =
      some ⟨negative, Nat.ofDigitChars 10 ds 0, point - ds.length⟩ := by
  have htail := exponent?_text point
  rw [List.append_assoc]
  split
  next hone =>
    have htake : ds.take 1 = ds := List.take_of_length_le hone.le
    rw [List.nil_append, unsigned?_eq negative (h.whole_take Nat.one_pos) (stops_cons rfl _), htake]
    rw [scaled?_exponent, htail, Option.map_some, hone, Nat.cast_one]
  next hmore =>
    have hpos := List.length_pos_iff.mpr h.nonempty
    have hne : ds.drop 1 ≠ [] := by
      rw [Ne, List.drop_eq_nil_iff]
      omega
    rw [List.cons_append, unsigned?_eq negative (h.whole_take Nat.one_pos) (stops_cons rfl _),
      scaled?_fraction negative _ hne (h.all_drop 1) (stops_cons rfl _), htail, ofDigitChars_take_drop,
      List.length_drop, Option.map_some]
    congr 2
    omega

/-- However the number is written, it is read with its digits and the place of its point. -/
theorem unsigned?_unsignedText {m : Nat} (hm : 0 < m) (exponent : Int) :
    ∃ n, unsigned? negative (unsignedText (Nat.toDigits 10 m) exponent) = some n ∧
      n.negative = negative ∧ n.magnitude = m * 10 ^ exponent := by
  have hs := significant_toDigits hm
  have hm' : Nat.ofDigitChars 10 (Nat.toDigits 10 m) 0 = m := Nat.ofDigitChars_ten_toDigits
  generalize Nat.toDigits 10 m = ds at hs hm'
  simp only [unsignedText]
  by_cases hint : 0 ≤ exponent ∧ ds.length + exponent ≤ 21
  · rw [if_pos hint]
    refine ⟨_, unsigned?_integer negative hs _, rfl, ?_⟩
    rw [magnitude, hm', zpow_zero, mul_one, ← Int.toNat_of_nonneg hint.1, zpow_natCast,
      Int.toNat_natCast]
    push_cast
    ring
  rw [if_neg hint]
  by_cases hpoint : 0 < ds.length + exponent ∧ ds.length + exponent ≤ 21
  · rw [if_pos hpoint]
    refine ⟨_, unsigned?_point negative hs (by omega) (by omega), rfl, ?_⟩
    simp only [magnitude, hm']
    congr 2
    omega
  rw [if_neg hpoint]
  by_cases hsmall : -6 < ds.length + exponent ∧ ds.length + exponent ≤ 0
  · rw [if_pos hsmall]
    refine ⟨_, unsigned?_small negative hs _, rfl, ?_⟩
    simp only [magnitude, hm']
    congr 2
    omega
  · rw [if_neg hsmall]
    refine ⟨_, unsigned?_exponent negative hs _, rfl, ?_⟩
    simp only [magnitude, hm']
    congr 2
    omega

theorem parse_of_unsigned? {text : List Char} {n : Numeral} (h : unsigned? false text = some n) :
    parse text = some n := by
  unfold parse
  split
  · cases h
  · exact h

/-- Digits alone. -/
theorem unsigned?_toDigits (negative : Bool) (n : Nat) :
    unsigned? negative (Nat.toDigits 10 n) = some ⟨negative, n, 0⟩ := by
  have hwhole : Whole (Nat.toDigits 10 n) := by
    rcases Nat.eq_zero_or_pos n with rfl | hn
    · exact ⟨by decide, by decide, .inl rfl⟩
    · exact whole_toDigits hn
  have heq := unsigned?_eq negative hwhole stops_nil
  rw [List.append_nil, Nat.ofDigitChars_ten_toDigits] at heq
  exact heq

/-- An integer is read back from its decimal digits. -/
theorem parse_toString (z : Int) :
    parse (toString z).toList = some ⟨decide (z < 0), z.natAbs, 0⟩ := by
  cases z with
  | ofNat n =>
    have htext : (toString (Int.ofNat n)).toList = Nat.toDigits 10 n := Nat.toList_repr
    rw [htext]
    exact parse_of_unsigned? (unsigned?_toDigits false n)
  | negSucc n =>
    have htext : (toString (Int.negSucc n)).toList = '-' :: Nat.toDigits 10 (n + 1) := by
      show ("-" ++ Nat.repr (n + 1)).toList = _
      rw [String.toList_append, Nat.toList_repr]
      rfl
    have hneg : decide (Int.negSucc n < 0) = true := decide_eq_true (Int.negSucc_lt_zero n)
    rw [htext, hneg]
    exact unsigned?_toDigits true (n + 1)

/-- A number is read back with its value. -/
theorem parse_text (n : Numeral) :
    ∃ n', parse n.text = some n' ∧ n'.negative = n.negative ∧ n'.magnitude = n.magnitude := by
  have hunsigned : ∃ n', unsigned? n.negative
      (if n.mantissa = 0 then ['0'] else unsignedText (Nat.toDigits 10 n.mantissa) n.exponent) =
        some n' ∧ n'.negative = n.negative ∧ n'.magnitude = n.magnitude := by
    split
    next h => exact ⟨⟨n.negative, 0, 0⟩, by cases n.negative <;> rfl, rfl, by simp [magnitude, h]⟩
    next h => exact unsigned?_unsignedText n.negative (Nat.pos_of_ne_zero h) n.exponent
  obtain ⟨n', hparse, hrest⟩ := hunsigned
  refine ⟨n', ?_, hrest⟩
  rw [text]
  cases hneg : n.negative with
  | false =>
    rw [hneg] at hparse
    exact parse_of_unsigned? hparse
  | true =>
    rw [hneg] at hparse
    exact hparse

theorem value_congr {n n' : Numeral} (hn : n'.negative = n.negative)
    (hm : n'.magnitude = n.magnitude) : n'.value = n.value := by
  rw [value, value, hn, hm]

/-! ### Integers -/

end Numeral

end JobFlow.Lib
