import LinuxNote.Base.CText
import Mathlib.Data.Int.Log
import Mathlib.Data.Rat.Floor
import Mathlib.Algebra.Order.Field.Power

/-!
# Numbers in awk

A field of a line counts as the number it starts with, and a number is printed with the
format `%.6g` unless it is an integer.  Numbers are exact here; the special words
`+nan` and `-inf` are not read.

* `numValue` — the number a text starts with; `awkMod` — the operator `%`.
* `numText` — a number as `print` and `%s` write it.
* `minus_mem_numText` — a negative number has a minus sign, and
  `minus_notMem_numText` — one that is at least 1 has none, not even in its exponent.
* `one_le_numValue_numText` — the text of a number that is at least 1 has a value that
  is at least 1.
-/

namespace AwkNumber

/-! ### Reading -/

/-- The digits of a text behind its decimal point, and what follows them. -/
def fraction : List Char → List Char × List Char
  | '.' :: s => (s.takeWhile Char.isDigit, s.dropWhile Char.isDigit)
  | s => ([], s)

/-- Ten to the power of a number that may have a sign. -/
def power : List Char → ℚ
  | '-' :: s => 1 / 10 ^ CText.leadingNat s
  | '+' :: s => 10 ^ CText.leadingNat s
  | s => 10 ^ CText.leadingNat s

/-- The factor of an exponent behind `e` or `E`, 1 without one. -/
def scale : List Char → ℚ
  | [] => 1
  | c :: s => if c = 'e' ∨ c = 'E' then power s else 1

/-- The number without a sign that a text starts with. -/
def unsignedValue (s : List Char) : ℚ :=
  let whole := s.takeWhile Char.isDigit
  let frac := fraction (s.dropWhile Char.isDigit)
  if whole ++ frac.1 = [] then 0
  else Nat.ofDigitChars 10 (whole ++ frac.1) 0 / 10 ^ frac.1.length * scale frac.2

/-- The number that a text starts with; 0 if there is none. -/
def numValue (s : List Char) : ℚ :=
  match s.dropWhile CText.isSpace with
  | '-' :: t => -unsignedValue t
  | '+' :: t => unsignedValue t
  | t => unsignedValue t

/-! ### Remainders -/

/-- `x % y`: what is left of a division whose quotient is truncated. -/
def awkMod (x y : ℚ) : ℚ := x - y * (if 0 ≤ x / y then ⌊x / y⌋ else ⌈x / y⌉)

theorem awkMod_natCast (m n : ℕ) : awkMod m n = (m % n : ℕ) := by
  have hnonneg : (0 : ℚ) ≤ m / n := by positivity
  have hsplit : ((n * (m / n) + m % n : ℕ) : ℚ) = m := by rw [Nat.div_add_mod]
  rw [Nat.cast_add, Nat.cast_mul] at hsplit
  rw [awkMod, if_pos hnonneg, Rat.floor_natCast_div_natCast, ← Int.natCast_div,
    Int.cast_natCast]
  linarith

/-! ### Printing -/

/-- Rounding to the nearest integer, ties to the even one. -/
def roundEven (x : ℚ) : ℕ :=
  if x - ⌊x⌋₊ < 1 / 2 ∨ x - ⌊x⌋₊ = 1 / 2 ∧ ⌊x⌋₊ % 2 = 0 then ⌊x⌋₊ else ⌊x⌋₊ + 1

/-- Rounding may have carried six digits to seven, as for 999999.5, and then the exponent
is one more. -/
def carry (m : ℕ) (e : ℤ) : ℕ × ℤ := if m = 10 ^ 6 then (10 ^ 5, e + 1) else (m, e)

/-- Six significant digits and the exponent of the first of them. -/
def sixDigits (x : ℚ) : ℕ × ℤ := carry (roundEven (x * 10 ^ (5 - Int.log 10 x))) (Int.log 10 x)

/-- Digits without the zeros at their end, which `%g` leaves out and `%f` does not. -/
def stripZeros (s : List Char) : List Char := (s.reverse.dropWhile (· == '0')).reverse

/-- The digits behind the decimal point, with the point, which is not there when all of
the digits were zeros. -/
def fractionText (s : List Char) : List Char :=
  if stripZeros s = [] then [] else '.' :: stripZeros s

/-- An exponent, with at least two digits. -/
def exponentText (e : ℤ) : List Char :=
  let digits := CText.decimal e.natAbs
  ['e', if e < 0 then '-' else '+'] ++ (if digits.length < 2 then '0' :: digits else digits)

/-- Digits of which the first has the exponent `e`, as `%g` writes them. -/
def placeDigits (digits : List Char) (e : ℤ) : List Char :=
  if e < -4 ∨ 6 ≤ e then digits.take 1 ++ fractionText (digits.drop 1) ++ exponentText e
  -- small numbers start behind the point
  else if e < 0 then '0' :: fractionText (List.replicate (e.natAbs - 1) '0' ++ digits)
  else digits.take (e.toNat + 1) ++ fractionText (digits.drop (e.toNat + 1))

/-- `%.6g` for a positive number. -/
def positiveText (x : ℚ) : List Char :=
  placeDigits (CText.decimal (sixDigits x).1) (sixDigits x).2

/-- A number as `print` and `%s` write it: integers with all their digits, everything
else with `%.6g`. -/
def numText (x : ℚ) : List Char :=
  (if x < 0 then ['-'] else []) ++
    if x.den = 1 then CText.decimal x.num.natAbs else positiveText |x|

/-! ### Minus signs -/

theorem minus_notMem_decimal (n : ℕ) : '-' ∉ CText.decimal n := by
  intro h
  exact absurd (CText.isDigit_of_mem_decimal h) (by decide)

theorem minus_notMem_fractionText {s : List Char} (h : '-' ∉ s) : '-' ∉ fractionText s := by
  have hstrip : '-' ∉ stripZeros s := by
    intro hin
    rw [stripZeros, List.mem_reverse] at hin
    exact h (List.mem_reverse.mp (List.dropWhile_subset _ hin))
  unfold fractionText
  split
  · exact List.not_mem_nil
  · rw [List.mem_cons, not_or]
    exact ⟨by decide, hstrip⟩

theorem minus_notMem_exponentText {e : ℤ} (he : 0 ≤ e) : '-' ∉ exponentText e := by
  have hdigits := minus_notMem_decimal e.natAbs
  unfold exponentText
  rw [if_neg (by omega), List.mem_append, not_or]
  refine ⟨by decide, ?_⟩
  split
  · rw [List.mem_cons, not_or]
    exact ⟨by decide, hdigits⟩
  · exact hdigits

theorem le_roundEven (x : ℚ) : ⌊x⌋₊ ≤ roundEven x := by
  unfold roundEven
  split <;> omega

/-- The digits of a number that is at least 1: the first stands at the ones or before. -/
theorem sixDigits_of_one_le {x : ℚ} (hx : 1 ≤ x) : 0 < (sixDigits x).1 ∧ 0 ≤ (sixDigits x).2 := by
  have hlog : 0 ≤ Int.log 10 x := by
    rw [Int.log_of_one_le_right 10 hx]
    exact Int.natCast_nonneg _
  -- scaling puts the first digit at the hundred thousands
  have hscaled : (10 : ℚ) ^ (5 : ℤ) ≤ x * 10 ^ (5 - Int.log 10 x) := by
    have hself : ((10 : ℕ) : ℚ) ^ Int.log 10 x ≤ x :=
      Int.zpow_log_le_self (by decide) (by linarith)
    calc (10 : ℚ) ^ (5 : ℤ) = 10 ^ Int.log 10 x * 10 ^ (5 - Int.log 10 x) := by
          rw [← zpow_add₀ (by norm_num)]
          congr 1
          omega
      _ ≤ x * 10 ^ (5 - Int.log 10 x) := by
          apply mul_le_mul_of_nonneg_right
          · exact_mod_cast hself
          · positivity
  have hround : 0 < roundEven (x * 10 ^ (5 - Int.log 10 x)) := by
    refine Nat.lt_of_lt_of_le ?_ (le_roundEven _)
    rw [Nat.floor_pos]
    exact le_trans (by norm_num) hscaled
  unfold sixDigits carry
  split
  · exact ⟨Nat.pow_pos (by decide), Int.add_nonneg hlog (by decide)⟩
  · exact ⟨hround, hlog⟩

theorem minus_notMem_placeDigits {digits : List Char} (hdigits : '-' ∉ digits) {e : ℤ}
    (he : 0 ≤ e) : '-' ∉ placeDigits digits e := by
  have htake : ∀ k, '-' ∉ digits.take k := fun k h => hdigits (List.mem_of_mem_take h)
  have hdrop : ∀ k, '-' ∉ fractionText (digits.drop k) :=
    fun k => minus_notMem_fractionText fun h => hdigits (List.mem_of_mem_drop h)
  unfold placeDigits
  split
  · rw [List.mem_append, List.mem_append, not_or, not_or]
    exact ⟨⟨htake 1, hdrop 1⟩, minus_notMem_exponentText he⟩
  · rw [if_neg (by omega), List.mem_append, not_or]
    exact ⟨htake _, hdrop _⟩

/-- The text of a number that is at least 1 has no minus sign. -/
theorem minus_notMem_numText {x : ℚ} (hx : 1 ≤ x) : '-' ∉ numText x := by
  unfold numText
  rw [if_neg (by linarith), List.nil_append]
  split
  · exact minus_notMem_decimal _
  · rw [abs_of_nonneg (by linarith)]
    exact minus_notMem_placeDigits (minus_notMem_decimal _) (sixDigits_of_one_le hx).2

/-- The text of a negative number has a minus sign. -/
theorem minus_mem_numText {x : ℚ} (hx : x < 0) : '-' ∈ numText x := by
  rw [numText, if_pos hx]
  exact List.mem_append_left _ List.mem_cons_self

/-! ### The value of a text -/

/-- A text that starts with a digit other than 0. -/
def LeadsPositive (s : List Char) : Prop := ∃ c t, s = c :: t ∧ c.isDigit = true ∧ c ≠ '0'

theorem LeadsPositive.append {s : List Char} (h : LeadsPositive s) (t : List Char) :
    LeadsPositive (s ++ t) := by
  obtain ⟨c, u, rfl, hc⟩ := h
  exact ⟨c, u ++ t, rfl, hc⟩

theorem LeadsPositive.take {s : List Char} (h : LeadsPositive s) (k : ℕ) :
    LeadsPositive (s.take (k + 1)) := by
  obtain ⟨c, u, rfl, hc⟩ := h
  exact ⟨c, u.take k, rfl, hc⟩

/-- A positive number is printed without leading zeros. -/
theorem leadsPositive_decimal {n : ℕ} (hn : 0 < n) : LeadsPositive (CText.decimal n) := by
  induction n using Nat.base_induction 10 (by decide) with
  | single m hm =>
    rw [CText.decimal_of_lt_ten hm]
    have hdigit : ∀ m < 10, 0 < m → m.digitChar.isDigit = true ∧ m.digitChar ≠ '0' := by decide
    exact ⟨_, [], rfl, hdigit m hm hn⟩
  | digit m k hk hm ih =>
    rw [CText.decimal_of_ten_le (by omega)]
    apply LeadsPositive.append
    have hdiv : (10 * m + k) / 10 = m := by omega
    rw [hdiv]
    exact ih hm

theorem LeadsPositive.placeDigits {digits : List Char} (h : LeadsPositive digits) {e : ℤ}
    (he : 0 ≤ e) : LeadsPositive (placeDigits digits e) := by
  unfold AwkNumber.placeDigits
  split
  · exact ((h.take 0).append _).append _
  · rw [if_neg (by omega)]
    exact (h.take _).append _

theorem leadsPositive_numText {x : ℚ} (hx : 1 ≤ x) : LeadsPositive (numText x) := by
  obtain ⟨hdigits, hexp⟩ := sixDigits_of_one_le hx
  unfold numText
  rw [if_neg (by linarith), List.nil_append]
  split
  · have hnum : 0 < x.num := Rat.num_pos.mpr (by linarith)
    exact leadsPositive_decimal (by omega)
  · rw [abs_of_nonneg (by linarith)]
    exact (leadsPositive_decimal hdigits).placeDigits hexp

/-- Digits that start with one other than 0 count at least as much as 1 in its place. -/
theorem pow_le_ofDigitChars {c : Char} (hc : c.isDigit = true) (hzero : c ≠ '0')
    (s : List Char) : 10 ^ s.length ≤ Nat.ofDigitChars 10 (c :: s) 0 := by
  have hpos : 1 ≤ c.toNat - '0'.toNat := by
    rw [Char.isDigit_iff_toNat] at hc
    have hne : c.toNat ≠ '0'.toNat := fun h => hzero (Char.toNat_inj.mp h)
    have hcode : '0'.toNat = 48 := rfl
    omega
  rw [Nat.ofDigitChars_cons, Nat.ofDigitChars_eq_ofDigitChars_zero]
  calc 10 ^ s.length = 10 ^ s.length * 1 := (Nat.mul_one _).symm
    _ ≤ 10 ^ s.length * (10 * 0 + (c.toNat - '0'.toNat)) := Nat.mul_le_mul_left _ (by omega)
    _ ≤ _ := Nat.le_add_right _ _

/-- An exponent without a minus sign scales up. -/
theorem one_le_scale {s : List Char} (h : '-' ∉ s) : 1 ≤ scale s := by
  have hpow : ∀ n : ℕ, (1 : ℚ) ≤ 10 ^ n := fun n => one_le_pow₀ (by norm_num)
  cases s with
  | nil => exact le_refl 1
  | cons c s =>
    rw [scale]
    split
    · unfold power
      split
      · exact absurd (List.mem_cons_of_mem c List.mem_cons_self) h
      · exact hpow _
      · exact hpow _
    · exact le_refl 1

theorem mem_of_mem_fraction {s : List Char} {c : Char} (h : c ∈ (fraction s).2) : c ∈ s := by
  unfold fraction at h
  split at h
  · exact List.mem_cons_of_mem _ (List.dropWhile_subset _ h)
  · exact h

theorem one_le_unsignedValue {s : List Char} (hs : LeadsPositive s) (hminus : '-' ∉ s) :
    1 ≤ unsignedValue s := by
  obtain ⟨c, t, rfl, hc, hzero⟩ := hs
  have hrest : '-' ∉ (fraction (t.dropWhile Char.isDigit)).2 := fun h =>
    hminus (List.mem_cons_of_mem c (List.dropWhile_subset _ (mem_of_mem_fraction h)))
  unfold unsignedValue
  simp only [List.takeWhile_cons_of_pos hc, List.dropWhile_cons_of_pos hc, List.cons_append,
    reduceCtorEq, if_false]
  generalize t.takeWhile Char.isDigit = whole at *
  generalize fraction (t.dropWhile Char.isDigit) = frac at *
  have hdigits := pow_le_ofDigitChars hc hzero (whole ++ frac.1)
  rw [List.length_append] at hdigits
  have hpow : 10 ^ frac.1.length ≤ Nat.ofDigitChars 10 (c :: (whole ++ frac.1)) 0 :=
    (Nat.pow_le_pow_right (by decide) (Nat.le_add_left _ _)).trans hdigits
  have hmantissa : (1 : ℚ) ≤ Nat.ofDigitChars 10 (c :: (whole ++ frac.1)) 0 / 10 ^ frac.1.length := by
    rw [one_le_div (by positivity)]
    exact_mod_cast hpow
  exact one_le_mul_of_one_le_of_one_le hmantissa (one_le_scale hrest)

/-- A text that starts with a digit counts as it is. -/
theorem numValue_digit {c : Char} (hc : c.isDigit = true) (t : List Char) :
    numValue (c :: t) = unsignedValue (c :: t) := by
  unfold numValue
  rw [List.dropWhile_cons_of_neg (by simp [CText.isSpace_eq_false_of_isDigit hc])]
  split
  · next h =>
    rw [(List.cons.inj h).1] at hc
    exact absurd hc (by decide)
  · next h =>
    rw [(List.cons.inj h).1] at hc
    exact absurd hc (by decide)
  · rfl

/-- A text that does not start like a number counts as 0. -/
theorem numValue_eq_zero {c : Char} (hspace : CText.isSpace c = false) (hdigit : c.isDigit = false)
    (hsign : c ≠ '-' ∧ c ≠ '+' ∧ c ≠ '.') (t : List Char) : numValue (c :: t) = 0 := by
  have hunsigned : unsignedValue (c :: t) = 0 := by
    have hfraction : fraction (c :: t) = ([], c :: t) := by
      unfold fraction
      split
      · next h => exact absurd (List.cons.inj h).1 hsign.2.2
      · rfl
    unfold unsignedValue
    rw [List.takeWhile_cons_of_neg (by simp [hdigit]), List.dropWhile_cons_of_neg (by simp [hdigit]),
      hfraction]
    rfl
  unfold numValue
  rw [List.dropWhile_cons_of_neg (by simp [hspace])]
  split
  · next h => exact absurd (List.cons.inj h).1 hsign.1
  · next h => exact absurd (List.cons.inj h).1 hsign.2.1
  · exact hunsigned

/-- A text without a minus sign that starts with a digit other than 0 has a value that
is at least 1. -/
theorem one_le_numValue {s : List Char} (hs : LeadsPositive s) (hminus : '-' ∉ s) :
    1 ≤ numValue s := by
  have hvalue := one_le_unsignedValue hs hminus
  obtain ⟨c, t, rfl, hc, -⟩ := hs
  rw [numValue_digit hc]
  exact hvalue

/-- Printing and reading does not bring a number below 1. -/
theorem one_le_numValue_numText {x : ℚ} (hx : 1 ≤ x) : 1 ≤ numValue (numText x) :=
  one_le_numValue (leadsPositive_numText hx) (minus_notMem_numText hx)

end AwkNumber
