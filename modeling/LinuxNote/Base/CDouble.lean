import Mathlib.Data.Rat.Floor

/-!
# Floating point numbers of C

The finite numbers, which are not rounded here, the infinite ones, and what is not a number.  A zero
has no sign, and is taken for the positive one.

## Main definitions

* `CDouble` — the numbers, with their products and quotients.
* `CDouble.Lt`, `CDouble.min` — a comparison, and the choice that C writes with one.
* `CDouble.toLong` — the conversion to an integer, which is only defined for finite numbers.
-/

/-- A floating point number: a finite one, one of the two infinite ones, or what is not a number. -/
inductive CDouble
  | finite (q : ℚ)
  | infinite (negative : Bool)
  | nan
deriving DecidableEq

namespace CDouble

instance : Coe ℚ CDouble := ⟨finite⟩

/-- A product. -/
protected def mul : CDouble → CDouble → CDouble
  | finite a, finite b => finite (a * b)
  | infinite s, infinite t => infinite (s ^^ t)
  | infinite s, finite b => if b = 0 then nan else infinite (s ^^ decide (b < 0))
  | finite a, infinite t => if a = 0 then nan else infinite (decide (a < 0) ^^ t)
  | nan, _ => nan
  | _, nan => nan

/-- A quotient. -/
protected def div : CDouble → CDouble → CDouble
  | finite a, finite b =>
    if b ≠ 0 then finite (a / b) else if a = 0 then nan else infinite (decide (a < 0))
  | infinite s, finite b => infinite (s ^^ decide (b < 0))
  | finite _, infinite _ => finite 0
  | infinite _, infinite _ => nan
  | nan, _ => nan
  | _, nan => nan

instance : Mul CDouble := ⟨CDouble.mul⟩

instance : Div CDouble := ⟨CDouble.div⟩

@[simp] theorem finite_mul (a b : ℚ) : finite a * finite b = finite (a * b) := rfl

theorem finite_div_finite (a b : ℚ) : finite a / finite b =
    if b ≠ 0 then finite (a / b) else if a = 0 then nan else infinite (decide (a < 0)) := rfl

theorem finite_div (a : ℚ) {b : ℚ} (hb : b ≠ 0) : finite a / finite b = finite (a / b) :=
  if_pos hb

theorem finite_div_infinite (a : ℚ) (s : Bool) : finite a / infinite s = finite 0 := rfl

/-- The comparison `<`, which never holds of what is not a number. -/
def Lt : CDouble → CDouble → Prop
  | finite a, finite b => a < b
  | infinite s, finite _ => s = true
  | finite _, infinite t => t = false
  | infinite s, infinite t => s = true ∧ t = false
  | nan, _ => False
  | _, nan => False

instance : DecidableRel Lt
  | finite a, finite b => inferInstanceAs (Decidable (a < b))
  | infinite s, finite _ => inferInstanceAs (Decidable (s = true))
  | finite _, infinite t => inferInstanceAs (Decidable (t = false))
  | infinite s, infinite t => inferInstanceAs (Decidable (s = true ∧ t = false))
  | nan, _ => inferInstanceAs (Decidable False)
  | finite _, nan => inferInstanceAs (Decidable False)
  | infinite _, nan => inferInstanceAs (Decidable False)

theorem finite_mul_infinite (a : ℚ) (t : Bool) :
    finite a * infinite t = if a = 0 then nan else infinite (decide (a < 0) ^^ t) := rfl

theorem infinite_mul_finite (s : Bool) (b : ℚ) :
    infinite s * finite b = if b = 0 then nan else infinite (s ^^ decide (b < 0)) := rfl

theorem mul_nan (x : CDouble) : x * nan = nan := by
  cases x <;> rfl

/-- What is divided by zero is no number after a product with zero. -/
theorem div_zero_mul_zero (a : ℚ) : finite a / finite 0 * finite 0 = nan := by
  rw [finite_div_finite, if_neg (not_not.mpr rfl)]
  split
  · rfl
  · rw [infinite_mul_finite, if_pos rfl]

/-- A finite product has finite factors. -/
theorem exists_finite_of_mul {x y : CDouble} {p : ℚ} (h : x * y = finite p) :
    ∃ b, y = finite b := by
  cases y with
  | finite b => exact ⟨b, rfl⟩
  | infinite t =>
    cases x with
    | finite a =>
      rw [finite_mul_infinite] at h
      split at h <;> cases h
    | infinite s => cases h
    | nan => cases h
  | nan =>
    rw [mul_nan] at h
    cases h

/-- What is divided by a positive product and multiplied with its second factor is not negative
infinite. -/
theorem div_mul_ne_infinite (a : ℚ) {x y : CDouble} (h : Lt (finite 0) (x * y)) :
    finite a / (x * y) * y ≠ infinite true := by
  cases hxy : x * y with
  | finite p =>
    obtain ⟨b, rfl⟩ := exists_finite_of_mul hxy
    rw [hxy] at h
    have hp : 0 < p := h
    rw [finite_div a hp.ne', finite_mul]
    exact CDouble.noConfusion
  | infinite s =>
    rw [finite_div_infinite]
    cases y with
    | finite b => exact CDouble.noConfusion
    | infinite t =>
      rw [finite_mul_infinite, if_pos rfl]
      exact CDouble.noConfusion
    | nan => exact CDouble.noConfusion
  | nan =>
    rw [hxy] at h
    exact h.elim

/-- `a < b ? a : b`. -/
def min (a b : CDouble) : CDouble := if Lt a b then a else b

theorem min_finite (a b : ℚ) : min (finite a) (finite b) = finite (Min.min a b) := by
  rw [min, min_def_lt]
  exact apply_ite .. |>.symm

/-- The conversion to an integer cuts off the fraction.  An infinite number has no integer, as C
leaves it undefined; a bound on the finite ones is left to whoever converts one. -/
def toLong : CDouble → Option ℤ
  | finite q => some (if 0 ≤ q then ⌊q⌋ else ⌈q⌉)
  | _ => none

theorem toLong_finite {q : ℚ} (hq : 0 ≤ q) : toLong (finite q) = some ⌊q⌋ := by
  rw [toLong, if_pos hq]

/-- The smaller of two numbers can be converted, if the second one is finite. -/
theorem exists_toLong_min {x : CDouble} (hx : x ≠ infinite true) (b : ℚ) :
    ∃ n, (CDouble.min x (finite b)).toLong = some n := by
  cases x with
  | finite a =>
    rw [min_finite]
    exact ⟨_, rfl⟩
  | infinite s =>
    cases s with
    | true => exact absurd rfl hx
    | false => exact ⟨_, rfl⟩
  | nan => exact ⟨_, rfl⟩

end CDouble
