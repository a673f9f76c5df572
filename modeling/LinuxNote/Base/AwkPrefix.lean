import LinuxNote.Base.AwkNumber
import Mathlib.Tactic.Positivity

/-!
# A number in front of a text

What `awk` reads from a text that goes on behind a number, such as a number with its unit.

* `NoDigit` — a text that does not go on with a digit.
* `numValue_decimal_rest` — **a printed number** in front of a text.
* `numValue_decimal_point` — **two of them** with a point between.
-/

namespace AwkNumber

section Prefix

variable {whole frac rest : List Char}

/-- A text that does not go on with a digit. -/
def NoDigit : List Char → Prop
  | [] => True
  | c :: _ => c.isDigit = false

instance : DecidablePred NoDigit
  | [] => isTrue trivial
  | c :: _ => inferInstanceAs (Decidable (c.isDigit = false))

theorem NoDigit.takeWhile (h : NoDigit rest) : rest.takeWhile Char.isDigit = [] := by
  cases rest with
  | nil => rfl
  | cons c s => exact List.takeWhile_cons_of_neg (Bool.not_eq_true _ ▸ h)

theorem NoDigit.dropWhile (h : NoDigit rest) : rest.dropWhile Char.isDigit = rest := by
  cases rest with
  | nil => rfl
  | cons c s => exact List.dropWhile_cons_of_neg (Bool.not_eq_true _ ▸ h)

/-- **Digits and a fraction** in front of a text. -/
theorem unsignedValue_point (hne : whole ≠ []) (hwhole : ∀ c ∈ whole, c.isDigit = true)
    (hfrac : ∀ c ∈ frac, c.isDigit = true) (h : NoDigit rest) :
    unsignedValue (whole ++ '.' :: (frac ++ rest)) =
      Nat.ofDigitChars 10 (whole ++ frac) 0 / 10 ^ frac.length * scale rest := by
  have hpoint : NoDigit ('.' :: (frac ++ rest)) := rfl
  have htake : (whole ++ '.' :: (frac ++ rest)).takeWhile Char.isDigit = whole := by
    rw [List.takeWhile_append_of_pos hwhole, hpoint.takeWhile, List.append_nil]
  have hdrop : (whole ++ '.' :: (frac ++ rest)).dropWhile Char.isDigit =
      '.' :: (frac ++ rest) := by
    rw [List.dropWhile_append_of_pos hwhole, hpoint.dropWhile]
  have hfraction : fraction ('.' :: (frac ++ rest)) = (frac, rest) := by
    rw [fraction, List.takeWhile_append_of_pos hfrac, List.dropWhile_append_of_pos hfrac,
      h.takeWhile, h.dropWhile, List.append_nil]
  simp only [unsignedValue, htake, hdrop, hfraction]
  rw [if_neg (by simp [hne])]

/-- **Digits** in front of a text that does not go on with a point. -/
theorem unsignedValue_whole (hne : whole ≠ []) (hwhole : ∀ c ∈ whole, c.isDigit = true)
    (h : NoDigit rest) (hpoint : rest.head? ≠ some '.') :
    unsignedValue (whole ++ rest) = Nat.ofDigitChars 10 whole 0 * scale rest := by
  have htake : (whole ++ rest).takeWhile Char.isDigit = whole := by
    rw [List.takeWhile_append_of_pos hwhole, h.takeWhile, List.append_nil]
  have hdrop : (whole ++ rest).dropWhile Char.isDigit = rest := by
    rw [List.dropWhile_append_of_pos hwhole, h.dropWhile]
  have hfraction : fraction rest = ([], rest) := by
    unfold fraction
    split
    · exact absurd rfl hpoint
    · rfl
  simp only [unsignedValue, htake, hdrop, hfraction]
  rw [List.append_nil, if_neg hne, List.length_nil, pow_zero, div_one]

/-- What starts with a printed number is read without a sign. -/
theorem numValue_decimal_append (n : ℕ) (s : List Char) :
    numValue (CText.decimal n ++ s) = unsignedValue (CText.decimal n ++ s) := by
  obtain ⟨c, t, hct⟩ := List.exists_cons_of_ne_nil (CText.decimal_ne_nil n)
  have hc : c.isDigit = true := CText.isDigit_of_mem_decimal (hct ▸ List.mem_cons_self)
  rw [hct, List.cons_append, numValue_digit hc]

/-- **A printed number** in front of a text. -/
theorem numValue_decimal_rest (n : ℕ) (h : NoDigit rest) (hpoint : rest.head? ≠ some '.') :
    numValue (CText.decimal n ++ rest) = n * scale rest := by
  rw [numValue_decimal_append, unsignedValue_whole (CText.decimal_ne_nil n)
    (fun c hc => CText.isDigit_of_mem_decimal hc) h hpoint, CText.decimal,
    Nat.ofDigitChars_ten_toDigits]

/-- **Two printed numbers** with a point between them. -/
theorem numValue_decimal_point (n m : ℕ) (h : NoDigit rest) :
    numValue (CText.decimal n ++ '.' :: (CText.decimal m ++ rest)) =
      (n + m / 10 ^ (CText.decimal m).length) * scale rest := by
  have hvalue : Nat.ofDigitChars 10 (CText.decimal n ++ CText.decimal m) 0 =
      10 ^ (CText.decimal m).length * n + m := by
    rw [Nat.ofDigitChars_append, Nat.ofDigitChars_eq_ofDigitChars_zero, CText.decimal,
      CText.decimal, Nat.ofDigitChars_ten_toDigits, Nat.ofDigitChars_ten_toDigits]
  have hpow : (10 : ℚ) ^ (CText.decimal m).length ≠ 0 := by positivity
  rw [numValue_decimal_append, unsignedValue_point (CText.decimal_ne_nil n)
    (fun c hc => CText.isDigit_of_mem_decimal hc) (fun c hc => CText.isDigit_of_mem_decimal hc) h,
    hvalue]
  congr 1
  push_cast
  rw [add_div, mul_div_cancel_left₀ _ hpow]

end Prefix

end AwkNumber
