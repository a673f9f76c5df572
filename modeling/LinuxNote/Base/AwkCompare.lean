import LinuxNote.Base.AwkNumber
import Mathlib.Data.List.Lex
import Mathlib.Data.List.TakeWhile

/-!
# Comparisons in awk

A field of a line or a value given with `-v` is compared as a number with another one if
both look like numbers, and as a text otherwise.  A field that the line does not have is
empty and counts as 0 in a comparison with a number.

* `looksNumeric` — texts that are a number as a whole.
* `awkGt`, `awkGe`, `awkLe`, `awkEq` — a field compared with a value given with `-v`.
* `numValue_decimal` — the value of a printed number.
* `leads_of_looksNumeric` — what a number may start with.
-/

namespace AwkNumber

/-! ### Texts that look like numbers -/

/-- A text without its sign, of which there is one at most: `--1` is no number. -/
def dropSign : List Char → List Char
  | '-' :: s => s
  | '+' :: s => s
  | s => s

/-- Nothing, or an exponent with digits.  `1e` has a value, but it does not look like a
number, and is compared as a text. -/
def looksExponent : List Char → Bool
  | [] => true
  | c :: s => (c == 'e' || c == 'E') && !(dropSign s).isEmpty && (dropSign s).all Char.isDigit

/-- The text is a number as a whole, with nothing behind it.  There must be a digit
before the exponent, on one side of the point or on the other. -/
def looksNumeric (s : List Char) : Bool :=
  let whole := (dropSign s).takeWhile Char.isDigit
  let frac := fraction ((dropSign s).dropWhile Char.isDigit)
  !(whole ++ frac.1).isEmpty && looksExponent frac.2

/-- A field looks like a number, or is missing.  A missing field is both the empty text
and 0, and takes the side of what it is compared with. -/
def fieldNumeric (f : List Char) : Bool := f.isEmpty || looksNumeric f

/-- `$n > v`.  The field comes first, and only a field can be missing; an empty value
given with `-v` is a text. -/
def awkGt (f v : List Char) : Bool :=
  if fieldNumeric f && looksNumeric v then decide (numValue v < numValue f) else decide (v < f)

/-- `$n <= v`. -/
def awkLe (f v : List Char) : Bool :=
  if fieldNumeric f && looksNumeric v then decide (numValue f ≤ numValue v) else !decide (v < f)

/-- `$n == v`. -/
def awkEq (f v : List Char) : Bool :=
  if fieldNumeric f && looksNumeric v then decide (numValue f = numValue v) else f == v

theorem awkEq_self (f : List Char) : awkEq f f = true := by
  unfold awkEq
  split <;> simp

section Compare

variable {f v : List Char}

/-- Two numbers are compared as numbers. -/
theorem awkEq_of_numeric (hf : fieldNumeric f = true) (hv : looksNumeric v = true) :
    awkEq f v = decide (numValue f = numValue v) := by
  rw [awkEq, hf, hv, Bool.and_self, if_pos rfl]

theorem awkGt_of_numeric (hf : fieldNumeric f = true) (hv : looksNumeric v = true) :
    awkGt f v = decide (numValue v < numValue f) := by
  rw [awkGt, hf, hv, Bool.and_self, if_pos rfl]

theorem awkLe_of_numeric (hf : fieldNumeric f = true) (hv : looksNumeric v = true) :
    awkLe f v = decide (numValue f ≤ numValue v) := by
  rw [awkLe, hf, hv, Bool.and_self, if_pos rfl]

/-- With a text, everything is compared as a text. -/
theorem awkEq_of_text (h : fieldNumeric f = false) : awkEq f v = (f == v) := by
  rw [awkEq, h, Bool.false_and, if_neg (by decide)]

theorem awkGt_of_text (h : fieldNumeric f = false) : awkGt f v = decide (v < f) := by
  rw [awkGt, h, Bool.false_and, if_neg (by decide)]

theorem fieldNumeric_of_looksNumeric (h : looksNumeric f = true) : fieldNumeric f = true := by
  rw [fieldNumeric, h, Bool.or_true]

end Compare

/-! ### The characters of a number -/

/-- A text is its sign and what follows. -/
theorem mem_of_dropSign {s : List Char} {c : Char} (h : c ∈ s) :
    c = '-' ∨ c = '+' ∨ c ∈ dropSign s := by
  unfold dropSign
  split
  · rcases List.mem_cons.mp h with rfl | h
    · exact Or.inl rfl
    · exact Or.inr (Or.inr h)
  · rcases List.mem_cons.mp h with rfl | h
    · exact Or.inr (Or.inl rfl)
    · exact Or.inr (Or.inr h)
  · exact Or.inr (Or.inr h)

/-- A text that starts with a digit has no sign. -/
theorem dropSign_digit {c : Char} (hc : c.isDigit = true) (t : List Char) :
    dropSign (c :: t) = c :: t := by
  unfold dropSign
  split
  · next h =>
    rw [(List.cons.inj h).1] at hc
    exact absurd hc (by decide)
  · next h =>
    rw [(List.cons.inj h).1] at hc
    exact absurd hc (by decide)
  · rfl

/-- The characters that numbers are written with. -/
def isNumberChar (c : Char) : Bool :=
  c.isDigit || c == '-' || c == '+' || c == '.' || c == 'e' || c == 'E'

theorem isNumberChar_of_mem_exponent {s : List Char} (hs : looksExponent s = true) {c : Char}
    (h : c ∈ s) : isNumberChar c = true := by
  cases s with
  | nil => exact absurd h List.not_mem_nil
  | cons e s =>
    simp only [looksExponent, Bool.and_eq_true, Bool.or_eq_true, beq_iff_eq, List.all_eq_true]
      at hs
    obtain ⟨⟨he, -⟩, hdigits⟩ := hs
    rcases List.mem_cons.mp h with rfl | h
    · rcases he with rfl | rfl <;> rfl
    · rcases mem_of_dropSign h with rfl | rfl | h
      · rfl
      · rfl
      · simp [isNumberChar, hdigits c h]

/-- A fraction is its point, its digits and what follows. -/
theorem mem_of_fraction {s : List Char} {c : Char} (h : c ∈ s) :
    c = '.' ∨ c ∈ (fraction s).1 ∨ c ∈ (fraction s).2 := by
  unfold fraction
  split
  · next t =>
    rcases List.mem_cons.mp h with rfl | h
    · exact Or.inl rfl
    · right
      rw [← List.takeWhile_append_dropWhile (p := Char.isDigit) (l := t)] at h
      exact List.mem_append.mp h
  · exact Or.inr (Or.inr h)

theorem isDigit_of_mem_fraction {s : List Char} {c : Char} (h : c ∈ (fraction s).1) :
    c.isDigit = true := by
  unfold fraction at h
  split at h
  · exact List.mem_takeWhile_imp h
  · exact absurd h List.not_mem_nil

/-- A text that looks like a number has no other characters. -/
theorem isNumberChar_of_mem {s : List Char} (hs : looksNumeric s = true) {c : Char}
    (h : c ∈ s) : isNumberChar c = true := by
  simp only [looksNumeric, Bool.and_eq_true] at hs
  rcases mem_of_dropSign h with rfl | rfl | h
  · rfl
  · rfl
  rw [← List.takeWhile_append_dropWhile (p := Char.isDigit) (l := dropSign s),
    List.mem_append] at h
  rcases h with h | h
  · simp [isNumberChar, List.mem_takeWhile_imp h]
  rcases mem_of_fraction h with rfl | h | h
  · rfl
  · simp [isNumberChar, isDigit_of_mem_fraction h]
  · exact isNumberChar_of_mem_exponent hs.2 h

/-- **A number starts with** a digit, a sign or a point. -/
theorem leads_of_looksNumeric {s : List Char} (hs : looksNumeric s = true) :
    ∃ c t, s = c :: t ∧ (c.isDigit = true ∨ c = '-' ∨ c = '+' ∨ c = '.') := by
  cases s with
  | nil => exact absurd hs (by decide)
  | cons c t =>
    refine ⟨c, t, rfl, ?_⟩
    by_contra hc
    simp only [not_or] at hc
    obtain ⟨hdigit, hminus, hplus, hpoint⟩ := hc
    have hsign : dropSign (c :: t) = c :: t := by
      unfold dropSign
      split
      · next h => exact absurd (List.cons.inj h).1 hminus
      · next h => exact absurd (List.cons.inj h).1 hplus
      · rfl
    have hfrac : fraction (c :: t) = ([], c :: t) := by
      unfold fraction
      split
      · next h => exact absurd (List.cons.inj h).1 hpoint
      · rfl
    -- neither digits nor a fraction
    unfold looksNumeric at hs
    rw [hsign, List.takeWhile_cons_of_neg hdigit, List.dropWhile_cons_of_neg hdigit, hfrac] at hs
    exact absurd hs (by simp)

/-- A text that starts with a percent sign comes before every number. -/
theorem percent_lt_of_looksNumeric {s : List Char} (hs : looksNumeric s = true)
    {t : List Char} : '%' :: t < s := by
  obtain ⟨c, u, rfl, hc⟩ := leads_of_looksNumeric hs
  apply List.Lex.rel
  rcases hc with hc | rfl | rfl | rfl
  · rw [Char.isDigit_iff_toNat] at hc
    have hcode : '%'.toNat < '0'.toNat := by decide
    exact Nat.lt_of_lt_of_le hcode hc.1
  · decide
  · decide
  · decide

/-- A text that starts with a letter comes behind every number. -/
theorem lt_of_looksNumeric {s : List Char} (hs : looksNumeric s = true) {c : Char} (hc : '9' < c)
    {t : List Char} : s < c :: t := by
  obtain ⟨d, u, rfl, hd⟩ := leads_of_looksNumeric hs
  apply List.Lex.rel
  have hnine : d ≤ '9' := by
    rcases hd with hd | rfl | rfl | rfl
    · rw [Char.isDigit_iff_toNat] at hd
      exact hd.2
    · decide
    · decide
    · decide
  exact Nat.lt_of_le_of_lt hnine hc

/-! ### Printed numbers -/

theorem takeWhile_decimal (n : ℕ) :
    (CText.decimal n).takeWhile Char.isDigit = CText.decimal n := by
  rw [List.takeWhile_eq_self_iff]
  exact fun c hc => CText.isDigit_of_mem_decimal hc

theorem dropWhile_decimal (n : ℕ) : (CText.decimal n).dropWhile Char.isDigit = [] := by
  rw [List.dropWhile_eq_nil_iff]
  exact fun c hc => CText.isDigit_of_mem_decimal hc

/-- A printed number starts with a digit. -/
theorem exists_digit_decimal (n : ℕ) : ∃ c t, CText.decimal n = c :: t ∧ c.isDigit = true := by
  obtain ⟨c, t, hct⟩ := List.exists_cons_of_ne_nil (CText.decimal_ne_nil n)
  exact ⟨c, t, hct, CText.isDigit_of_mem_decimal (by rw [hct]; exact List.mem_cons_self)⟩

theorem dropSign_decimal (n : ℕ) : dropSign (CText.decimal n) = CText.decimal n := by
  obtain ⟨c, t, hct, hc⟩ := exists_digit_decimal n
  rw [hct, dropSign_digit hc]

theorem looksNumeric_decimal (n : ℕ) : looksNumeric (CText.decimal n) = true := by
  have hne := CText.decimal_ne_nil n
  simp only [looksNumeric, dropSign_decimal, takeWhile_decimal, dropWhile_decimal]
  simpa [fraction, looksExponent] using hne

/-- **The value of a printed number.** -/
theorem numValue_decimal (n : ℕ) : numValue (CText.decimal n) = n := by
  obtain ⟨c, t, hct, hc⟩ := exists_digit_decimal n
  have hvalue : unsignedValue (CText.decimal n) = n := by
    simp only [unsignedValue, takeWhile_decimal, dropWhile_decimal, fraction, List.append_nil,
      CText.decimal_ne_nil, if_false, scale]
    have hdigits : Nat.ofDigitChars 10 (CText.decimal n) 0 = n := Nat.ofDigitChars_ten_toDigits
    rw [hdigits]
    simp
  rw [hct, numValue_digit hc, ← hct, hvalue]

/-- Printed numbers are compared as numbers. -/
theorem awkEq_decimal (m n : ℕ) :
    awkEq (CText.decimal m) (CText.decimal n) = decide (m = n) := by
  rw [awkEq_of_numeric (fieldNumeric_of_looksNumeric (looksNumeric_decimal m))
    (looksNumeric_decimal n), numValue_decimal, numValue_decimal]
  simp

/-- A text that starts with none of the characters of a number is not a number. -/
theorem looksNumeric_cons_eq_false {c : Char} {t : List Char} (hdigit : c.isDigit = false)
    (hsign : c ≠ '-' ∧ c ≠ '+' ∧ c ≠ '.') : looksNumeric (c :: t) = false := by
  by_contra h
  obtain ⟨d, u, hdu, hlead⟩ := leads_of_looksNumeric (Bool.not_eq_false _ ▸ h)
  obtain ⟨rfl, rfl⟩ := List.cons.inj hdu
  rcases hlead with h | h | h | h
  · rw [hdigit] at h
    exact absurd h (by decide)
  · exact hsign.1 h
  · exact hsign.2.1 h
  · exact hsign.2.2 h

end AwkNumber
