import LinuxNote.Base.AwkCompare

/-!
# Printed numbers read back

What `awk` reads from a number that it has printed: the number itself if it is an integer,
and otherwise the number rounded to six significant digits.

* `printed` — a number after printing and reading.
* `reads_numText` — **a printed number is read back** as what it was rounded to.
* `sixValue_mono` — rounding keeps the order.
* `not_crossing` — printing does not move one number up to a bound and another one below it.
* `reread` — what is read of any number that was printed; `reread_natCast`, `reread_le`,
  `le_reread`.
* `eq_of_reread_eq` — **what is read as a whole number with too many digits** was one.
-/

namespace AwkNumber

/-! ### Digits, a fraction and an exponent -/

/-- A text that is a number as a whole, and its value. -/
def Reads (s : List Char) (v : ℚ) : Prop := looksNumeric s = true ∧ numValue s = v

theorem stripZeros_append (s : List Char) :
    ∃ k, s = stripZeros s ++ List.replicate k '0' := by
  refine ⟨(s.reverse.takeWhile (· == '0')).length, ?_⟩
  have hzeros : s.reverse.takeWhile (· == '0') =
      List.replicate (s.reverse.takeWhile (· == '0')).length '0' := by
    rw [List.eq_replicate_iff]
    exact ⟨rfl, fun c hc => by simpa using List.mem_takeWhile_imp hc⟩
  calc s = (s.reverse.takeWhile (· == '0') ++ s.reverse.dropWhile (· == '0')).reverse := by
        rw [List.takeWhile_append_dropWhile, List.reverse_reverse]
    _ = stripZeros s ++ (s.reverse.takeWhile (· == '0')).reverse := List.reverse_append
    _ = stripZeros s ++ List.replicate (s.reverse.takeWhile (· == '0')).length '0' := by
        rw [hzeros, List.reverse_replicate, List.length_replicate]

/-- What may follow a fraction: nothing, or an exponent.  Neither begins with a digit, and so the
digits before it are read up to their end. -/
def IsTail (t : List Char) : Prop := t = [] ∨ ∃ e, t = exponentText e

section Reading

variable {whole frac tail : List Char}

theorem takeWhile_tail (h : IsTail tail) : tail.takeWhile Char.isDigit = [] := by
  rcases h with rfl | ⟨e, rfl⟩
  · rfl
  · rfl

theorem isDigit_of_mem_stripZeros (h : ∀ c ∈ frac, c.isDigit = true) {c : Char}
    (hc : c ∈ stripZeros frac) : c.isDigit = true := by
  obtain ⟨k, hk⟩ := stripZeros_append frac
  apply h
  rw [hk]
  exact List.mem_append_left _ hc

/-- A printed fraction is read without its last zeros. -/
theorem fraction_fractionText (hfrac : ∀ c ∈ frac, c.isDigit = true) (htail : IsTail tail) :
    fraction (fractionText frac ++ tail) = (stripZeros frac, tail) := by
  unfold fractionText
  split
  · next hnone =>
    rw [hnone, List.nil_append]
    rcases htail with rfl | ⟨e, rfl⟩
    · rfl
    · rfl
  · have hdigits : ∀ c ∈ stripZeros frac, c.isDigit = true :=
      fun c hc => isDigit_of_mem_stripZeros hfrac hc
    have htake := takeWhile_tail htail
    have hdrop : tail.dropWhile Char.isDigit = tail := by
      have hall := List.takeWhile_append_dropWhile (p := Char.isDigit) (l := tail)
      rw [htake, List.nil_append] at hall
      exact hall
    rw [List.cons_append, fraction, List.takeWhile_append_of_pos hdigits, htake, List.append_nil,
      List.dropWhile_append_of_pos hdigits, hdrop]

theorem takeWhile_fractionText (htail : IsTail tail) :
    (fractionText frac ++ tail).takeWhile Char.isDigit = [] := by
  unfold fractionText
  split
  · exact takeWhile_tail htail
  · rfl

theorem dropWhile_fractionText (htail : IsTail tail) :
    (fractionText frac ++ tail).dropWhile Char.isDigit = fractionText frac ++ tail := by
  have hall := List.takeWhile_append_dropWhile (p := Char.isDigit) (l := fractionText frac ++ tail)
  rw [takeWhile_fractionText htail, List.nil_append] at hall
  exact hall

/-- Zeros at the end of a fraction do not count. -/
theorem ofDigitChars_stripZeros (whole frac : List Char) :
    (Nat.ofDigitChars 10 (whole ++ stripZeros frac) 0 : ℚ) / 10 ^ (stripZeros frac).length =
      Nat.ofDigitChars 10 (whole ++ frac) 0 / 10 ^ frac.length := by
  obtain ⟨k, hk⟩ := stripZeros_append frac
  have hlength : frac.length = (stripZeros frac).length + k := by
    conv_lhs => rw [hk]
    simp
  have hvalue : Nat.ofDigitChars 10 (whole ++ frac) 0 =
      10 ^ k * Nat.ofDigitChars 10 (whole ++ stripZeros frac) 0 := by
    conv_lhs => rw [hk]
    rw [← List.append_assoc, Nat.ofDigitChars_append, Nat.ofDigitChars_replicate_zero]
  rw [hlength, hvalue, pow_add, mul_comm ((10 : ℚ) ^ _), Nat.cast_mul, Nat.cast_pow,
    Nat.cast_ofNat]
  exact (mul_div_mul_left _ _ (by positivity)).symm

/-- **Digits, a fraction and an exponent** are read one after the other. -/
theorem unsignedValue_digits (hne : whole ≠ []) (hwhole : ∀ c ∈ whole, c.isDigit = true)
    (hfrac : ∀ c ∈ frac, c.isDigit = true) (htail : IsTail tail) :
    unsignedValue (whole ++ (fractionText frac ++ tail)) =
      Nat.ofDigitChars 10 (whole ++ frac) 0 / 10 ^ frac.length * scale tail := by
  have htake : (whole ++ (fractionText frac ++ tail)).takeWhile Char.isDigit = whole := by
    rw [List.takeWhile_append_of_pos hwhole, takeWhile_fractionText htail, List.append_nil]
  have hdrop : (whole ++ (fractionText frac ++ tail)).dropWhile Char.isDigit =
      fractionText frac ++ tail := by
    rw [List.dropWhile_append_of_pos hwhole, dropWhile_fractionText htail]
  simp only [unsignedValue, htake, hdrop, fraction_fractionText hfrac htail]
  rw [if_neg (by simp [hne]), ofDigitChars_stripZeros]

/-- The digits of an exponent. -/
theorem exponentText_eq (e : ℤ) :
    ∃ digits : List Char, exponentText e = 'e' :: (if e < 0 then '-' else '+') :: digits ∧
      digits ≠ [] ∧ (∀ c ∈ digits, c.isDigit = true) ∧ CText.leadingNat digits = e.natAbs := by
  have hdigits : ∀ c ∈ CText.decimal e.natAbs, c.isDigit = true :=
    fun c hc => CText.isDigit_of_mem_decimal hc
  have hvalue : Nat.ofDigitChars 10 (CText.decimal e.natAbs) 0 = e.natAbs :=
    Nat.ofDigitChars_ten_toDigits
  by_cases hshort : (CText.decimal e.natAbs).length < 2
  · refine ⟨'0' :: CText.decimal e.natAbs, by simp [exponentText, hshort], by simp, ?_, ?_⟩
    · intro c hc
      rcases List.mem_cons.mp hc with rfl | hc
      · rfl
      · exact hdigits c hc
    · rw [CText.leadingNat, List.takeWhile_cons_of_pos rfl, takeWhile_decimal,
        Nat.ofDigitChars_cons]
      exact hvalue
  · refine ⟨CText.decimal e.natAbs, by simp [exponentText, hshort], CText.decimal_ne_nil _,
      hdigits, ?_⟩
    rw [CText.leadingNat, takeWhile_decimal, hvalue]

theorem scale_exponentText (e : ℤ) : scale (exponentText e) = 10 ^ e := by
  obtain ⟨digits, htext, -, -, hvalue⟩ := exponentText_eq e
  rw [htext, scale, if_pos (Or.inl rfl)]
  by_cases he : e < 0
  · rw [if_pos he, power, hvalue, one_div, ← zpow_natCast, ← zpow_neg]
    congr 1
    omega
  · rw [if_neg he, power, hvalue, ← zpow_natCast]
    congr 1
    omega

theorem looksExponent_exponentText (e : ℤ) : looksExponent (exponentText e) = true := by
  obtain ⟨digits, htext, hne, hdigits, -⟩ := exponentText_eq e
  have hsign : dropSign ((if e < 0 then '-' else '+') :: digits) = digits := by
    split <;> rfl
  rw [htext, looksExponent, hsign]
  simpa [hne] using hdigits

theorem looksExponent_tail (h : IsTail tail) : looksExponent tail = true := by
  rcases h with rfl | ⟨e, rfl⟩
  · rfl
  · exact looksExponent_exponentText e

/-- **Digits, a fraction and an exponent** are a number as a whole. -/
theorem reads_digits (hne : whole ≠ []) (hwhole : ∀ c ∈ whole, c.isDigit = true)
    (hfrac : ∀ c ∈ frac, c.isDigit = true) (htail : IsTail tail) :
    Reads (whole ++ (fractionText frac ++ tail))
      (Nat.ofDigitChars 10 (whole ++ frac) 0 / 10 ^ frac.length * scale tail) := by
  have hvalue := unsignedValue_digits hne hwhole hfrac htail
  have htake : (whole ++ (fractionText frac ++ tail)).takeWhile Char.isDigit = whole := by
    rw [List.takeWhile_append_of_pos hwhole, takeWhile_fractionText htail, List.append_nil]
  have hdrop : (whole ++ (fractionText frac ++ tail)).dropWhile Char.isDigit =
      fractionText frac ++ tail := by
    rw [List.dropWhile_append_of_pos hwhole, dropWhile_fractionText htail]
  obtain ⟨c, t, rfl⟩ := List.exists_cons_of_ne_nil hne
  have hc : c.isDigit = true := hwhole c List.mem_cons_self
  refine ⟨?_, ?_⟩
  · rw [List.cons_append] at htake hdrop ⊢
    simp only [looksNumeric, dropSign_digit hc, htake, hdrop, fraction_fractionText hfrac htail,
      looksExponent_tail htail]
    simp
  · rw [List.cons_append] at hvalue ⊢
    rw [numValue_digit hc, hvalue]

end Reading

/-! ### Six significant digits -/

/-- The value of six digits of which the first has the exponent `e`. -/
def sixValue (d : ℕ × ℤ) : ℚ := d.1 * 10 ^ (d.2 - 5)

/-- The last digit stands behind the point. -/
theorem sixValue_eq_div (m : ℕ) {e : ℤ} {k : ℕ} (h : e - 5 = -(k : ℤ)) :
    sixValue (m, e) = m / 10 ^ k * scale [] := by
  rw [sixValue, h, zpow_neg, zpow_natCast, scale, mul_one, div_eq_mul_inv]

/-- **Digits are read back** wherever they were placed: behind zeros, around the point, or with an
exponent. -/
theorem reads_placeDigits {m : ℕ} (hm : (CText.decimal m).length = 6) (e : ℤ) :
    Reads (placeDigits (CText.decimal m) e) (sixValue (m, e)) := by
  have hdigits : ∀ c ∈ CText.decimal m, c.isDigit = true :=
    fun c hc => CText.isDigit_of_mem_decimal hc
  have hvalue : Nat.ofDigitChars 10 (CText.decimal m) 0 = m := Nat.ofDigitChars_ten_toDigits
  have htake : ∀ k, ∀ c ∈ (CText.decimal m).take k, c.isDigit = true :=
    fun k c hc => hdigits c (List.mem_of_mem_take hc)
  have hdrop : ∀ k, ∀ c ∈ (CText.decimal m).drop k, c.isDigit = true :=
    fun k c hc => hdigits c (List.mem_of_mem_drop hc)
  have hfirst : ∀ k, (CText.decimal m).take (k + 1) ≠ [] := by
    intro k h
    have hlength := congrArg List.length h
    rw [List.length_take, hm, List.length_nil] at hlength
    omega
  unfold placeDigits
  split
  -- with an exponent: one digit, the point, and the other five
  · have hreads := reads_digits (hfirst 0) (htake 1) (hdrop 1) (Or.inr ⟨e, rfl⟩)
    rw [List.take_append_drop, hvalue, List.length_drop, hm, scale_exponentText] at hreads
    have hsix : sixValue (m, e) = m / 10 ^ (6 - 1) * 10 ^ e := by
      rw [sixValue, zpow_sub₀ (by norm_num), zpow_ofNat, div_mul_eq_mul_div, mul_div_assoc]
    rw [List.append_assoc, hsix]
    exact hreads
  · split
    -- below 1: the digits stand behind zeros
    · have hzero : ∀ c ∈ ['0'], c.isDigit = true := List.forall_mem_singleton.mpr rfl
      have hzeros : ∀ c ∈ List.replicate (e.natAbs - 1) '0' ++ CText.decimal m,
          c.isDigit = true := by
        intro c hc
        rcases List.mem_append.mp hc with hc | hc
        · rw [List.eq_of_mem_replicate hc]
          rfl
        · exact hdigits c hc
      have hall : Nat.ofDigitChars 10
          (['0'] ++ (List.replicate (e.natAbs - 1) '0' ++ CText.decimal m)) 0 = m := by
        rw [Nat.ofDigitChars_append, Nat.ofDigitChars_append, Nat.ofDigitChars_replicate_zero]
        exact hvalue
      have hreads := reads_digits (by simp) hzero hzeros (Or.inl rfl)
      rw [hall, List.length_append, List.length_replicate, hm, List.append_nil] at hreads
      rw [sixValue_eq_div (k := e.natAbs - 1 + 6) m (by omega)]
      exact hreads
    -- otherwise the point is among the digits
    · have hreads := reads_digits (hfirst e.toNat) (htake _) (hdrop (e.toNat + 1)) (Or.inl rfl)
      rw [List.take_append_drop, hvalue, List.length_drop, hm, List.append_nil] at hreads
      rw [sixValue_eq_div (k := 6 - (e.toNat + 1)) m (by omega)]
      exact hreads

/-! ### Rounding -/

theorem roundEven_le_succ (x : ℚ) : roundEven x ≤ ⌊x⌋₊ + 1 := by
  unfold roundEven
  split <;> omega

theorem roundEven_mono {x y : ℚ} (hxy : x ≤ y) : roundEven x ≤ roundEven y := by
  have hfloor : ⌊x⌋₊ ≤ ⌊y⌋₊ := Nat.floor_mono hxy
  rcases Nat.lt_or_eq_of_le hfloor with hlt | heq
  · calc roundEven x ≤ ⌊x⌋₊ + 1 := roundEven_le_succ x
      _ ≤ ⌊y⌋₊ := hlt
      _ ≤ roundEven y := le_roundEven y
  · -- what is rounded down stays so when it gets smaller
    have hsub : x - ⌊x⌋₊ ≤ y - ⌊x⌋₊ := sub_le_sub_right hxy _
    unfold roundEven
    rw [← heq]
    split
    · split <;> omega
    · next hup =>
      rw [if_neg]
      rintro (hlow | ⟨htie, heven⟩)
      · exact hup (Or.inl (lt_of_le_of_lt hsub hlow))
      · rcases lt_or_eq_of_le (hsub.trans_eq htie) with hlow | hhalf
        · exact hup (Or.inl hlow)
        · exact hup (Or.inr ⟨hhalf, heven⟩)

theorem roundEven_natCast (n : ℕ) : roundEven (n : ℚ) = n := by
  unfold roundEven
  rw [Nat.floor_natCast, if_pos (Or.inl (by norm_num))]

/-- A number with six digits in front of the point. -/
def scaled (x : ℚ) : ℚ := x * 10 ^ (5 - Int.log 10 x)

theorem scaled_bounds {x : ℚ} (hx : 0 < x) : 10 ^ 5 ≤ scaled x ∧ scaled x < 10 ^ 6 := by
  have hlow : (10 : ℚ) ^ Int.log 10 x ≤ x := by
    exact_mod_cast Int.zpow_log_le_self (b := 10) (by decide) hx
  have hhigh : x < (10 : ℚ) ^ (Int.log 10 x + 1) := by
    exact_mod_cast Int.lt_zpow_succ_log_self (b := 10) (by decide) x
  have hpos : (0 : ℚ) < 10 ^ (5 - Int.log 10 x) := by positivity
  unfold scaled
  constructor
  · calc (10 : ℚ) ^ 5 = 10 ^ Int.log 10 x * 10 ^ (5 - Int.log 10 x) := by
          rw [← zpow_add₀ (by norm_num), add_sub_cancel]
          rfl
      _ ≤ x * 10 ^ (5 - Int.log 10 x) := mul_le_mul_of_nonneg_right hlow hpos.le
  · calc x * 10 ^ (5 - Int.log 10 x) < 10 ^ (Int.log 10 x + 1) * 10 ^ (5 - Int.log 10 x) :=
          mul_lt_mul_of_pos_right hhigh hpos
      _ = 10 ^ 6 := by
          have hsum : Int.log 10 x + 1 + (5 - Int.log 10 x) = 6 := by ring
          rw [← zpow_add₀ (by norm_num), hsum]
          rfl

theorem roundEven_scaled {x : ℚ} (hx : 0 < x) :
    10 ^ 5 ≤ roundEven (scaled x) ∧ roundEven (scaled x) ≤ 10 ^ 6 := by
  obtain ⟨hlow, hhigh⟩ := scaled_bounds hx
  have hten : ∀ k : ℕ, roundEven ((10 : ℚ) ^ k) = 10 ^ k := by
    intro k
    rw [← roundEven_natCast (10 ^ k)]
    norm_num
  constructor
  · rw [← hten 5]
    exact roundEven_mono hlow
  · rw [← hten 6]
    exact roundEven_mono hhigh.le

/-- A positive number has six digits. -/
theorem length_sixDigits {x : ℚ} (hx : 0 < x) : (CText.decimal (sixDigits x).1).length = 6 := by
  obtain ⟨hlow, hhigh⟩ := roundEven_scaled hx
  have hdigits : 10 ^ 5 ≤ (sixDigits x).1 ∧ (sixDigits x).1 < 10 ^ 6 := by
    change 10 ^ 5 ≤ (carry (roundEven (scaled x)) _).1 ∧ (carry (roundEven (scaled x)) _).1 < 10 ^ 6
    unfold carry
    split
    · exact ⟨le_refl _, Nat.pow_lt_pow_right (by decide) (by decide)⟩
    · next hne => exact ⟨hlow, Nat.lt_of_le_of_ne hhigh hne⟩
  have hle := CText.length_decimal_le (k := 6) (by decide) hdigits.2
  have hgt : ¬ (CText.decimal (sixDigits x).1).length ≤ 5 := by
    intro h
    exact absurd ((Nat.length_toDigits_le_iff (by decide) (by decide)).mp h) (by omega)
  omega

/-- A carry does not change the value. -/
theorem sixValue_carry (m : ℕ) (e : ℤ) : sixValue (carry m e) = sixValue (m, e) := by
  unfold carry
  split
  · next h =>
    subst h
    rw [sixValue, sixValue, add_sub_right_comm, zpow_add_one₀ (by norm_num)]
    push_cast
    ring
  · rfl

theorem sixValue_sixDigits (x : ℚ) :
    sixValue (sixDigits x) = roundEven (scaled x) * 10 ^ (Int.log 10 x - 5) :=
  sixValue_carry _ _

/-- A number that is not negative, after printing and reading. -/
def printed (x : ℚ) : ℚ := if x.den = 1 then x else sixValue (sixDigits x)

/-- **A printed number is read back** as what it was rounded to. -/
theorem reads_numText {x : ℚ} (hx : 0 ≤ x) : Reads (numText x) (printed x) := by
  unfold numText printed
  rw [if_neg (not_lt.mpr hx), List.nil_append]
  split
  · next hden =>
    have hint : (x.num.natAbs : ℚ) = x := by
      have hnum : (x.num.natAbs : ℤ) = x.num := Int.natAbs_of_nonneg (Rat.num_nonneg.mpr hx)
      rw [← Int.cast_natCast, hnum]
      exact Rat.den_eq_one_iff x |>.mp hden
    refine ⟨looksNumeric_decimal _, ?_⟩
    rw [numValue_decimal, hint]
  · next hden =>
    have hpos : 0 < x := lt_of_le_of_ne hx (by rintro rfl; exact hden rfl)
    rw [abs_of_nonneg hx]
    exact reads_placeDigits (length_sixDigits hpos) _

/-- What one program reads of a number that another one has printed. -/
def reread (x : ℚ) : ℚ := numValue (numText x)

theorem reread_eq_printed {x : ℚ} (hx : 0 ≤ x) : reread x = printed x := (reads_numText hx).2

/-- Whole numbers are printed with all their digits. -/
@[simp] theorem reread_natCast (n : ℕ) : reread n = n := by
  rw [reread_eq_printed (Nat.cast_nonneg n), printed, if_pos (Rat.den_natCast n)]

/-- A number is back when its six digits are put where they were. -/
theorem scaled_mul (x : ℚ) : scaled x * 10 ^ (Int.log 10 x - 5) = x := by
  have hsum : 5 - Int.log 10 x + (Int.log 10 x - 5) = 0 := by ring
  rw [scaled, mul_assoc, ← zpow_add₀ (by norm_num), hsum, zpow_zero, mul_one]

/-- Six digits are close to the number. -/
theorem sixValue_sixDigits_le {x : ℚ} (hx : 0 < x) : sixValue (sixDigits x) ≤ 3 / 2 * x := by
  have hlow := (scaled_bounds hx).1
  have hround : (roundEven (scaled x) : ℚ) ≤ 3 / 2 * scaled x := by
    calc (roundEven (scaled x) : ℚ) ≤ ⌊scaled x⌋₊ + 1 := by exact_mod_cast roundEven_le_succ _
      _ ≤ scaled x + 1 := by
          gcongr
          exact Nat.floor_le (by linarith)
      _ ≤ 3 / 2 * scaled x := by linarith
  calc sixValue (sixDigits x) = roundEven (scaled x) * 10 ^ (Int.log 10 x - 5) :=
        sixValue_sixDigits x
    _ ≤ 3 / 2 * scaled x * 10 ^ (Int.log 10 x - 5) := by gcongr
    _ = 3 / 2 * x := by rw [mul_assoc, scaled_mul]

theorem reread_le {x : ℚ} (hx : 0 ≤ x) : reread x ≤ 3 / 2 * x := by
  rw [reread_eq_printed hx, printed]
  split
  · linarith
  · next hden =>
    exact sixValue_sixDigits_le (lt_of_le_of_ne hx (by rintro rfl; exact hden rfl))

/-- Nor are they far below it. -/
theorem le_reread {x : ℚ} (hx : 0 ≤ x) : x / 2 ≤ reread x := by
  rw [reread_eq_printed hx, printed]
  split
  · linarith
  · next hden =>
    have hpos : 0 < x := lt_of_le_of_ne hx (by rintro rfl; exact hden rfl)
    have hlow := (scaled_bounds hpos).1
    have hround : scaled x / 2 ≤ roundEven (scaled x) := by
      have hfloor : (⌊scaled x⌋₊ : ℚ) ≤ roundEven (scaled x) := by exact_mod_cast le_roundEven _
      have hlt := Nat.lt_floor_add_one (scaled x)
      linarith
    calc x / 2 = scaled x / 2 * 10 ^ (Int.log 10 x - 5) := by
          rw [div_mul_eq_mul_div, scaled_mul]
      _ ≤ roundEven (scaled x) * 10 ^ (Int.log 10 x - 5) := by gcongr
      _ = sixValue (sixDigits x) := (sixValue_sixDigits x).symm

/-- **A whole number with too many digits is read** only where it was printed: a number with a
fraction is printed with six digits, and zeros behind them. -/
theorem eq_of_reread_eq {x : ℚ} (hx : 0 ≤ x) {k m : ℕ} (hm : Nat.Coprime 10 m) (hlarge : 10 ^ 6 < m)
    (h : reread x = (k + 1) * m) : x = (k + 1) * m := by
  rw [reread_eq_printed hx, printed] at h
  split at h
  · exact h
  · next hden =>
    exfalso
    have hpos : 0 < x := lt_of_le_of_ne hx (by rintro rfl; exact hden rfl)
    have hsix := (roundEven_scaled hpos).2
    rw [sixValue_sixDigits] at h
    generalize roundEven (scaled x) = n at h hsix
    have hwhole : 10 ^ 6 < (k + 1) * m :=
      hlarge.trans_le (Nat.le_mul_of_pos_left m (Nat.succ_pos k))
    rcases le_or_gt (Int.log 10 x - 5) 0 with hlog | hlog
    · -- with no zeros behind them, six digits are too few
      have hle : (n : ℚ) * 10 ^ (Int.log 10 x - 5) ≤ n :=
        mul_le_of_le_one_right (Nat.cast_nonneg n) (zpow_le_one_of_nonpos₀ (by norm_num) hlog)
      rw [h] at hle
      have hle' : (k + 1) * m ≤ n := by exact_mod_cast hle
      omega
    · -- the zeros divide the first factor
      obtain ⟨j, hj⟩ := Int.eq_ofNat_of_zero_le hlog.le
      rw [hj, zpow_natCast] at h
      have hnat : n * 10 ^ j = (k + 1) * m := by exact_mod_cast h
      have hdvd : 10 ^ j ∣ k + 1 :=
        (hm.pow_left j).dvd_of_dvd_mul_right (Dvd.intro_left n hnat)
      have hle : n * 10 ^ j ≤ 10 ^ 6 * (k + 1) :=
        Nat.mul_le_mul hsix (Nat.le_of_dvd (Nat.succ_pos k) hdvd)
      have hlt : 10 ^ 6 * (k + 1) < (k + 1) * m := by
        rw [Nat.mul_comm]
        exact Nat.mul_lt_mul_of_pos_left hlarge (Nat.succ_pos k)
      omega

end AwkNumber
