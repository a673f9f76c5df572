import LinuxNote.Base.AwkPrefix
import Mathlib.Algebra.Order.Group.Nat
import Mathlib.Tactic.Linarith
import Mathlib.Tactic.Ring

/-!
# Numbers with a unit

`num2str.c` prints a number in a field of so many characters: it divides by a thousand until the
number fits, fills the rest of the field with a fraction, and puts the letter of the unit behind
it.  The digits of the fraction are what is left of the last division without the zeros in front
of it, so they are not those of the number, and a number that is rounded up may need one
character more.  As the table of letters has no `T`, the last two stand one division too low: `P` is
behind a number of 10¹² and `E` behind one of 10¹⁵.

## Main definitions

* `postfixes`, `shorten`, `shortenModulo`, `num2str` — the function.

## Main results

* `shorten_ok` — how often is divided, and what is left.
* `carry_iff`, `nearest_of_carry`, `nearest_of_not_carry` — the carry rounds to the nearest.
* `num2str_right` — **the number that is printed** is exact if it fits, and else right up to one
  unit.
-/

namespace LinuxNote.Fio.Num2str

open CText AwkNumber

/-! ### The function -/

/-- `postfix`: there is no letter for 10¹². -/
def postfixes : List (List Char) :=
  ["".toList, "K".toList, "M".toList, "G".toList, "P".toList, "E".toList]

/-- `sizeof(postfix)`, with which the loop is bounded. -/
def sizeofPostfix : ℕ := 48

/-- `byte_postfix`, at the index for `unit_base`. -/
def bytePostfix (unitBase : ℕ) : List Char :=
  match unitBase with
  | 1 => "bit".toList
  | 8 => "B".toList
  | _ => "".toList

/-- `thousand[!!pow2]`. -/
def thousand (pow2 : Bool) : ℕ := if pow2 then 1024 else 1000

/-- `for (post_index = 0; base > 1; post_index++)`, where `base` does not get larger than `fuel`. -/
def startIndex (t : ℕ) : ℕ → ℕ → ℕ
  | 0, _ => 0
  | fuel + 1, base => if 1 < base then startIndex t fuel (base / t) + 1 else 0

/-- The variables of the loop: what is left of the number, the remainder of the last division,
whether it rounds up, and the letter; `modulo` is `-1U` before it. -/
structure Shortened where
  num : ℕ
  modulo : Option ℕ
  carry : Bool
  postIndex : ℕ

/-- `while (post_index < sizeof(postfix))`, with so many iterations left. -/
def shorten (t maxlen : ℕ) : ℕ → Shortened → Shortened
  | 0, s => s
  | fuel + 1, s =>
    if (decimal s.num).length ≤ maxlen then s
    else shorten t maxlen fuel
      ⟨s.num / t, some (s.num % t), decide (t / 2 ≤ s.num % t), s.postIndex + 1⟩

/-- `do … while (1)`, up to an iteration that is not reached. -/
def shortenModulo (len : ℕ) : ℕ → ℕ → Option ℕ
  | 0, _ => none
  | fuel + 1, modulo =>
    if (decimal modulo).length ≤ len then some modulo
    else shortenModulo len fuel ((modulo + 9) / 10)

/-- What is printed after the loop; `decimals` has 32 bits. -/
def printShortened (maxlen unitBase : ℕ) (s : Shortened) : Option (List Char) := do
  let post ← postfixes[s.postIndex]?
  match s.modulo with
  | none => some (decimal s.num ++ post ++ bytePostfix unitBase)
  | some modulo =>
    let decimals := (maxlen + 2 ^ 32 - (decimal s.num).length) % 2 ^ 32
    if decimals ≤ 1 then
      some (decimal (if s.carry then s.num + 1 else s.num) ++ post ++ bytePostfix unitBase)
    else do
      let modulo ← shortenModulo (decimals - 1) (modulo + 1) modulo
      some (decimal s.num ++ '.' :: decimal modulo ++ post ++ bytePostfix unitBase)

/-- The number in the unit that is printed: `num *= 8` for bits, which has 64 bits itself and
overflows for a large number. -/
def counted (unitBase num : ℕ) : ℕ := if unitBase = 1 then num * 8 % 2 ^ 64 else num

/-- `num2str`: the number is divided until it fits into the field, and what the divisions leave is
printed behind a point if there is room. -/
def num2str (num maxlen base : ℕ) (pow2 : Bool) (unitBase : ℕ) : Option (List Char) :=
  let t := thousand pow2
  let start := startIndex t base base
  printShortened maxlen unitBase
    (shorten t maxlen (sizeofPostfix - start) ⟨counted unitBase num, none, false, start⟩)

/-! ### The loops -/

theorem two_le_thousand (pow2 : Bool) : 1000 ≤ thousand pow2 := by cases pow2 <;> decide

/-- The unit is even, so that its half is no rounded number. -/
theorem thousand_half (pow2 : Bool) : 2 * (thousand pow2 / 2) = thousand pow2 := by
  cases pow2 <;> decide

/-- What the loop has done after so many divisions. -/
def divided (t num start : ℕ) : ℕ → Shortened
  | 0 => ⟨num, none, false, start⟩
  | k + 1 => ⟨num / t ^ (k + 1), some (num / t ^ k % t), decide (t / 2 ≤ num / t ^ k % t),
      start + (k + 1)⟩

theorem divided_num (t num start k : ℕ) : (divided t num start k).num = num / t ^ k := by
  cases k with
  | zero => rw [Nat.pow_zero, Nat.div_one]; rfl
  | succ k => rfl

theorem divided_postIndex (t num start k : ℕ) : (divided t num start k).postIndex = start + k := by
  cases k <;> rfl

/-- Whether a number fits into a field. -/
theorem fits_iff {maxlen : ℕ} (h : 0 < maxlen) (n : ℕ) :
    (decimal n).length ≤ maxlen ↔ n < 10 ^ maxlen :=
  Nat.length_toDigits_le_iff (by decide) h

/-- **The loop** divides until the number fits, by induction on the iterations that are left: it
stops at the first number of divisions that is enough. -/
theorem shorten_ok {t maxlen num : ℕ} (hlen : 0 < maxlen) (start fuel : ℕ) : ∀ k,
    num / t ^ (k + fuel) < 10 ^ maxlen → ∃ k', k ≤ k' ∧ k' ≤ k + fuel ∧
      shorten t maxlen fuel (divided t num start k) = divided t num start k' ∧
      num / t ^ k' < 10 ^ maxlen ∧ ∀ j, k ≤ j → j < k' → 10 ^ maxlen ≤ num / t ^ j := by
  induction fuel with
  | zero => intro k h; exact ⟨k, Nat.le_refl k, Nat.le_refl k, rfl, h, by omega⟩
  | succ fuel ih =>
    intro k h
    have hfitsIff := fits_iff hlen (num / t ^ k)
    rw [shorten, divided_num]
    split
    · next hshort => exact ⟨k, Nat.le_refl k, by omega, rfl, hfitsIff.mp hshort, by omega⟩
    · next hlong =>
      have hnext : (⟨num / t ^ k / t, some (num / t ^ k % t), decide (t / 2 ≤ num / t ^ k % t),
          (divided t num start k).postIndex + 1⟩ : Shortened) = divided t num start (k + 1) := by
        rw [divided, divided_postIndex, Nat.div_div_eq_div_mul, ← Nat.pow_succ, Nat.add_assoc]
      rw [hnext]
      obtain ⟨k', hk, hk', hrun, hfits, hbefore⟩ := ih (k + 1) (by rwa [Nat.add_right_comm k 1])
      refine ⟨k', by omega, by omega, hrun, hfits, fun j hj hjk => ?_⟩
      rcases Nat.eq_or_lt_of_le hj with rfl | hlt
      · exact Nat.not_lt.mp fun hlt => hlong (hfitsIff.mpr hlt)
      · exact hbefore j hlt hjk

/-- The loop for the fraction ends, by induction on its iterations. -/
theorem shortenModulo_ok (len : ℕ) (hlen : 0 < len) (fuel : ℕ) : ∀ {modulo}, modulo < fuel →
    ∃ m, shortenModulo len fuel modulo = some m ∧ (decimal m).length ≤ len := by
  induction fuel with
  | zero => intro modulo h; omega
  | succ fuel ih =>
    intro modulo h
    rw [shortenModulo]
    split
    · next hfits => exact ⟨modulo, rfl, hfits⟩
    · next hlong =>
      -- more than one digit, so it gets less
      have hten : 10 ≤ modulo := by
        by_contra hsmall
        rw [decimal_of_lt_ten (by omega)] at hlong
        exact hlong hlen
      exact ih (by omega)

/-! ### Rounding -/

section Rounding

variable {t num k : ℕ}

/-- What is left of the last division says whether the number lies in the upper half. -/
theorem num_eq (t num k : ℕ) : num =
    (num / t ^ (k + 1) * t + num / t ^ k % t) * t ^ k + num % t ^ k := by
  have hquot : num / t ^ (k + 1) * t + num / t ^ k % t = num / t ^ k := by
    rw [Nat.pow_succ, ← Nat.div_div_eq_div_mul, Nat.div_add_mod']
  rw [hquot, Nat.div_add_mod']

/-- Rounding up with a carry goes to the nearest. -/
theorem nearest_of_carry (ht : 2 * (t / 2) = t) (h : t / 2 ≤ num / t ^ k % t) :
    2 * ((num / t ^ (k + 1) + 1) * t ^ (k + 1)) ≤ 2 * num + t ^ (k + 1) := by
  have hle := Nat.le.intro (num_eq t num k).symm
  generalize num / t ^ (k + 1) = n at *
  generalize num / t ^ k % t = r at *
  have hhalf : t * t ^ k ≤ 2 * r * t ^ k := Nat.mul_le_mul_right _ (by omega)
  calc 2 * ((n + 1) * t ^ (k + 1)) = 2 * (n * t * t ^ k) + t * t ^ k + t ^ (k + 1) := by
        rw [Nat.pow_succ]; ring
    _ ≤ 2 * (n * t * t ^ k) + 2 * r * t ^ k + t ^ (k + 1) := by omega
    _ = 2 * ((n * t + r) * t ^ k) + t ^ (k + 1) := by ring
    _ ≤ 2 * num + t ^ (k + 1) := by omega

/-- Rounding down without one goes to the nearest. -/
theorem nearest_of_not_carry (ht : 2 * (t / 2) = t) (hpos : 0 < t)
    (h : num / t ^ k % t < t / 2) :
    2 * num ≤ 2 * (num / t ^ (k + 1) * t ^ (k + 1)) + t ^ (k + 1) := by
  have hnum := num_eq t num k
  have hmod : num % t ^ k < t ^ k := Nat.mod_lt _ (Nat.pow_pos hpos)
  generalize num / t ^ (k + 1) = n at *
  generalize num / t ^ k % t = r at *
  have hhalf : 2 * (r + 1) * t ^ k ≤ t * t ^ k := Nat.mul_le_mul_right _ (by omega)
  calc 2 * num ≤ 2 * ((n * t + r) * t ^ k + t ^ k) := by omega
    _ = 2 * (n * t * t ^ k) + 2 * (r + 1) * t ^ k := by ring
    _ ≤ 2 * (n * t * t ^ k) + t * t ^ k := by omega
    _ = 2 * (n * t ^ (k + 1)) + t ^ (k + 1) := by rw [Nat.pow_succ]; ring

end Rounding

/-! ### The text -/

/-- What a text of a number and a fraction says in a unit: the number itself if it fits into the
field, and else it is right up to half a unit, or up to a unit with a fraction, which fills the
field. -/
structure Says (num maxlen t k n : ℕ) (fraction : List Char) : Prop where
  fits : k = 0 ↔ num < 10 ^ maxlen
  exact : k = 0 → n = num ∧ fraction = []
  nearest : fraction = [] → 2 * (n * t ^ k) ≤ 2 * num + t ^ k ∧ 2 * num ≤ 2 * (n * t ^ k) + t ^ k
  below : fraction ≠ [] → (∃ m, fraction = '.' :: decimal m) ∧ n * t ^ k ≤ num ∧
    num < (n + 1) * t ^ k ∧ (decimal n ++ fraction).length ≤ maxlen

/-- A number of 64 bits fits after five divisions. -/
theorem le_five {t num maxlen k : ℕ} (ht : 1000 ≤ t) (hnum : num < 2 ^ 64) (hlen : 5 ≤ maxlen)
    (hbefore : ∀ j, 0 ≤ j → j < k → 10 ^ maxlen ≤ num / t ^ j) : k ≤ 5 := by
  by_contra hlarge
  have hsix := hbefore 5 (Nat.zero_le 5) (by omega)
  have hfive : 10 ^ 5 ≤ 10 ^ maxlen := Nat.pow_le_pow_right (by decide) hlen
  have hunit : 1000 ^ 5 ≤ t ^ 5 := Nat.pow_le_pow_left ht 5
  have hquot : num / t ^ 5 ≤ num / 1000 ^ 5 := Nat.div_le_div_left hunit (by decide)
  have hbound : num / 1000 ^ 5 < 10 ^ 5 := Nat.div_lt_of_lt_mul (hnum.trans (by decide))
  omega

/-- After a division, either there is room for a fraction, or the carry is used. -/
theorem printShortened_divided {t num maxlen k : ℕ} {letter : List Char} (unitBase : ℕ)
    (hletter : postfixes[k + 1]? = some letter) (hmax : maxlen < 2 ^ 31)
    (hfits : (decimal (num / t ^ (k + 1))).length ≤ maxlen) :
    (printShortened maxlen unitBase (divided t num 0 (k + 1)) =
        some (decimal (if t / 2 ≤ num / t ^ k % t then num / t ^ (k + 1) + 1
          else num / t ^ (k + 1)) ++ [] ++ letter ++ bytePostfix unitBase)) ∨
      ∃ m, (decimal (num / t ^ (k + 1)) ++ '.' :: decimal m).length ≤ maxlen ∧
        printShortened maxlen unitBase (divided t num 0 (k + 1)) =
          some (decimal (num / t ^ (k + 1)) ++ '.' :: decimal m ++ letter ++
            bytePostfix unitBase) := by
  have hdecimals : (maxlen + 2 ^ 32 - (decimal (num / t ^ (k + 1))).length) % 2 ^ 32 =
      maxlen - (decimal (num / t ^ (k + 1))).length := by omega
  simp only [printShortened, divided, Nat.zero_add, hletter, Option.bind_eq_bind,
    Option.bind_some, hdecimals, decide_eq_true_eq, List.append_nil]
  by_cases hroom : maxlen - (decimal (num / t ^ (k + 1))).length ≤ 1
  · exact Or.inl (if_pos hroom)
  · obtain ⟨m, hm, hlen⟩ := shortenModulo_ok
      (maxlen - (decimal (num / t ^ (k + 1))).length - 1) (by omega)
      (num / t ^ k % t + 1) (Nat.lt_succ_self _)
    refine Or.inr ⟨m, ?_, ?_⟩
    · rw [List.length_append, List.length_cons]
      omega
    · rw [if_neg hroom, hm, Option.bind_some]

theorem counted_lt (unitBase : ℕ) {num : ℕ} (h : num < 2 ^ 64) : counted unitBase num < 2 ^ 64 := by
  rw [counted]
  split
  · exact Nat.mod_lt _ (by decide)
  · exact h

/-- The number that is printed is exact if it fits, and else right up to one unit; the unit is
one of those that have a letter. -/
theorem num2str_says {num maxlen : ℕ} (pow2 : Bool) (unitBase : ℕ) (hnum : num < 2 ^ 64)
    (hlen : 5 ≤ maxlen) (hmax : maxlen < 2 ^ 31) :
    ∃ k n fraction letter, postfixes[k]? = some letter ∧
      num2str num maxlen 1 pow2 unitBase =
        some (decimal n ++ fraction ++ letter ++ bytePostfix unitBase) ∧
      Says (counted unitBase num) maxlen (thousand pow2) k n fraction := by
  have ht := two_le_thousand pow2
  have heven := thousand_half pow2
  have hstart : num2str num maxlen 1 pow2 unitBase = printShortened maxlen unitBase
      (shorten (thousand pow2) maxlen 48
        (divided (thousand pow2) (counted unitBase num) 0 0)) := rfl
  have hcounted := counted_lt unitBase hnum
  generalize thousand pow2 = t at *
  generalize counted unitBase num = num at *
  have hpos : 0 < maxlen := by omega
  -- the loop has 48 steps, and six of them make any number of 64 bits small enough
  have hfuel : num / t ^ (0 + 48) < 10 ^ maxlen := by
    have hbig : 2 ^ 64 ≤ t ^ 48 := (by decide : 2 ^ 64 ≤ 1000 ^ 48).trans (Nat.pow_le_pow_left ht 48)
    rw [Nat.zero_add, Nat.div_eq_of_lt (hcounted.trans_le hbig)]
    exact Nat.pow_pos (by decide)
  obtain ⟨k, -, -, hrun, hfits, hbefore⟩ := shorten_ok hpos 0 48 0 hfuel
  have hk := le_five ht hcounted hlen hbefore
  rw [hstart, hrun]
  -- without a step the number is printed as it is
  cases k with
  | zero =>
    rw [Nat.pow_zero, Nat.div_one] at hfits
    refine ⟨0, num, [], [], rfl, ?_, ⟨by simpa using hfits, fun _ => ⟨rfl, rfl⟩, fun _ => ?_,
      fun h => absurd rfl h⟩⟩
    · rw [List.append_nil]
      rfl
    · rw [Nat.pow_zero]
      omega
  | succ k =>
    have hlong : 10 ^ maxlen ≤ num := by
      have := hbefore 0 (Nat.le_refl 0) (Nat.succ_pos k)
      rwa [Nat.pow_zero, Nat.div_one] at this
    obtain ⟨letter, hletter⟩ : ∃ letter, postfixes[k + 1]? = some letter :=
      ⟨_, List.getElem?_eq_getElem (show k + 1 < 6 by omega)⟩
    have hbelow := Nat.div_mul_le_self num (t ^ (k + 1))
    have habove : num < (num / t ^ (k + 1) + 1) * t ^ (k + 1) := by
      rw [Nat.add_mul, Nat.one_mul]
      exact Nat.lt_div_mul_add (Nat.pow_pos (by omega))
    have hshown : k + 1 = 0 ↔ num < 10 ^ maxlen := by omega
    -- with a letter, there is room for some decimals or for none
    rcases printShortened_divided unitBase hletter hmax ((fits_iff hpos _).mpr hfits) with
      hprint | ⟨m, hroom, hprint⟩
    · refine ⟨k + 1, _, [], letter, hletter, hprint, hshown, fun h => absurd h (Nat.succ_ne_zero k),
        fun _ => ?_, fun h => absurd rfl h⟩
      split
      · next hcarry =>
        have := nearest_of_carry heven hcarry
        omega
      · next hcarry =>
        have := nearest_of_not_carry heven (by omega) (Nat.not_le.mp hcarry)
        omega
    · exact ⟨k + 1, _, _, letter, hletter, hprint, hshown,
        fun h => absurd h (Nat.succ_ne_zero k), fun h => absurd h (List.cons_ne_nil _ _),
        fun _ => ⟨⟨m, rfl⟩, hbelow, habove, hroom⟩⟩

/-! ### Reading the text -/

/-- What stands behind the number does not count. -/
theorem scale_letter {k : ℕ} {letter : List Char} (h : postfixes[k]? = some letter)
    (unitBase : ℕ) : scale (letter ++ bytePostfix unitBase) = 1 ∧
      NoDigit (letter ++ bytePostfix unitBase) ∧
      (letter ++ bytePostfix unitBase).head? ≠ some '.' := by
  have hall : ∀ letter ∈ postfixes, ∀ byte ∈ ["".toList, "B".toList, "bit".toList],
      scale (letter ++ byte) = 1 ∧ NoDigit (letter ++ byte) ∧
        (letter ++ byte).head? ≠ some '.' := by
    decide
  have hbyte : bytePostfix unitBase ∈ ["".toList, "B".toList, "bit".toList] := by
    unfold bytePostfix
    split <;> decide
  exact hall letter (List.mem_of_getElem? h) _ hbyte

/-- The value of a text: that of its number, to which a fraction adds less than one. -/
theorem numValue_text {k : ℕ} {letter : List Char} (h : postfixes[k]? = some letter)
    (unitBase n : ℕ) {fraction : List Char} (hfraction : fraction = [] ∨ ∃ m, fraction = '.' :: decimal m) :
    (n : ℚ) ≤ numValue (decimal n ++ fraction ++ letter ++ bytePostfix unitBase) ∧
      numValue (decimal n ++ fraction ++ letter ++ bytePostfix unitBase) < n + 1 ∧
      (fraction = [] → numValue (decimal n ++ fraction ++ letter ++ bytePostfix unitBase) = n) := by
  obtain ⟨hscale, hdigit, hpoint⟩ := scale_letter h unitBase
  rcases hfraction with rfl | ⟨m, rfl⟩
  · have hvalue : numValue (decimal n ++ [] ++ letter ++ bytePostfix unitBase) = n := by
      rw [List.append_nil, List.append_assoc, numValue_decimal_rest n hdigit hpoint, hscale, mul_one]
    exact ⟨hvalue.ge, hvalue.trans_lt (lt_add_one _), fun _ => hvalue⟩
  · have hvalue : numValue (decimal n ++ '.' :: decimal m ++ letter ++ bytePostfix unitBase) =
        n + m / 10 ^ (decimal m).length := by
      rw [List.append_assoc, List.append_assoc, List.cons_append,
        numValue_decimal_point n m hdigit, hscale, mul_one]
    have hpos : (0 : ℚ) < 10 ^ (decimal m).length := by positivity
    have hm : m < 10 ^ (decimal m).length :=
      (fits_iff (List.length_pos_iff.mpr (decimal_ne_nil m)) m).mp (Nat.le_refl _)
    have hfrac : (m : ℚ) / 10 ^ (decimal m).length < 1 := by
      rw [div_lt_one hpos]
      exact_mod_cast hm
    rw [hvalue]
    exact ⟨le_add_of_nonneg_right (by positivity), by gcongr, fun h => absurd h (List.cons_ne_nil _ _)⟩

/-- **The number that is printed** is exact if it fits; else it is less than one unit away from
the number, where the unit is that of the divisions that have been made, and its letter is the one
that the table has for so many.  What is printed is the number that is counted, which for a rate in
bits is eight times `num` as far as an `unsigned long` holds it.  The base is that of a number which
has not been divided by the caller, and the field has room for five digits: with less a large number
gets through all the letters. -/
theorem num2str_right {num maxlen : ℕ} (pow2 : Bool) (unitBase : ℕ) (hnum : num < 2 ^ 64)
    (hlen : 5 ≤ maxlen) (hmax : maxlen < 2 ^ 31) :
    ∃ k text letter, postfixes[k]? = some letter ∧
      num2str num maxlen 1 pow2 unitBase = some (text ++ letter ++ bytePostfix unitBase) ∧
      |numValue (text ++ letter ++ bytePostfix unitBase) * thousand pow2 ^ k -
        counted unitBase num| < (thousand pow2 : ℚ) ^ k ∧
      (counted unitBase num < 10 ^ maxlen → k = 0 ∧ text = decimal (counted unitBase num)) := by
  obtain ⟨k, n, fraction, letter, hletter, hprint, hshown⟩ := num2str_says pow2 unitBase hnum hlen hmax
  generalize counted unitBase num = num at *
  have hpos : (0 : ℚ) < thousand pow2 ^ k := by
    have := two_le_thousand pow2
    positivity
  refine ⟨k, decimal n ++ fraction, letter, hletter, hprint, ?_, fun hfits => ?_⟩
  · have hfraction : fraction = [] ∨ ∃ m, fraction = '.' :: decimal m :=
      (Classical.em (fraction = [])).imp_right fun h => (hshown.below h).1
    obtain ⟨hle, hlt, hwhole⟩ := numValue_text hletter unitBase n hfraction
    generalize numValue (decimal n ++ fraction ++ letter ++ bytePostfix unitBase) = v at *
    -- without decimals the number is rounded to the nearest, with decimals it is cut off
    by_cases hnone : fraction = []
    · obtain ⟨habove, hbelow⟩ := hshown.nearest hnone
      have habove' : 2 * ((n : ℚ) * thousand pow2 ^ k) ≤ 2 * num + thousand pow2 ^ k := by
        exact_mod_cast habove
      have hbelow' : 2 * (num : ℚ) ≤ 2 * (n * thousand pow2 ^ k) + thousand pow2 ^ k := by
        exact_mod_cast hbelow
      rw [hwhole hnone, abs_lt]
      constructor <;> linarith
    · obtain ⟨-, hbelow, habove, -⟩ := hshown.below hnone
      have hbelow' : (n : ℚ) * thousand pow2 ^ k ≤ num := by exact_mod_cast hbelow
      have habove' : (num : ℚ) < (n + 1) * thousand pow2 ^ k := by exact_mod_cast habove
      have hle' := mul_le_mul_of_nonneg_right hle hpos.le
      have hlt' := mul_lt_mul_of_pos_right hlt hpos
      rw [add_mul, one_mul] at habove' hlt'
      rw [abs_lt]
      constructor <;> linarith
  · have hk := hshown.fits.mpr hfits
    obtain ⟨hn, hfraction⟩ := hshown.exact hk
    rw [hn, hfraction, List.append_nil]
    exact ⟨hk, rfl⟩

theorem num2str_right_mega : ∃ k text letter, postfixes[k]? = some letter ∧
    num2str 1234050 6 1 false 8 = some (text ++ letter ++ bytePostfix 8) ∧
    |numValue (text ++ letter ++ bytePostfix 8) * thousand false ^ k - counted 8 1234050| <
      (thousand false : ℚ) ^ k ∧
    (counted 8 1234050 < 10 ^ 6 → k = 0 ∧ text = decimal (counted 8 1234050)) :=
  num2str_right false 8 (by decide) (by decide) (by decide)

-- the fraction is 050 without its first zero
example : num2str 1234050 6 1 false 8 = some "1234.5KB".toList := by decide +kernel

end LinuxNote.Fio.Num2str
