import LinuxNote.Base.AwkNumber
import Mathlib.Tactic.NormNum

/-!
# Numbers of double precision

The values of the bit patterns, and the rounding of a rational number to the nearest value.

## Main definitions

* `value` — the value of a bit pattern, unless it is infinite or no number.
* `nearest` — the nearest value, as if there were no greatest one.
-/

namespace Binary64

open AwkNumber

/-- The value of a bit pattern, by its sign, exponent and mantissa.  The greatest
exponent is that of the infinite ones, and the smallest one has no bit in front of the
mantissa. -/
def value (b : BitVec 64) : Option ℚ :=
  let sign : ℚ := if b.msb then -1 else 1
  let exponent : ℕ := (b.toNat / 2 ^ 52) % 2 ^ 11
  let mantissa : ℕ := b.toNat % 2 ^ 52
  if exponent = 2047 then none
  else if exponent = 0 then some (sign * (mantissa * 2 ^ (-1074 : ℤ)))
  else some (sign * ((2 ^ 52 + mantissa : ℕ) * 2 ^ ((exponent : ℤ) - 1075)))

/-- The exponent of the last place: 52 bits are behind the first one, unless the number
is so small that the exponent has no room for it. -/
def lastPlace (q : ℚ) : ℤ := max (Int.log 2 |q| - 52) (-1074)

/-- The nearest value, the even one of two.  It is as if there were no greatest exponent,
and so it is never infinite. -/
def nearest (q : ℚ) : ℚ :=
  let r := roundEven (|q| / 2 ^ lastPlace q) * (2 : ℚ) ^ lastPlace q
  if q < 0 then -r else r

/-- A rounding, from the exponent of the number. -/
theorem nearest_of_log {q : ℚ} (hq : 0 < q) {e : ℤ} (he : -1022 ≤ e) (hlow : 2 ^ e ≤ q)
    (hhigh : q < 2 ^ (e + 1)) :
    nearest q = roundEven (q / 2 ^ (e - 52)) * (2 : ℚ) ^ (e - 52) := by
  have hlog : Int.log 2 q = e := by
    refine le_antisymm (Int.lt_add_one_iff.mp ?_) ?_
    · exact (Int.lt_zpow_iff_log_lt (by norm_num) hq).mp (by exact_mod_cast hhigh)
    · exact (Int.zpow_le_iff_le_log (by norm_num) hq).mp (by exact_mod_cast hlow)
  have hplace : lastPlace q = e - 52 := by
    rw [lastPlace, abs_of_pos hq, hlog]
    exact max_eq_left (by omega)
  rw [nearest, if_neg (not_lt.mpr hq.le), hplace, abs_of_pos hq]

end Binary64
