import Mathlib.Algebra.Order.Ring.Nat
import Mathlib.Data.List.Basic

/-!
# Text in units of sixteen bits

The characters up to U+FFFF are one unit each, and the others two.

## Main definitions

* `encode`, `decode` — the units of a text, and the text of units.

## Main results

* `decode_encode` — a text is read from its units.
-/

namespace Utf16

/-- The units of a character: one, or two surrogates when it is above U+FFFF. -/
def encodeChar (c : Char) : List ℕ :=
  if c.toNat < 0x10000 then [c.toNat]
  else [0xD800 + (c.toNat - 0x10000) / 0x400, 0xDC00 + (c.toNat - 0x10000) % 0x400]

/-- The units of a text. -/
def encode (s : List Char) : List ℕ := s.flatMap encodeChar

/-- The text of units: the first one of a pair is between U+D800 and U+DBFF. -/
def decode : List ℕ → List Char
  | [] => []
  | [u] => [Char.ofNat u]
  | u :: v :: us =>
    if 0xD800 ≤ u ∧ u < 0xDC00 then
      Char.ofNat (0x10000 + (u - 0xD800) * 0x400 + (v - 0xDC00)) :: decode us
    else Char.ofNat u :: decode (v :: us)

/-- The numbers of characters. -/
theorem toNat_cases (c : Char) :
    c.toNat < 0xD800 ∨ (0xDFFF < c.toNat ∧ c.toNat < 0x10000) ∨
      (0x10000 ≤ c.toNat ∧ c.toNat < 0x110000) := by
  have hvalid : c.toNat < 0xD800 ∨ 0xDFFF < c.toNat ∧ c.toNat < 0x110000 := c.valid
  omega

/-- The units fit in sixteen bits. -/
theorem encode_lt {s : List Char} : ∀ u ∈ encode s, u < 2 ^ 16 := by
  intro u hu
  obtain ⟨c, -, hu⟩ := List.mem_flatMap.mp hu
  have hcases := toNat_cases c
  rw [encodeChar] at hu
  split at hu
  · rw [List.mem_singleton.mp hu]
    omega
  · rcases List.mem_cons.mp hu with rfl | hu
    · omega
    · rw [List.mem_singleton.mp hu]
      omega

/-- A character of one unit is read, whatever follows. -/
theorem decode_single {u : ℕ} (hu : ¬ (0xD800 ≤ u ∧ u < 0xDC00)) (us : List ℕ) :
    decode (u :: us) = Char.ofNat u :: decode us := by
  cases us with
  | nil => rfl
  | cons v us => rw [decode, if_neg hu]

/-- **A text is read from its units**, as a surrogate is never the code of a character. -/
theorem decode_encode (s : List Char) : decode (encode s) = s := by
  induction s with
  | nil => rfl
  | cons c s ih =>
    have hcases := toNat_cases c
    rw [encode, List.flatMap_cons, ← encode, encodeChar]
    split
    · rw [List.singleton_append, decode_single (by omega), ih, Char.ofNat_toNat]
    · have hpair : 0x10000 + (0xD800 + (c.toNat - 0x10000) / 0x400 - 0xD800) * 0x400 +
          (0xDC00 + (c.toNat - 0x10000) % 0x400 - 0xDC00) = c.toNat := by
        omega
      rw [List.cons_append, List.singleton_append, decode, if_pos (by omega), hpair,
        Char.ofNat_toNat, ih]

/-- A text of characters below U+0100 has these as its units. -/
theorem encode_latin {s : List Char} (h : ∀ c ∈ s, c.toNat < 0x100) :
    encode s = s.map Char.toNat := by
  induction s with
  | nil => rfl
  | cons c s ih =>
    have hc := h c List.mem_cons_self
    rw [encode, List.flatMap_cons, ← encode, encodeChar, if_pos (by omega),
      ih fun c' hc' => h c' (List.mem_cons_of_mem c hc')]
    rfl

/-- There are at most two units to a character. -/
theorem length_encode_le (s : List Char) : (encode s).length ≤ 2 * s.length := by
  induction s with
  | nil => exact Nat.le_refl 0
  | cons c s ih =>
    have hc : (encodeChar c).length ≤ 2 := by
      rw [encodeChar]
      split
      · exact Nat.le_succ 1
      · exact Nat.le_refl 2
    rw [encode, List.flatMap_cons, ← encode, List.length_append, List.length_cons]
    omega

end Utf16
