import LinuxNote.Base.CText
import Mathlib.Algebra.Order.Ring.Rat
import Mathlib.Data.Rat.Floor

/-!
# The use of memory

`start_tunning.sh` computes how much memory is missing to a percentage of it, and `mem_take`
allocates it in chunks of a size that depends on the type it gets.  Without a type `mem_take`
allocates nothing, although the script says that the default is 1 GB at a time.

The numbers that the script hands on are numbers here and not texts.  `atoi` is taken to cut
a number to 32 bits, and all memory is granted.

## Main definitions

* `memTake` — the memory that `mem_take` allocates, in bytes.
* `startTunning` — the script, which refuses if there is nothing to do.
* `Way` — the documented ways of giving the type.
* `AmountRight` — the memory in use comes to within a chunk of what is wanted.
* `AmountCondition` — the amounts for which this is so.

## Main results

* `memTake_typed`, `memTake_leftOut` — what is allocated for each way.
* `amountRight_iff` — **the amount is right exactly when** it fits into an `int`, or into one
  chunk when the type is left out.
-/

namespace LinuxNote.StartTunning

/-! ### `mem_take` -/

/-- A number cut to a 32-bit `int`. -/
def toInt (x : ℤ) : ℤ := x.bmod (2 ^ 32)

/-- A number as an `unsigned long`. -/
def toUnsignedLong (x : ℤ) : ℤ := x % 2 ^ 64

/-- The type, 0 if there is none. -/
def typeOf (argv2 : Option (List Char)) : ℤ :=
  match argv2 with
  | none => 0
  | some arg => CText.atoi arg

/-- `loop` and `size`, for which each type has a `case` of its own.  For other types `loop` keeps
the value it happens to have, and `size` is zero. -/
def chunks (garbage : ℤ) (nSizeInChar : ℤ) (type : ℤ) : ℤ × ℤ :=
  if type = 1 then (toInt (nSizeInChar / 4), 4096)
  else if type = 2 then (toInt (nSizeInChar / 1024), 1048576)
  else if type = 3 then (toInt (nSizeInChar / 1024 / 2), 1048576 * 2)
  else if type = 4 then (toInt (nSizeInChar / 1024 / 4), 1048576 * 4)
  else if type = 5 then (toInt (nSizeInChar / 1024 / 1024), 1073741824)
  -- no `case` applies, and neither variable is set
  else (garbage, 0)

/-- The bytes that `mem_take` allocates. -/
def memTake (garbage : ℤ) (argv1 : ℤ) (argv2 : Option (List Char)) : ℤ :=
  let c := chunks garbage (toUnsignedLong (toInt argv1)) (typeOf argv2)
  max 0 c.1 * c.2

/-! ### The script -/

/-- `[ $n -le 0 ]`, which is not true of a number that does not fit into 64 bits: `test` fails
then, and the script goes on. -/
def testLeZero (n : ℤ) : Bool := decide (-2 ^ 63 ≤ n ∧ n ≤ 0)

section Script

variable (memTotal memFree : ℕ) (percentage : ℚ≥0)

/-- `MEM_USED`, in kB. -/
def memUsed : ℤ := memTotal - memFree

/-- `EXPECTED_MEM_USE`, in kB.  `bc` cuts off the fraction of the quotient. -/
def expectedMemUse : ℤ := ⌊(memTotal * percentage / 100 : ℚ)⌋

/-- `MEM_TO_TAKE`, in kB. -/
def memToTake : ℤ := expectedMemUse memTotal percentage - memUsed memTotal memFree

/-- The bytes that are allocated, if the script does not refuse because the memory in use is as
expected already. -/
def startTunning (garbage : ℤ) (type : Option (List Char)) : Option ℤ :=
  if testLeZero (memToTake memTotal memFree percentage) then none
  else some (memTake garbage (memToTake memTotal memFree percentage) type)

end Script

/-! ### Right amounts -/

/-- The documented ways of giving the type: 4 KB, 1 MB or 1 GB at a time, or none. -/
inductive Way
  | fourKB
  | oneMB
  | oneGB
  | leftOut
  deriving DecidableEq

def Way.type : Way → Option (List Char)
  | .fourKB => some "1".toList
  | .oneMB => some "2".toList
  | .oneGB => some "3".toList
  | .leftOut => none

/-- The chunk of a way in bytes.  The documents have 1 GB for type 3, and `mem_take` has 2 MB, so
both are allowed for it. -/
inductive Way.IsChunk : Way → ℤ → Prop
  | fourKB : IsChunk .fourKB (2 ^ 12)
  | oneMB : IsChunk .oneMB (2 ^ 20)
  | oneGB : IsChunk .oneGB (2 ^ 30)
  | twoMB : IsChunk .oneGB (2 ^ 21)
  | leftOut : IsChunk .leftOut (2 ^ 30)

section Amount

variable (memTotal memFree : ℕ) (percentage : ℚ≥0) (garbage : ℤ) (way : Way)

/-- If the script does not refuse, the memory in use comes to less than a chunk below the expected
use, and not above it: as near as chunks of the size allow. -/
def AmountRight (chunk : ℤ) : Prop :=
  ∀ allocated, startTunning memTotal memFree percentage garbage way.type = some allocated →
    1024 * expectedMemUse memTotal percentage - chunk <
        1024 * memUsed memTotal memFree + allocated ∧
      1024 * memUsed memTotal memFree + allocated ≤ 1024 * expectedMemUse memTotal percentage

/-- The script refuses, or the amount in kB fits into an `int`, which `mem_take` reads it into, or
is less than 1 GB if the type is left out, for then nothing is allocated. -/
def AmountCondition : Prop :=
  testLeZero (memToTake memTotal memFree percentage) = true ∨
    0 < memToTake memTotal memFree percentage ∧
      memToTake memTotal memFree percentage < if way = .leftOut then 2 ^ 20 else 2 ^ 31

end Amount

/-! ### The loop -/

theorem toInt_of_mem {x : ℤ} (hlow : -2 ^ 31 ≤ x) (hhigh : x < 2 ^ 31) : toInt x = x := by
  rw [toInt, Int.bmod_def]
  omega

theorem toInt_mem (x : ℤ) : -2 ^ 31 ≤ toInt x ∧ toInt x < 2 ^ 31 := by
  rw [toInt, Int.bmod_def]
  omega

/-- What is cut off is a multiple of 2^32. -/
theorem exists_toInt_eq (x : ℤ) : ∃ k, toInt x = x - 2 ^ 32 * k :=
  ⟨x.bdiv (2 ^ 32), Int.bmod_eq_self_sub_mul_bdiv x (2 ^ 32)⟩

/-- The number of turns for chunks of `unit` kB. -/
def turns (unit n : ℤ) : ℤ := max 0 (toInt (toUnsignedLong (toInt n) / unit))

theorem turns_of_lt {unit n : ℤ} (hunit : 0 < unit) (hpos : 0 ≤ n) (hn : n < 2 ^ 31) :
    turns unit n = n / unit := by
  have hdiv : 0 ≤ n / unit ∧ n / unit ≤ n :=
    ⟨Int.ediv_nonneg hpos hunit.le, Int.ediv_le_self _ hpos⟩
  have hlong : toUnsignedLong n = n := Int.emod_eq_of_lt hpos (by omega)
  rw [turns, toInt_of_mem (by omega) hn, hlong, toInt_of_mem (by omega) (by omega)]
  exact max_eq_right hdiv.1

/-- A number above the range of `int` loses 2^32 kB or more, or becomes negative. -/
theorem turns_of_ge {unit n : ℤ} (hunit : unit = 4 ∨ unit = 1024 ∨ unit = 2048)
    (hn : 2 ^ 31 ≤ n) : turns unit n * unit ≤ n - 2 ^ 31 := by
  obtain ⟨hlow, hhigh⟩ := toInt_mem n
  obtain ⟨k, hk⟩ := exists_toInt_eq n
  rw [turns, toUnsignedLong]
  generalize toInt n = s at *
  rcases lt_or_ge s 0 with hs | hs
  · -- the quotient is that of s, so that there are no turns
    have hnegative : toInt (s % 2 ^ 64 / unit) = s / unit := by
      rw [toInt, Int.bmod_def]
      rcases hunit with rfl | rfl | rfl <;> omega
    have hquotient : s / unit < 0 := by
      rcases hunit with rfl | rfl | rfl <;> omega
    rw [hnegative, max_eq_left hquotient.le]
    omega
  · have hquotient : toInt (s % 2 ^ 64 / unit) = s / unit := by
      rw [toInt, Int.bmod_def]
      rcases hunit with rfl | rfl | rfl <;> omega
    rw [hquotient]
    rcases hunit with rfl | rfl | rfl <;> omega

/-! ### What is allocated -/

/-- The size of a chunk in kB that `mem_take` allocates for a type. -/
def Way.unit : Way → ℤ
  | .fourKB => 4
  | .oneMB => 1024
  | .oneGB => 2048
  | .leftOut => 0

theorem memTake_typed {way : Way} (h : way ≠ .leftOut) (garbage n : ℤ) :
    memTake garbage n way.type = turns way.unit n * (1024 * way.unit) := by
  cases way with
  | fourKB => rfl
  | oneMB => rfl
  | oneGB =>
    have hdiv : toUnsignedLong (toInt n) / 1024 / 2 = toUnsignedLong (toInt n) / 2048 := by
      rw [Int.ediv_ediv_of_nonneg (by decide)]
      rfl
    change max 0 (toInt (toUnsignedLong (toInt n) / 1024 / 2)) * (1048576 * 2) = _
    rw [hdiv]
    rfl
  | leftOut => exact absurd rfl h

/-- Without a type the size is 0, whatever the number of turns. -/
theorem memTake_leftOut (garbage n : ℤ) : memTake garbage n Way.leftOut.type = 0 :=
  Int.mul_zero _

section Amount

variable {memTotal memFree : ℕ} {percentage : ℚ≥0} {garbage : ℤ} {way : Way} {chunk : ℤ}

/-- What is wanted of the bytes that are allocated, in terms of `MEM_TO_TAKE`. -/
theorem amountRight_eq : AmountRight memTotal memFree percentage garbage way chunk ↔
    testLeZero (memToTake memTotal memFree percentage) = true ∨
      1024 * memToTake memTotal memFree percentage - chunk <
          memTake garbage (memToTake memTotal memFree percentage) way.type ∧
        memTake garbage (memToTake memTotal memFree percentage) way.type ≤
          1024 * memToTake memTotal memFree percentage := by
  have hn : memToTake memTotal memFree percentage =
    expectedMemUse memTotal percentage - memUsed memTotal memFree := rfl
  rw [AmountRight, startTunning]
  cases htest : testLeZero (memToTake memTotal memFree percentage) with
  | true =>
    refine iff_of_true ?_ (Or.inl rfl)
    intro allocated hnone
    exact absurd hnone (by simp)
  | false =>
    rw [if_neg Bool.false_ne_true]
    simp only [Option.some.injEq, forall_eq', Bool.false_eq_true, false_or]
    omega

theorem testLeZero_eq_false {n : ℤ} : testLeZero n = false ↔ n < -2 ^ 63 ∨ 0 < n := by
  rw [testLeZero, decide_eq_false_iff_not]
  omega

/-- No chunk is smaller than what is allocated at a time, or larger than 1 GB. -/
theorem Way.IsChunk.bounds (h : way.IsChunk chunk) :
    0 < chunk ∧ 1024 * way.unit ≤ chunk ∧ chunk ≤ 2 ^ 30 := by
  cases h <;> decide

theorem memTake_nonneg (garbage n : ℤ) : 0 ≤ memTake garbage n way.type := by
  by_cases hway : way = .leftOut
  · rw [hway, memTake_leftOut]
  · rw [memTake_typed hway]
    have hunit : 0 ≤ way.unit := by cases way <;> decide
    exact mul_nonneg (le_max_left _ _) (by omega)

theorem Way.unit_cases (h : way ≠ .leftOut) :
    way.unit = 4 ∨ way.unit = 1024 ∨ way.unit = 2048 := by
  cases way with
  | fourKB => exact Or.inl rfl
  | oneMB => exact Or.inr (Or.inl rfl)
  | oneGB => exact Or.inr (Or.inr rfl)
  | leftOut => exact absurd rfl h

/-- With a type, what is allocated comes up to an amount above 0 exactly when this is an `int`. -/
theorem memTake_right_iff (hway : way ≠ .leftOut) (h : way.IsChunk chunk) {n : ℤ} (hn : 0 < n) :
    1024 * n - chunk < memTake garbage n way.type ∧ memTake garbage n way.type ≤ 1024 * n ↔
      n < 2 ^ 31 := by
  obtain ⟨-, hunit, hmax⟩ := h.bounds
  have hkB := Way.unit_cases hway
  have htake : memTake garbage n way.type = 1024 * (turns way.unit n * way.unit) := by
    rw [memTake_typed hway]
    ring
  rw [htake]
  rcases lt_or_ge n (2 ^ 31) with hlt | hge
  · have hunitpos : 0 < way.unit := by omega
    rw [turns_of_lt hunitpos hn.le hlt]
    have hle : n / way.unit * way.unit ≤ n := Int.ediv_mul_le n hunitpos.ne'
    have hlt' : n < n / way.unit * way.unit + way.unit := by
      rw [← add_one_mul]
      exact Int.lt_ediv_add_one_mul_self n hunitpos
    refine iff_of_true ?_ hlt
    omega
  · have hturns := turns_of_ge hkB hge
    refine iff_of_false (fun hright => ?_) (not_lt.mpr hge)
    omega

/-- **The amount is right exactly when** it fits: on the way to the loop the amount goes through an
`int`, and an amount that does not fit there comes out as another one. -/
theorem amountRight_iff (h : way.IsChunk chunk) :
    AmountRight memTotal memFree percentage garbage way chunk ↔
      AmountCondition memTotal memFree percentage way := by
  rw [amountRight_eq, AmountCondition]
  generalize memToTake memTotal memFree percentage = n
  obtain ⟨hpos, hunit, hmax⟩ := h.bounds
  cases htest : testLeZero n with
  | true => exact iff_of_true (Or.inl rfl) (Or.inl rfl)
  | false =>
    simp only [Bool.false_eq_true, false_or]
    rcases testLeZero_eq_false.mp htest with hn | hn
    · -- a number below the range of `test` is not refused
      have hnonneg : 0 ≤ memTake garbage n way.type := memTake_nonneg garbage n
      refine iff_of_false (fun hright => ?_) fun hcondition => ?_
      · omega
      · omega
    · by_cases hway : way = .leftOut
      · subst hway
        cases h
        rw [memTake_leftOut, if_pos rfl]
        omega
      · rw [memTake_right_iff hway h hn, if_neg hway]
        exact (and_iff_right hn).symm

end Amount

/-! ### 40% of 16 GB -/

theorem memToTake_sixteenGB : memToTake 16777216 15000000 40 = 4933670 := by decide +kernel

/-- Without a type nothing is allocated. -/
theorem not_amountRight_leftOut :
    ¬ AmountRight 16777216 15000000 40 21845 .leftOut (2 ^ 30) := by
  rw [amountRight_eq, memToTake_sixteenGB, memTake_leftOut]
  decide +kernel

theorem amountRight_oneMB : AmountRight 16777216 15000000 40 21845 .oneMB (2 ^ 20) := by
  apply (amountRight_iff Way.IsChunk.oneMB).mpr
  rw [AmountCondition, memToTake_sixteenGB]
  decide +kernel

end LinuxNote.StartTunning
