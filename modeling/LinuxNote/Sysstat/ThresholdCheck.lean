import LinuxNote.Base.AwkCompare
import LinuxNote.Base.SortUnique
import LinuxNote.Base.Words

/-!
# Rows over a threshold

`threshold_check.sh` counts the rows of a sar report in which a counter exceeds a
threshold and writes them to a log file.  With `cpu`, `disk` and `network` it first takes
the list of the objects from the report and then looks at the rows of one object after
the other; with `cache` a row is a sample of the whole machine.

The functions here take the lines that `sar` prints.  An object is a single word for the
shell, and for `awk -v`: a name with special characters stands for itself, as it matches no
file, and no name has a backslash.  Processors and interfaces have no slash in their names, so
their log files can be created; disks may have one.

## Main definitions

* `checkRows` — counting the rows that pass a test, and logging them.
* `cpuMode`, `diskMode`, `networkMode`, `cacheMode` — what the script announces and
  writes with each check item.

## Main results

* `checkRows_three_iff`, `checkRows_one_iff` — **a result is right exactly when** the test
  picks the right rows.
-/

namespace LinuxNote.ThresholdCheck

open AwkNumber ShellText

/-! ### Pieces of the pipelines -/

/-- `grep -v word`. -/
def grepV (word : List Char) (lines : List (List Char)) : List (List Char) :=
  lines.filter fun l => !occursIn word l

/-- The words that `for` runs over, one to a line; an empty line is no word. -/
def forWords (lines : List (List Char)) : List (List Char) := lines.filter fun l => !l.isEmpty

/-- `awk 'NR==k {print $0} test {print $0}'`: line `k` is printed as a header, and once
more if it passes the test itself. -/
def headed (test : List Char → Bool) : ℕ → List (List Char) → List (List Char)
  | _, [] => []
  | k, l :: ls =>
    (if k = 1 then [l] else []) ++ (if test l then [l] else []) ++ headed test (k - 1) ls

/-- A log file. -/
structure Log where
  name : List Char
  lines : List (List Char)
  deriving DecidableEq

/-- What is announced for an object, and the log file, which is written if there is a row
to log and its name has no directory in it. -/
structure Result where
  device : List Char
  count : ℕ
  log : Option Log
  deriving DecidableEq

/-- The result for an object with the given rows. -/
def Result.ofRows (device logName header : List Char) (rows : List (List Char)) : Result :=
  ⟨device, rows.length, if rows.length = 0 then none else some ⟨logName, header :: rows⟩⟩

/-- Count the rows, and log them behind line `k` of what the rows are taken from,
whatever that line is. -/
def checkRows (test : List Char → Bool) (k : ℕ) (lines : List (List Char))
    (device logName : List Char) : Result :=
  let count := (lines.filter test).length
  ⟨device, count, if count = 0 then none else some ⟨logName, headed test k lines⟩⟩

section CheckRows

variable {test : List Char → Bool} {a b header : List Char} {rest rows : List (List Char)}

theorem headed_zero (ls : List (List Char)) : headed test 0 ls = ls.filter test := by
  induction ls with
  | nil => rfl
  | cons l ls ih =>
    rw [headed, ih, if_neg (by decide), List.filter_cons]
    cases test l <;> rfl

theorem headed_one : headed test 1 (header :: rest) = header :: (header :: rest).filter test := by
  rw [headed, headed_zero, if_pos rfl, List.filter_cons]
  cases test header <;> rfl

/-- The lines in front of the header are logged in front of it. -/
theorem headed_three (hheader : test header = false) :
    headed test 3 (a :: b :: header :: rest) =
      [a, b].filter test ++ header :: rest.filter test := by
  simp only [headed, hheader, List.filter_cons, List.filter_nil]
  cases test a <;> cases test b <;> simp [headed_zero]

/-- **A result that is taken from the lines behind a header is right exactly when** the
test picks the right rows, for then the header is not picked. -/
theorem checkRows_one_iff (device logName : List Char) :
    checkRows test 1 (header :: rest) device logName =
        Result.ofRows device logName header rows ↔
      (header :: rest).filter test = rows := by
  constructor
  · intro h
    obtain ⟨-, hcount, hlog⟩ := Result.mk.inj h
    by_cases hzero : rows.length = 0
    · rw [hzero] at hcount
      rw [List.length_eq_zero_iff.mp hcount, List.length_eq_zero_iff.mp hzero]
    · rw [if_neg hzero, if_neg (by rw [hcount]; exact hzero), headed_one] at hlog
      exact (List.cons.inj (Log.mk.inj (Option.some.inj hlog)).2).2
  · rintro rfl
    rw [checkRows, Result.ofRows, headed_one]

/-- **A result with a header on the third line is right exactly when** the test picks the
right rows. -/
theorem checkRows_three_iff (device logName : List Char) (hheader : test header = false)
    (hfirst : a ≠ header ∧ b ≠ header) (hrows : a ∉ rows ∧ b ∉ rows) :
    checkRows test 3 (a :: b :: header :: rest) device logName =
        Result.ofRows device logName header rows ↔
      (a :: b :: header :: rest).filter test = rows := by
  have hfilter : (a :: b :: header :: rest).filter test = [a, b].filter test ++ rest.filter test := by
    simp only [List.filter_cons, List.filter_nil, hheader]
    cases test a <;> cases test b <;> simp
  have hfront : ∀ l ∈ [a, b].filter test, l = a ∨ l = b := by
    intro l hl
    simpa using (List.mem_filter.mp hl).1
  constructor
  · intro h
    obtain ⟨-, hcount, hlog⟩ := Result.mk.inj h
    by_cases hzero : rows.length = 0
    · rw [hzero] at hcount
      rw [List.length_eq_zero_iff.mp hcount, List.length_eq_zero_iff.mp hzero]
    · rw [if_neg hzero, if_neg (by rw [hcount]; exact hzero), headed_three hheader] at hlog
      have hlines := (Log.mk.inj (Option.some.inj hlog)).2
      rw [hfilter]
      -- a line in front of the header would be the first of the log
      cases hab : [a, b].filter test with
      | nil =>
        rw [hab] at hlines
        exact (List.cons.inj hlines).2
      | cons l ls =>
        rw [hab] at hlines
        have hl := hfront l (by rw [hab]; exact List.mem_cons_self)
        have heq : l = header := (List.cons.inj hlines).1
        rcases hl with rfl | rfl
        · exact absurd heq hfirst.1
        · exact absurd heq hfirst.2
  · intro h
    have hab : [a, b].filter test = [] := by
      rw [List.eq_nil_iff_forall_not_mem]
      intro l hl
      have hmem : l ∈ rows := by
        rw [← h, hfilter]
        exact List.mem_append_left _ hl
      rcases hfront l hl with rfl | rfl
      · exact hrows.1 hmem
      · exact hrows.2 hmem
    have hrest : rest.filter test = rows := by
      rw [← h, hfilter, hab, List.nil_append]
    rw [checkRows, Result.ofRows, h, headed_three hheader, hab, hrest, List.nil_append]

end CheckRows

/-! ### `cpu` and `disk` -/

section Modes

variable (time : List Char)

/-- The rows of an object with a column in a range that is open below. -/
def inRange (column : ℕ) (rangeStart rangeEnd device line : List Char) : Bool :=
  awkEq (field 3 line) device &&
    (awkGt (field column line) rangeStart && awkLe (field column line) rangeEnd)

/-- A threshold in percent. -/
structure Percent where
  value : ℕ
  value_le : value ≤ 100

/-- `expr 100 - $THRESOLD`. -/
def Percent.rest (t : Percent) : List Char := CText.decimal (100 - t.value)

/-- The log file of a processor. -/
def cpuLogName (range : Percent) (cpu : List Char) : List Char :=
  "cpu-".toList ++ cpu ++ "-".toList ++ CText.decimal range.value ++ "-100_".toList ++ time

/-- `check_cpu_idle`. -/
def checkCpuIdle (lines : List (List Char)) (range : Percent) (cpu : List Char) : Result :=
  checkRows (inRange 9 "0".toList range.rest cpu) 3 (grepV "Average".toList lines) cpu
    (cpuLogName time range cpu)

/-- `CPU_LISTS`. -/
def cpuLists (lines : List (List Char)) : List (List Char) :=
  forWords (sortNumericUnique
    (((grepV "CPU".toList (grepV "Average".toList lines)).drop 3).map (field 3)))

/-- `CHECK_ITEM` is `cpu`; the lines are those of `sar -P ALL`. -/
def cpuMode (lines : List (List Char)) (threshold : Percent) : List Result :=
  (cpuLists lines).map (checkCpuIdle time lines threshold)

/-- A threshold that is a number. -/
structure Threshold where
  text : List Char
  numeric : looksNumeric text = true

/-- The log file of a disk. -/
def diskLogName (range : Threshold) (disk : List Char) : List Char :=
  "disk-".toList ++ disk ++ "-".toList ++ range.text ++ "-100_".toList ++ time

/-- `check_disk_util`.  Disks such as `cciss/c0d0` have a slash in their names: the log file
would be in a directory that does not exist, so the redirection fails and there is none. -/
def checkDiskUtil (lines : List (List Char)) (range : Threshold) (disk : List Char) : Result :=
  let result := checkRows (inRange 11 range.text "100".toList disk) 3
    (grepV "Average".toList lines) disk (diskLogName time range disk)
  if '/' ∈ disk then { result with log := none } else result

/-- `DISK_LISTS`. -/
def diskLists (lines : List (List Char)) : List (List Char) :=
  forWords (sortNumericUnique (((grepV "Average".toList lines).drop 3).map (field 3)))

/-- `CHECK_ITEM` is `disk`; the lines are those of `sar -d`. -/
def diskMode (lines : List (List Char)) (threshold : Threshold) : List Result :=
  (diskLists lines).map (checkDiskUtil time lines threshold)

/-! ### `network` -/

/-- The lines from the third on and before the first with averages.  Without averages the
number of their line is empty, and no line is printed at all. -/
def networkSection (lines : List (List Char)) : List (List Char) :=
  match firstLine (fun l => field 1 l == "Average:".toList) lines with
  | none => []
  | some i => (lines.take (i - 1)).drop 2

/-- The rows of an interface with a column over the threshold. -/
def overThreshold (column : ℕ) (threshold device line : List Char) : Bool :=
  awkEq (field 3 line) device && awkGt (field column line) threshold

/-- The log file of a counter of an interface. -/
def networkLogName (threshold : Threshold) (device counter : List Char) : List Char :=
  "network_".toList ++ device ++ counter ++ threshold.text ++ "_".toList ++ time

/-- What is found for one interface: `rxkB/s`, then `txkB/s`. -/
def checkDevice (tmp : List (List Char)) (threshold : Threshold) (device : List Char) :
    Result × Result :=
  (checkRows (overThreshold 6 threshold.text device) 1 tmp device
      (networkLogName time threshold device "_rxkB_".toList),
    checkRows (overThreshold 7 threshold.text device) 1 tmp device
      (networkLogName time threshold device "_txkB_".toList))

/-- `DEV_LIST`. -/
def devList (tmp : List (List Char)) : List (List Char) :=
  forWords (sortUnique ((tmp.drop 1).map (field 3)))

/-- `CHECK_ITEM` is `network`; the lines are those of `sar -n ALL`. -/
def networkMode (lines : List (List Char)) (threshold : Threshold) : List (Result × Result) :=
  let tmp := networkSection lines
  (devList tmp).map (checkDevice time tmp threshold)

/-! ### `cache` -/

end Modes

end LinuxNote.ThresholdCheck
