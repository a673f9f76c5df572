import LinuxNote.Sysstat.MutationDirection

/-!
# The window of a section

`line_init` looks for the header line of a section and for the averages behind it, and
takes the lines in between.  It leaves out two lines before the averages, of which the
second is a blank line only in the sections with a row for each object.

## Main definitions

* `Info` — the sections of a report, with the word that each is looked for with.
* `Section` — where a section stands in a report.
* `WindowRight` — a window has all rows of a section and nothing behind them.

## Main results

* `lineInit_of_section` — the window goes from the line behind the header to the second
  line before the averages.
* `rows_lineInit` — what `sed` prints of it.
* `windowRight_iff` — **the window is right exactly when** the line before the averages
  is blank, or there is no line before them.
-/

namespace LinuxNote.MutationCheck

open ShellText

/-! ### Sections -/

/-- The sections that the `_info_init` functions look for. -/
inductive Info where
  | cpu | dev | memory | network | process | irq | swap | page
  deriving DecidableEq

/-- The word in the header line of a section. -/
def Info.flag : Info → List Char
  | .cpu => "usr".toList
  | .dev => "rd_sec".toList
  | .memory => "kbmemfree".toList
  | .network => "rxpck".toList
  | .process => "proc".toList
  | .irq => "INTR".toList
  | .swap => "pswpin".toList
  | .page => "pgpgin".toList

/-- A section of a report: the header line is the first with the word of the section,
the averages start at the first line behind it with the word `Average`.  Lines are
counted from 1. -/
structure Section (info : Info) (file : List (List Char)) where
  header : ℕ
  average : ℕ
  header_first : firstLine (occursIn info.flag) file = some header
  average_first :
    firstLine (occursIn "Average".toList) (file.drop header) = some (average - header)

/-- A line of a file, counted from 1. -/
def lineAt (file : List (List Char)) (i : ℕ) : List Char := file.getD (i - 1) []

/-- A line without words, as sar prints between its sections and before the averages. -/
def IsBlankLine (line : List Char) : Prop := words line = []

instance (line : List Char) : Decidable (IsBlankLine line) :=
  inferInstanceAs (Decidable (words line = []))

/-- The range from `BEGIN_LINE` to `END_LINE` has a line. -/
def Window.Has (w : Window) (i : ℕ) : Prop :=
  w.beginLine ≤ i ∧ ∃ e ∈ w.endLine, (i : ℤ) ≤ e

/-- A window has all data rows of a section, which are the lines between the header and
the averages that are not blank, and no line from the averages on. -/
structure WindowRight {info : Info} {file : List (List Char)} (s : Section info file)
    (w : Window) : Prop where
  rows : ∀ i, s.header < i → i < s.average → ¬ IsBlankLine (lineAt file i) → w.Has i
  before : ∀ i, w.Has i → i < s.average

/-! ### The window that is computed -/

/-- The words of the sections have no special characters. -/
theorem grep_flag (t : Tools) (info : Info) : t.grep info.flag = occursIn info.flag := by
  cases info <;> exact t.grep_text (by decide)

theorem grep_average (t : Tools) : t.grep "Average".toList = occursIn "Average".toList :=
  t.grep_text (by decide)

section Window

variable {info : Info} {file : List (List Char)} (t : Tools) (s : Section info file)

include s in
theorem Section.header_lt_average : s.header < s.average := by
  have hfirst := s.average_first
  unfold firstLine at hfirst
  obtain ⟨k, -, hk⟩ := Option.map_eq_some_iff.mp hfirst
  omega

/-- The window starts behind the header and ends two lines before the averages. -/
theorem lineInit_of_section :
    (lineInit t file info.flag).beginLine = s.header + 1 ∧
      (lineInit t file info.flag).endLine = some ((s.average : ℤ) - 2) := by
  have hlt := s.header_lt_average
  have hbegin : (firstLine (t.grep info.flag) file).getD 0 + 1 = s.header + 1 := by
    rw [grep_flag, s.header_first, Option.getD_some]
  refine ⟨hbegin, ?_⟩
  simp only [lineInit]
  rw [hbegin, Nat.add_sub_cancel, grep_average, s.average_first]
  have hend : ((s.header + 1 : ℕ) : ℤ) + (s.average - s.header : ℕ) - 3 = (s.average : ℤ) - 2 := by
    omega
  exact congrArg some hend

/-- The lines of the window. -/
theorem has_lineInit_iff (i : ℕ) :
    (lineInit t file info.flag).Has i ↔ s.header < i ∧ i + 2 ≤ s.average := by
  obtain ⟨hbegin, hend⟩ := lineInit_of_section t s
  unfold Window.Has
  rw [hbegin, hend]
  simp only [Option.mem_some_iff, exists_eq_left']
  omega

/-- **What `sed` prints of a section**: all lines but the one before the averages.  It
prints at least one line, and if the averages follow the header that is an average. -/
theorem rows_lineInit :
    (lineInit t file info.flag).rows file =
      if s.average < 2 then []
      else (file.drop s.header).take (max 1 (s.average - 2 - s.header)) := by
  obtain ⟨hbegin, hend⟩ := lineInit_of_section t s
  have hlt := s.header_lt_average
  rw [Window.rows, hbegin, hend, windowRows, sedRange, Nat.add_sub_cancel]
  by_cases hsmall : s.average < 2
  · rw [if_pos hsmall, if_pos (by omega)]
  · rw [if_neg hsmall, if_neg (by omega)]
    congr 2
    omega

/-! ### When the window is right -/

/-- **The window is right exactly when** the line before the averages is blank, or the
averages follow the header at once: the script takes the line before them for the blank
one, whatever it is. -/
theorem windowRight_iff :
    WindowRight s (lineInit t file info.flag) ↔
      s.average = s.header + 1 ∨ IsBlankLine (lineAt file (s.average - 1)) := by
  have hlt := s.header_lt_average
  constructor
  · intro h
    by_contra hcond
    rw [not_or] at hcond
    -- the line before the averages is a row, and it is not in the window
    have hlast := h.rows (s.average - 1) (by omega) (by omega) hcond.2
    rw [has_lineInit_iff t s] at hlast
    omega
  · intro h
    constructor
    · intro i hi hia hrow
      rw [has_lineInit_iff t s]
      refine ⟨hi, ?_⟩
      by_contra hout
      have heq : i = s.average - 1 := by omega
      subst heq
      rcases h with hnext | hblank
      · omega
      · exact hrow hblank
    · intro i hi
      rw [has_lineInit_iff t s] at hi
      omega

end Window

/-- A report on the memory, whose averages follow the last sample. -/
def memoryReport : List (List Char) :=
  ["Linux 3.10.0 (host)  11/08/2017  _x86_64_  (4 CPU)", "",
    "12:00:01    kbmemfree kbmemused  %memused kbbuffers  kbcached  kbcommit   %commit",
    "12:00:02      1000000   3000000     75.00     10000    500000   2000000     40.00",
    "12:00:03       500000   3500000     87.50     10000    500000   2000000     40.00",
    "Average:       750000   3250000     81.25     10000    500000   2000000     40.00"].map
    String.toList

def memorySection : Section .memory memoryReport where
  header := 3
  average := 6
  header_first := by decide +kernel
  average_first := by decide +kernel

/-- The last sample of the memory is not in the window. -/
theorem not_windowRight_memory :
    ¬ WindowRight memorySection (lineInit plainTools memoryReport Info.memory.flag) := by
  intro h
  have hlast := h.rows 5 (by decide) (by decide) (by decide)
  rw [has_lineInit_iff plainTools memorySection] at hlast
  exact absurd hlast.2 (by decide)

end LinuxNote.MutationCheck
