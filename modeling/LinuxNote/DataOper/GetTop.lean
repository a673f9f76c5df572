import LinuxNote.Base.AwkCompare
import LinuxNote.Base.ShellText
import LinuxNote.Base.Words
import Mathlib.Data.List.GetD

/-!
# The busy processes of a log

`get_top.sh` reads the log of `top -b` and prints the first line of each snapshot and the
processes with more than a percentage of CPU.  The lines about the memory are left out with
`grep -iv`, and with them every process whose row has `mem` or `swap` in it.

Letters are those of the C locale here.

## Main definitions

* `getTop` — the first command of the script.
* `Snapshot` — what `top` prints at a time: lines of several kinds.
* `TopRight` — the log is read as it should be.
* `TopCondition` — the logs and percentages for which this is so.

## Main results

* `printed_summary`, `printed_row` — which lines are printed, kind by kind.
* `topRight_iff` — **a log is read right exactly when** no busy process has such a name, and
  blank lines are below the percentage.
-/

namespace LinuxNote.GetTop

open AwkNumber ShellText

/-! ### The script -/

/-- `/^top/`: the first line of a snapshot, for which the percentage does not matter. -/
def isTop (line : List Char) : Bool := decide ("top".toList <+: line)

/-- A line in small letters, as `grep -i` compares it. -/
def lower (line : List Char) : List Char := line.map Char.toLower

/-- `grep -i "Mem|Swap"`, wherever the letters are: in the name of a process, too. -/
def isMemory (line : List Char) : Bool :=
  occursIn "mem".toList (lower line) || occursIn "swap".toList (lower line)

/-- `grep -iE "^Tasks|^%Cpu|Mem|Swap"`, whose lines `-v` drops before `awk` sees them. -/
def isExcluded (line : List Char) : Bool :=
  decide ("tasks".toList <+: lower line) || decide ("%cpu".toList <+: lower line) || isMemory line

/-- The first command, with the percentage `$1`: the lines that begin with `top` or have
more in their ninth column, without those that `grep` drops. -/
def getTop (v1 : List Char) (file : List (List Char)) : List (List Char) :=
  (file.filter fun line => isTop line || awkGt (field 9 line) v1).filter fun line =>
    !isExcluded line

/-! ### Logs -/

/-- The words of the first line of a summary, besides numbers and times. -/
def topWords : List (List Char) :=
  ["top", "-", "up", "day,", "days,", "min,", "user,", "users,", "load", "average:"].map
    String.toList

/-- A number or a time, as the first lines of a snapshot have them between their words. -/
def isTopNumber (w : List Char) : Bool := w.all fun c => c.isDigit || [':', '.', ','].contains c

/-- `top - 12:00:00 up 3 days,  2:01,  1 user,  load average: 0.00, 0.01, 0.05`. -/
structure TopLine where
  line : List Char
  line_top : "top - ".toList <+: line
  words_line : ∀ w ∈ words line, w ∈ topWords ∨ isTopNumber w = true

/-- `Tasks: 123 total,   1 running, 122 sleeping,   0 stopped,   0 zombie`. -/
structure TasksLine where
  line : List Char
  line_tasks : "Tasks:".toList <+: line

/-- `%Cpu(s):  0.0 us,  0.0 sy, ...` or `%Cpu0  :  0.0 us,  0.0 sy, ...`. -/
structure CpuLine where
  line : List Char
  line_cpu : "%Cpu".toList <+: line

/-- `KiB Mem : ...`. -/
structure MemLine where
  line : List Char
  line_mem : "Mem".toList <:+: line

/-- `KiB Swap: ...`. -/
structure SwapLine where
  line : List Char
  line_swap : "Swap".toList <:+: line

/-- The names of the columns.  `%CPU` is the ninth one, and is compared with the
percentage as a text. -/
structure HeaderLine where
  line : List Char
  words_line : words line = ["PID", "USER", "PR", "NI", "VIRT", "RES", "SHR", "S", "%CPU", "%MEM",
    "TIME+", "COMMAND"].map String.toList

/-- The row of a process: the use of the CPU is the ninth word of it, whatever the
command is called. -/
structure ProcessRow where
  line : List Char
  front : List (List Char)
  cpu : List Char
  mem : List Char
  time : List Char
  command : List (List Char)
  words_line : words line = front ++ cpu :: mem :: time :: command
  front_length : front.length = 8
  cpu_numeric : looksNumeric cpu = true
  /-- The number of the process is printed to the right. -/
  line_start : ∃ c t, line = c :: t ∧ (c = ' ' ∨ c.isDigit = true)

/-- A line of a log, by what it is in the snapshot and not by what the filters make of
it. -/
inductive Line
  | top (l : TopLine)
  | tasks (l : TasksLine)
  | cpu (l : CpuLine)
  | mem (l : MemLine)
  | swap (l : SwapLine)
  | blank
  | header (l : HeaderLine)
  | row (r : ProcessRow)

def Line.text : Line → List Char
  | .top l => l.line
  | .tasks l => l.line
  | .cpu l => l.line
  | .mem l => l.line
  | .swap l => l.line
  | .blank => []
  | .header l => l.line
  | .row r => r.line

/-- What `top` prints at a time: the summary, a blank line, the header, and the rows of
the processes. -/
structure Snapshot where
  top : TopLine
  tasks : TasksLine
  cpus : List CpuLine
  mem : MemLine
  swap : SwapLine
  header : HeaderLine
  rows : List ProcessRow
  /-- The number of blank lines behind the rows. -/
  blanks : ℕ

def Snapshot.lines (s : Snapshot) : List Line :=
  Line.top s.top :: Line.tasks s.tasks :: (s.cpus.map Line.cpu ++ Line.mem s.mem ::
    Line.swap s.swap :: Line.blank :: Line.header s.header ::
    (s.rows.map Line.row ++ List.replicate s.blanks Line.blank))

/-- The file of a log. -/
def file (log : List Snapshot) : List (List Char) := log.flatMap fun s => s.lines.map Line.text

/-- The process uses more CPU than the percentage. -/
def ProcessRow.busy (v1 : List Char) (r : ProcessRow) : Bool :=
  decide (numValue v1 < numValue r.cpu)

/-- The first line of each snapshot and its busy processes are printed, and nothing else,
so that the times and the processes of a log stand together. -/
def TopRight (v1 : List Char) (log : List Snapshot) : Prop :=
  getTop v1 (file log) =
    log.flatMap fun s => s.top.line :: (s.rows.filter (ProcessRow.busy v1)).map ProcessRow.line

/-- The percentages that work for a log: each field is one kind of line that can be
printed or dropped by mistake. -/
structure TopCondition (v1 : List Char) (log : List Snapshot) : Prop where
  /-- No busy process has `mem` or `swap` in its row. -/
  rows : ∀ s ∈ log, ∀ r ∈ s.rows, r.busy v1 = true → isMemory r.line = false
  /-- A blank line counts as 0. -/
  blank : log = [] ∨ 0 ≤ numValue v1

/-! ### Which lines are printed -/

/-- The line is printed: it gets through `grep`, and `awk` finds that it starts a
snapshot or that its ninth field is greater. -/
def isPrinted (v1 line : List Char) : Bool :=
  (isTop line || awkGt (field 9 line) v1) && !isExcluded line

theorem getTop_eq (v1 : List Char) (file : List (List Char)) :
    getTop v1 file = file.filter (isPrinted v1) := by
  rw [getTop, List.filter_filter]
  exact List.filter_congr fun line _ => Bool.and_comm _ _

/-- The line should be printed: it starts a snapshot, or is the row of a busy process. -/
def Line.wanted (v1 : List Char) : Line → Bool
  | .top _ => true
  | .row r => r.busy v1
  | _ => false

theorem isPrinted_excluded (v1 : List Char) {line : List Char} (h : isExcluded line = true) :
    isPrinted v1 line = false := by
  rw [isPrinted, h, Bool.not_true, Bool.and_false]

theorem isExcluded_tasks (l : TasksLine) : isExcluded l.line = true := by
  have hstart : "tasks".toList <+: lower l.line :=
    List.IsPrefix.trans (by decide) (l.line_tasks.map Char.toLower)
  rw [isExcluded, decide_eq_true hstart, Bool.true_or, Bool.true_or]

theorem isExcluded_cpu (l : CpuLine) : isExcluded l.line = true := by
  have hstart : "%cpu".toList <+: lower l.line :=
    List.IsPrefix.trans (by decide) (l.line_cpu.map Char.toLower)
  rw [isExcluded, decide_eq_true hstart, Bool.or_true, Bool.true_or]

theorem isExcluded_memory {line : List Char} (h : isMemory line = true) :
    isExcluded line = true := by
  rw [isExcluded, h, Bool.or_true]

theorem isMemory_mem {line : List Char} (h : "mem".toList <:+: lower line) :
    isMemory line = true := by
  rw [isMemory, occursIn_iff.mpr h, Bool.true_or]

theorem isMemory_swap {line : List Char} (h : "swap".toList <:+: lower line) :
    isMemory line = true := by
  rw [isMemory, occursIn_iff.mpr h, Bool.or_true]

theorem isMemory_header (l : HeaderLine) : isMemory l.line = true := by
  have hword : "%MEM".toList ∈ words l.line := by
    rw [l.words_line]
    decide
  have hline : "MEM".toList <:+: l.line :=
    (infix_iff_exists_word (by decide) (isBlank_of_all (by decide)) _).mpr
      ⟨_, hword, by decide⟩
  exact isMemory_mem (List.IsInfix.trans (by decide) (hline.map Char.toLower))

theorem isBlank_toLower {c : Char} (h : isBlank c = true) : isBlank c.toLower = true := by
  rw [isBlank, Bool.or_eq_true, beq_iff_eq, beq_iff_eq] at h
  rcases h with rfl | rfl
  · decide
  · decide

/-- What comes before the capital letters is not replaced. -/
theorem toLower_of_lt {c : Char} (h : c.toNat < 'A'.toNat) : c.toLower = c := by
  apply dif_neg
  rintro ⟨hge, -⟩
  exact absurd (Nat.lt_of_lt_of_le h hge) (Nat.lt_irrefl _)

theorem toNat_lt_of_isDigit {c : Char} (h : c.isDigit = true) : c.toNat < 'A'.toNat := by
  rw [Char.isDigit_iff_toNat] at h
  exact Nat.lt_of_le_of_lt h.2 (by decide)

theorem toLower_topNumber {c : Char} (h : (c.isDigit || [':', '.', ','].contains c) = true) :
    c.toLower = c := by
  rw [Bool.or_eq_true, List.contains_iff_mem] at h
  rcases h with h | h
  · exact toLower_of_lt (toNat_lt_of_isDigit h)
  · simp only [List.mem_cons, List.not_mem_nil, or_false] at h
    rcases h with rfl | rfl | rfl
    · decide
    · decide
    · decide

/-- No word of the first line has one of the texts in it. -/
theorem TopLine.not_infix (l : TopLine) {text : List Char} (hne : text ≠ [])
    (hblank : ∀ c ∈ text, isBlank c = false) (hword : ∀ w ∈ topWords, ¬ text <:+: lower w)
    (hletter : ∃ c ∈ text, (c.isDigit || [':', '.', ','].contains c) = false) :
    ¬ text <:+: lower l.line := by
  intro h
  -- the text would be in one of the words
  obtain ⟨w, hw, hin⟩ := exists_word_of_infix_map (fun _ => isBlank_toLower) hne hblank h
  rcases l.words_line w hw with hmem | hnumber
  · exact hword w hmem hin
  · obtain ⟨c, hc, hother⟩ := hletter
    obtain ⟨d, hd, rfl⟩ := List.mem_map.mp (hin.subset hc)
    have hdigit := List.all_eq_true.mp hnumber d hd
    rw [toLower_topNumber hdigit, hdigit] at hother
    exact absurd hother (by decide)

theorem isExcluded_top (l : TopLine) : isExcluded l.line = false := by
  have hmem : ¬ "mem".toList <:+: lower l.line :=
    l.not_infix (by decide) (isBlank_of_all (by decide)) (by decide) ⟨'m', by decide, by decide⟩
  have hswap : ¬ "swap".toList <:+: lower l.line :=
    l.not_infix (by decide) (isBlank_of_all (by decide)) (by decide) ⟨'s', by decide, by decide⟩
  obtain ⟨rest, hline⟩ := l.line_top
  have hlower : lower l.line = 't' :: 'o' :: lower ("p - ".toList ++ rest) := by
    rw [← hline]
    rfl
  have htasks : ¬ "tasks".toList <+: lower l.line := by
    rw [hlower]
    exact fun h => absurd (List.cons_prefix_cons.mp (List.cons_prefix_cons.mp h).2).1 (by decide)
  have hcpu : ¬ "%cpu".toList <+: lower l.line := by
    rw [hlower]
    exact fun h => absurd (List.cons_prefix_cons.mp h).1 (by decide)
  rw [← occursIn_iff, Bool.not_eq_true] at hmem hswap
  rw [isExcluded, isMemory, hmem, hswap, decide_eq_false htasks, decide_eq_false hcpu]
  rfl

theorem isPrinted_top (v1 : List Char) (l : TopLine) : isPrinted v1 l.line = true := by
  have htop : "top".toList <+: l.line := List.IsPrefix.trans (by decide) l.line_top
  rw [isPrinted, isTop, decide_eq_true htop, isExcluded_top, Bool.true_or]
  rfl

/-- The line is of the summary but not the first one, or the header. -/
def Line.isSummary : Line → Bool
  | .tasks _ | .cpu _ | .mem _ | .swap _ | .header _ => true
  | _ => false

/-- **The other lines of the summary** and the header are not printed: `grep` drops them,
or their ninth column is no larger number. -/
theorem printed_summary (v1 : List Char) (line : Line) (h : line.isSummary = true) :
    isPrinted v1 line.text = false := by
  cases line with
  | top => exact absurd h Bool.false_ne_true
  | tasks l => exact isPrinted_excluded v1 (isExcluded_tasks l)
  | cpu l => exact isPrinted_excluded v1 (isExcluded_cpu l)
  | mem l =>
    have hline : "mem".toList <:+: lower l.line :=
      List.IsInfix.trans (by decide) (l.line_mem.map Char.toLower)
    exact isPrinted_excluded v1 (isExcluded_memory (isMemory_mem hline))
  | swap l =>
    have hline : "swap".toList <:+: lower l.line :=
      List.IsInfix.trans (by decide) (l.line_swap.map Char.toLower)
    exact isPrinted_excluded v1 (isExcluded_memory (isMemory_swap hline))
  | blank => exact absurd h Bool.false_ne_true
  | header l => exact isPrinted_excluded v1 (isExcluded_memory (isMemory_header l))
  | row => exact absurd h Bool.false_ne_true

theorem toLower_start {c : Char} (hc : c = ' ' ∨ c.isDigit = true) : c.toLower = c := by
  rcases hc with rfl | hc
  · decide
  · exact toLower_of_lt (toNat_lt_of_isDigit hc)

/-- The row of a process starts with none of the words. -/
theorem ProcessRow.noKeyword (r : ProcessRow) :
    ¬ "top".toList <+: r.line ∧ ¬ "tasks".toList <+: lower r.line ∧
      ¬ "%cpu".toList <+: lower r.line := by
  obtain ⟨c, t, hline, hc⟩ := r.line_start
  have hother : ∀ d : Char, d ≠ ' ' → d.isDigit = false → ∀ w rest : List Char,
      ¬ d :: w <+: c :: rest := by
    intro d hspace hdigit w rest h
    obtain rfl := (List.cons_prefix_cons.mp h).1
    rcases hc with hc | hc
    · exact hspace hc
    · rw [hdigit] at hc
      exact Bool.false_ne_true hc
  have hlower : lower r.line = c :: lower t := by
    rw [hline, lower, List.map_cons, toLower_start hc]
    rfl
  rw [hlower, hline]
  exact ⟨hother 't' (by decide) (by decide) _ _, hother 't' (by decide) (by decide) _ _,
    hother '%' (by decide) (by decide) _ _⟩

section Percentage

variable {v1 : List Char} (hv : looksNumeric v1 = true)
include hv

theorem isPrinted_blank : isPrinted v1 [] = decide (numValue v1 < 0) := by
  have hfield : awkGt (field 9 []) v1 = decide (numValue v1 < 0) := awkGt_of_numeric rfl hv
  have hexcluded : isExcluded [] = false := by decide
  rw [isPrinted, hfield, hexcluded, Bool.not_false, Bool.and_true]
  rfl

/-- **The row of a process** is printed if the process is busy, but not with such a name:
`kswapd0` has the word in it that is meant for the summary. -/
theorem printed_row (r : ProcessRow) :
    isPrinted v1 r.line = (r.busy v1 && !isMemory r.line) := by
  have hfield : field 9 r.line = r.cpu := by
    have hlength : r.front.length ≤ 9 - 1 := Nat.le_of_eq r.front_length
    rw [field, r.words_line, List.getD_append_right _ _ _ _ hlength, r.front_length]
    rfl
  have hbusy : awkGt (field 9 r.line) v1 = r.busy v1 := by
    rw [hfield]
    exact awkGt_of_numeric (fieldNumeric_of_looksNumeric r.cpu_numeric) hv
  obtain ⟨htop, htasks, hcpu⟩ := r.noKeyword
  rw [isPrinted, isTop, isExcluded, decide_eq_false htop, decide_eq_false htasks,
    decide_eq_false hcpu, hbusy]
  rfl

end Percentage

/-! ### The whole log -/

theorem Snapshot.blank_mem (s : Snapshot) : Line.blank ∈ s.lines := by
  simp [Snapshot.lines]

theorem Snapshot.row_mem {s : Snapshot} {r : ProcessRow} : Line.row r ∈ s.lines ↔ r ∈ s.rows := by
  simp [Snapshot.lines]

/-- The lines that should be printed. -/
theorem Snapshot.filter_wanted (v1 : List Char) (s : Snapshot) :
    (s.lines.filter (Line.wanted v1)).map Line.text =
      s.top.line :: (s.rows.filter (ProcessRow.busy v1)).map ProcessRow.line := by
  have hcpus : (s.cpus.map Line.cpu).filter (Line.wanted v1) = [] := by
    rw [List.filter_eq_nil_iff, List.forall_mem_map]
    exact fun _ _ => Bool.false_ne_true
  have hblanks : (List.replicate s.blanks Line.blank).filter (Line.wanted v1) = [] :=
    List.filter_replicate_of_neg Bool.false_ne_true
  have hrows : (s.rows.map Line.row).filter (Line.wanted v1) =
      (s.rows.filter (ProcessRow.busy v1)).map Line.row := List.filter_map
  have hsummary : ∀ line : Line, line.wanted v1 = false → ∀ rest : List Line,
      (line :: rest).filter (Line.wanted v1) = rest.filter (Line.wanted v1) := by
    intro line h rest
    exact List.filter_cons_of_neg (by rw [h]; exact Bool.false_ne_true)
  rw [Snapshot.lines, List.filter_cons_of_pos rfl, hsummary _ rfl, List.filter_append, hcpus,
    List.nil_append, hsummary _ rfl, hsummary _ rfl, hsummary _ rfl, hsummary _ rfl,
    List.filter_append, hrows, hblanks, List.append_nil, List.map_cons, List.map_map]
  rfl

/-- A log is read right exactly when it is for every line. -/
theorem topRight_eq {v1 : List Char} (log : List Snapshot) :
    TopRight v1 log ↔ ∀ s ∈ log, ∀ line ∈ s.lines, isPrinted v1 line.text = line.wanted v1 := by
  have hfile : file log = (log.flatMap Snapshot.lines).map Line.text := by
    rw [file, List.map_flatMap]
  have hwanted : (log.flatMap fun s => s.top.line ::
      (s.rows.filter (ProcessRow.busy v1)).map ProcessRow.line) =
      ((log.flatMap Snapshot.lines).filter (Line.wanted v1)).map Line.text := by
    rw [List.filter_flatMap, List.map_flatMap]
    exact congrArg log.flatMap (funext fun s => (s.filter_wanted v1).symm)
  rw [TopRight, getTop_eq, hfile, hwanted, filter_map_eq_iff]
  constructor
  · intro h s hs line hline
    exact h line (List.mem_flatMap.mpr ⟨s, hs, hline⟩)
  · intro h line hline
    obtain ⟨s, hs, hin⟩ := List.mem_flatMap.mp hline
    exact h s hs line hin

/-- **A log is read right** exactly when the condition holds: `grep` drops lines by words
that may stand in the name of a process, and `awk` compares the ninth column, whatever
stands there. -/
theorem topRight_iff {v1 : List Char} (hv : looksNumeric v1 = true) (log : List Snapshot) :
    TopRight v1 log ↔ TopCondition v1 log := by
  rw [topRight_eq]
  constructor
  · intro hline
    refine ⟨fun s hs r hr hbusy => ?_, ?_⟩
    · have hrow := hline s hs (.row r) (Snapshot.row_mem.mpr hr)
      rw [Line.text, printed_row hv, Line.wanted, hbusy, Bool.true_and] at hrow
      rwa [Bool.not_eq_true'] at hrow
    -- a blank line has no ninth field, which counts as 0
    · cases log with
      | nil => exact Or.inl rfl
      | cons s rest =>
        have hblank := hline s List.mem_cons_self .blank s.blank_mem
        rw [Line.text, isPrinted_blank hv] at hblank
        exact Or.inr (not_lt.mp (of_decide_eq_false hblank))
  · intro h s hs line hin
    cases line with
    | top l => exact isPrinted_top v1 l
    | blank =>
      rcases h.blank with rfl | hle
      · exact absurd hs List.not_mem_nil
      · rw [Line.text, isPrinted_blank hv, decide_eq_false (not_lt.mpr hle)]
        rfl
    | row r =>
      have hr : r ∈ s.rows := Snapshot.row_mem.mp hin
      rw [Line.text, printed_row hv, Line.wanted]
      cases hbusy : r.busy v1 with
      | false => rfl
      | true =>
        rw [h.rows s hs r hr hbusy]
        rfl
    | tasks l => exact printed_summary v1 (.tasks l) rfl
    | cpu l => exact printed_summary v1 (.cpu l) rfl
    | mem l => exact printed_summary v1 (.mem l) rfl
    | swap l => exact printed_summary v1 (.swap l) rfl
    | header l => exact printed_summary v1 (.header l) rfl

/-! ### A busy kernel thread -/

def swapRow : ProcessRow where
  line := "   73 root 20 0 0 0 0 R 99.3 0.0 1:02.03 kswapd0".toList
  front := ["73", "root", "20", "0", "0", "0", "0", "R"].map String.toList
  cpu := "99.3".toList
  mem := "0.0".toList
  time := "1:02.03".toList
  command := ["kswapd0".toList]
  words_line := by decide +kernel
  front_length := rfl
  cpu_numeric := by decide +kernel
  line_start := ⟨' ', _, rfl, Or.inl rfl⟩

/-- A snapshot with a row. -/
def snapshotOf (r : ProcessRow) : Snapshot where
  top :=
    { line := "top - 12:00:00 up 5 min, 1 user, load average: 1.00, 0.51, 0.15".toList
      line_top := by decide +kernel
      words_line := by decide +kernel }
  tasks := ⟨"Tasks: 1 total".toList, by decide +kernel⟩
  cpus := [⟨"%Cpu(s): 99.3 sy".toList, by decide +kernel⟩]
  mem := ⟨"KiB Mem : 1015700 total".toList, by decide +kernel⟩
  swap := ⟨"KiB Swap: 2097148 total".toList, by decide +kernel⟩
  header := ⟨"  PID USER PR NI VIRT RES SHR S %CPU %MEM TIME+ COMMAND".toList, by decide +kernel⟩
  rows := [r]
  blanks := 1

/-- `kswapd0` is not printed, however busy it is. -/
theorem not_topRight_kswapd : ¬ TopRight "50".toList [snapshotOf swapRow] := by
  intro h
  have hbusy : swapRow ∈ [swapRow].filter (ProcessRow.busy "50".toList) :=
    List.mem_filter.mpr ⟨List.mem_singleton_self _, by decide +kernel⟩
  have hin : swapRow.line ∈ getTop "50".toList (file [snapshotOf swapRow]) := by
    rw [h, List.flatMap_singleton]
    exact List.mem_cons_of_mem _ (List.mem_map_of_mem hbusy)
  have hswap : "swap".toList <:+: lower swapRow.line :=
    ⟨(lower swapRow.line).take 42, "d0".toList, by decide +kernel⟩
  rw [getTop_eq] at hin
  have hprinted := (List.mem_filter.mp hin).2
  rw [isPrinted_excluded _ (isExcluded_memory (isMemory_swap hswap))] at hprinted
  exact Bool.false_ne_true hprinted

def busyRow : ProcessRow where
  line := " 1042 root 20 0 2300 1500 900 R 99.3 0.1 1:02.03 yes".toList
  front := ["1042", "root", "20", "0", "2300", "1500", "900", "R"].map String.toList
  cpu := "99.3".toList
  mem := "0.1".toList
  time := "1:02.03".toList
  command := ["yes".toList]
  words_line := by decide +kernel
  front_length := rfl
  cpu_numeric := by decide +kernel
  line_start := ⟨' ', _, rfl, Or.inl rfl⟩

theorem topRight_yes : TopRight "50".toList [snapshotOf busyRow] := by
  apply (topRight_iff (by decide +kernel) [snapshotOf busyRow]).mpr
  refine ⟨fun s hs r hr _ => ?_, Or.inr (by decide +kernel)⟩
  obtain rfl := List.mem_singleton.mp hs
  obtain rfl := List.mem_singleton.mp hr
  decide +kernel

end LinuxNote.GetTop
