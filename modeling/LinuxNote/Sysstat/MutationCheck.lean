import LinuxNote.Base.AwkNumber
import LinuxNote.Base.ShellText

/-!
# Sudden changes in a sar report

`Mutation_check.sh` looks for counters of a sar report that change by more than a
threshold from one sample to the next.  `line_init` finds the section of a counter in
the report, `check_cmd_set` compares neighbouring rows of it and prints a record for
each jump, and `main` does so for all sections.  The threshold flag then filters the
lines that `main` prints.

## Main definitions

* `lineInit` — the window of a section, and the objects in it.
* `checkCmdSet` — the records of one counter of one object.
* `main`, `program` — all records, and what the script prints.

## Main results

* `mem_checkCmdSet` — a record is a change of more than 1 of its own counter.
* `fromCheck_of_mem_main` — every record of `main` comes from a counter of the script.
-/

namespace LinuxNote.MutationCheck

open AwkNumber ShellText

/-! ### Tools and settings -/

/-- What the script leaves to the tools of the machine: regular expressions and the
order of the locale.  Only a plain pattern is taken literally; of one with special
characters, or one that is taken for options, nothing is known. -/
structure Tools where
  /-- Whether `grep`, called with a pattern, prints a line. -/
  grep : List Char → List Char → Bool
  /-- `sort -u`. -/
  sortUnique : List (List Char) → List (List Char)
  grep_plain : ∀ p l : List Char, isPlainPattern p = true → (grep p l = true ↔ p <:+: l)

/-- A plain pattern is taken literally. -/
theorem Tools.grep_text (t : Tools) {p : List Char} (h : isPlainPattern p = true) :
    t.grep p = occursIn p := by
  funext line
  rw [Bool.eq_iff_iff, occursIn_iff]
  exact t.grep_plain p line h

/-- `CHECK_MODE`: the section that is checked, or all of them one after the other. -/
inductive CheckMode where
  | cpu | memory | dev | network | process | irq | swap | page | all

/-- `CHECK_CPU_INFO`: the counter of a processor, or all of them. -/
inductive CpuInfo where
  | usr | sys | irq | soft | guest | idle | all

/-- `CHECK_MEMORY_INFO`: a counter of the memory, or all of them. -/
inductive MemoryInfo where
  | memused | kbbuffers | kbcached | commit | all

/-- `CHECK_DEV_INFO`, for the disks. -/
inductive DevInfo where
  | tps | rd_sec | wr_sec | all

/-- `CHECK_NETWORK_INFO`, with the labels of the `case` in `check_network`. -/
inductive NetworkInfo where
  | tps | rd_sec | all

/-- `CHECK_PROCESS_INFO`. -/
inductive ProcessInfo where
  | proc | cswch | all

/-- `CHECK_SWAP_INFO`: pages that are swapped in, and out. -/
inductive SwapInfo where
  | pswpin | pswpout | all

/-- `CHECK_PAGE_INFO`. -/
inductive PageInfo where
  | pgpgin | pgpgout | fault | majflt | pgfree | all

/-- The settings at the head of the script, apart from the threshold flag.  Settings
that no `case` of the script knows, with which it prints a message and stops, are left
out. -/
structure Settings where
  checkMode : CheckMode
  checkCpuInfo : CpuInfo
  checkMemoryInfo : MemoryInfo
  checkDevInfo : DevInfo
  checkNetworkInfo : NetworkInfo
  checkProcessInfo : ProcessInfo
  checkSwapInfo : SwapInfo
  checkPageInfo : PageInfo
  checkThreshold : ℕ
  /-- `set threshold : [1,100]`. -/
  checkThreshold_mem : 1 ≤ checkThreshold ∧ checkThreshold ≤ 100

/-- The settings as they are shipped: everything is checked. -/
def Settings.shipped : Settings where
  checkMode := .all
  checkCpuInfo := .all
  checkMemoryInfo := .all
  checkDevInfo := .all
  checkNetworkInfo := .all
  checkProcessInfo := .all
  checkSwapInfo := .all
  checkPageInfo := .all
  checkThreshold := 5
  checkThreshold_mem := by decide

/-! ### The window of a section -/

/-- `BEGIN_LINE`, `END_LINE` and `CHECK_LIST`: the lines of a section that the checks
read, and the objects in them.  `END_LINE` is empty when `expr` has failed. -/
structure Window where
  beginLine : ℕ
  endLine : Option ℤ
  checkList : List (List Char)

/-- `sed -n "${BEGIN_LINE},${END_LINE}p"`; without an end it is a syntax error. -/
def windowRows (beginLine : ℕ) (endLine : Option ℤ) (file : List (List Char)) :
    List (List Char) :=
  match endLine with
  | none => []
  | some e => sedRange beginLine e file

def Window.rows (w : Window) (file : List (List Char)) : List (List Char) :=
  windowRows w.beginLine w.endLine file

section Script

variable (t : Tools) (conf : Settings) (file : List (List Char))

/-- `line_init`, which looks for a word of the header and for the averages behind it.
Without a header line, `expr + 1` prints 1; without averages, the other calls of `expr`
fail. -/
def lineInit (flag : List Char) : Window :=
  let beginLine := (firstLine (t.grep flag) file).getD 0 + 1
  let endLine := (firstLine (t.grep "Average".toList) (file.drop (beginLine - 1))).map
    fun a => (beginLine : ℤ) + a - 3
  { beginLine, endLine
    checkList := (t.sortUnique ((windowRows beginLine endLine file).map (field 2))).filter
      fun w => !w.isEmpty }

/-! ### One counter of one object -/

/-- What `check_cmd_set` is called with for a counter: the kind of the objects, the
name of the counter and its column. -/
structure Check where
  obj : List Char
  mode : List Char
  listNumber : ℕ
  deriving DecidableEq

/-- A line that `check_cmd_set` prints: a sample in which a counter has changed, with the
values before and after. -/
structure Record where
  time : List Char
  obj : List Char
  number : List Char
  mode : List Char
  oldValue : List Char
  newValue : List Char
  deriving DecidableEq

/-- `new_value-old_value`, of the two values that are printed. -/
def Record.change (r : Record) : ℚ := numValue r.newValue - numValue r.oldValue

/-- `%-ns`: blanks behind the text, up to the width.  A longer text is not cut. -/
def padRight (n : ℕ) (s : List Char) : List Char := s ++ List.replicate (n - s.length) ' '

/-- `%ns`: blanks in front of the text, up to the width. -/
def padLeft (n : ℕ) (s : List Char) : List Char := List.replicate (n - s.length) ' ' ++ s

/-- The `printf` of `check_cmd_set`.  The command is stored in a variable and run with
`eval $CMD`: without quotes the shell splits it into words and puts single blanks between
them, also inside the format, which is written with two blanks in two places. -/
def Record.text (r : Record) : List Char :=
  padRight 10 r.time ++ " ".toList ++ r.obj ++ "=".toList ++ padRight 4 r.number ++ " ".toList ++
    padLeft 6 r.mode ++ " : old_value=".toList ++ r.oldValue ++ " new_value=".toList ++
    r.newValue ++ " >>> ".toList ++ numText r.change

/-- The pattern that the rows of an object are looked for with: its name between blanks.
Without a name the two blanks come together, and `eval` leaves one of them. -/
def objectPattern (number : List Char) : List Char :=
  if number = [] then " ".toList else ' ' :: number ++ [' ']

/-- The rows that `check_cmd_set` reads for an object. -/
def objectRows (w : Window) (number : List Char) : List (List Char) :=
  (w.rows file).filter (t.grep (objectPattern number))

/-- The first `awk` pass: `sum` and `num`, over the columns of the rows. -/
def sumPass (n : ℕ) : Option (List Char) → ℚ × ℕ → List (List Char) → ℚ × ℕ
  | _, s, [] => s
  | none, s, row :: rows => sumPass n (some (field n row)) s rows
  | some old, (sum, num), row :: rows =>
    -- sqrt(diff*diff) is the absolute difference
    sumPass n (some (field n row)) (|numValue old - numValue (field n row)| + sum, num + 1) rows

/-- What the first pass prints, which the shell keeps as a text; nothing when it divides
by zero, as it does for a single row. -/
def avgText (n : ℕ) (rows : List (List Char)) : List Char :=
  let s := sumPass n none (0, 0) rows
  if s.2 = 0 then [] else numText (s.1 / s.2)

/-- `check_threshold`: the limit for a change, which the second pass gets as a text.
Only a mean over 1 counts. -/
def thresholdText (avg : List Char) : List Char :=
  let threshold := CText.decimal conf.checkThreshold
  -- a small average leaves the bare threshold
  if 1 < numValue avg then numText (numValue threshold * numValue avg) else threshold

/-- The second `awk` pass: the rows that differ from the one before by more than
`value`. -/
def comparePass (c : Check) (number : List Char) (value : ℚ) :
    Option (List Char) → List (List Char) → List Record
  | _, [] => []
  -- the first row has nothing before it to compare with
  | none, row :: rows => comparePass c number value (some (field c.listNumber row)) rows
  | some old, row :: rows =>
    let new := field c.listNumber row
    let rest := comparePass c number value (some new) rows
    if value < numValue new - numValue old ∨ value < numValue old - numValue new then
      ⟨field 1 row, c.obj, number, c.mode, old, new⟩ :: rest
    else rest

/-- `check_cmd_set`: the mean change of a counter of an object, the limit that follows
from it, and the changes over the limit. -/
def checkCmdSet (w : Window) (c : Check) (number : List Char) : List Record :=
  let rows := objectRows t file w number
  comparePass c number (numValue (thresholdText conf (avgText c.listNumber rows))) none rows

end Script

/-! ### The counters -/

def checkCpuUsr : Check := ⟨"cpu".toList, "usr".toList, 3⟩
def checkCpuSys : Check := ⟨"cpu".toList, "sys".toList, 5⟩
def checkCpuIrq : Check := ⟨"cpu".toList, "irq".toList, 8⟩
def checkCpuSoft : Check := ⟨"cpu".toList, "soft".toList, 9⟩
def checkCpuGuest : Check := ⟨"cpu".toList, "guest".toList, 10⟩
def checkCpuIdle : Check := ⟨"cpu".toList, "idle".toList, 12⟩
def checkMemoryMemused : Check := ⟨"memory".toList, "memused".toList, 4⟩
def checkMemoryKbbuffers : Check := ⟨"memory".toList, "kbbuffers".toList, 5⟩
def checkMemoryKbcached : Check := ⟨"memory".toList, "kbcached".toList, 6⟩
def checkMemoryCommit : Check := ⟨"memory".toList, "commit".toList, 8⟩
def checkDevTps : Check := ⟨"dev".toList, "dev_tps".toList, 3⟩
def checkDevRdSec : Check := ⟨"dev".toList, "dev_rd_sec".toList, 4⟩
def checkDevWrSec : Check := ⟨"dev".toList, "dev_wr_sec".toList, 5⟩
def checkNetworkRxkB : Check := ⟨"network".toList, "network_rxkB".toList, 5⟩
def checkNetworkTxkB : Check := ⟨"network".toList, "network_txkB".toList, 6⟩
def checkProcessProc : Check := ⟨"process".toList, "proc".toList, 2⟩
def checkProcessCswch : Check := ⟨"process".toList, "cswch".toList, 3⟩
def checkIrqSum : Check := ⟨"irq".toList, "intr_sum".toList, 3⟩
def checkSwapPswpin : Check := ⟨"swap".toList, "pswpin".toList, 2⟩
def checkSwapPswpout : Check := ⟨"swap".toList, "pswpout".toList, 3⟩
def checkPagePgpgin : Check := ⟨"page".toList, "pgpgin".toList, 2⟩
def checkPagePgpgout : Check := ⟨"page".toList, "pgpgout".toList, 3⟩
def checkPageFault : Check := ⟨"page".toList, "fault".toList, 4⟩
def checkPageMajflt : Check := ⟨"page".toList, "majflt".toList, 5⟩
def checkPagePgfree : Check := ⟨"page".toList, "pgfree".toList, 6⟩

/-- The `case` of `check_cpu`. -/
def cpuChecks : CpuInfo → List Check
  | .usr => [checkCpuUsr]
  | .sys => [checkCpuSys]
  | .irq => [checkCpuIrq]
  | .soft => [checkCpuSoft]
  | .guest => [checkCpuGuest]
  | .idle => [checkCpuIdle]
  | .all => [checkCpuUsr, checkCpuSys, checkCpuIrq, checkCpuSoft, checkCpuGuest, checkCpuIdle]

/-- The `case` of `check_memory`. -/
def memoryChecks : MemoryInfo → List Check
  | .memused => [checkMemoryMemused]
  | .kbbuffers => [checkMemoryKbbuffers]
  | .kbcached => [checkMemoryKbcached]
  | .commit => [checkMemoryCommit]
  | .all => [checkMemoryMemused, checkMemoryKbbuffers, checkMemoryKbcached, checkMemoryCommit]

/-- The `case` of `check_dev`. -/
def devChecks : DevInfo → List Check
  | .tps => [checkDevTps]
  | .rd_sec => [checkDevRdSec]
  | .wr_sec => [checkDevWrSec]
  | .all => [checkDevTps, checkDevRdSec, checkDevWrSec]

/-- The `case` of `check_network`. -/
def networkChecks : NetworkInfo → List Check
  | .tps => [checkNetworkRxkB]
  | .rd_sec => [checkNetworkTxkB]
  | .all => [checkNetworkRxkB, checkNetworkTxkB]

/-- The `case` of `check_process`. -/
def processChecks : ProcessInfo → List Check
  | .proc => [checkProcessProc]
  | .cswch => [checkProcessCswch]
  | .all => [checkProcessProc, checkProcessCswch]

/-- The `case` of `check_swap`. -/
def swapChecks : SwapInfo → List Check
  | .pswpin => [checkSwapPswpin]
  | .pswpout => [checkSwapPswpout]
  | .all => [checkSwapPswpin, checkSwapPswpout]

/-- The `case` of `check_page`. -/
def pageChecks : PageInfo → List Check
  | .pgpgin => [checkPagePgpgin]
  | .pgpgout => [checkPagePgpgout]
  | .fault => [checkPageFault]
  | .majflt => [checkPageMajflt]
  | .pgfree => [checkPagePgfree]
  | .all => [checkPagePgpgin, checkPagePgpgout, checkPageFault, checkPageMajflt, checkPagePgfree]

/-! ### All sections -/

section Main

variable (t : Tools) (conf : Settings) (file : List (List Char))

/-- Some counters of every object of a section: the outer loop is over the objects, and
the inner one over the counters. -/
def checkObjects (flag : List Char) (cs : List Check) : List Record :=
  let w := lineInit t file flag
  w.checkList.flatMap fun number => cs.flatMap fun c => checkCmdSet t conf file w c number

/-- Some counters of a section whose rows are samples of the whole machine. -/
def checkMachine (flag : List Char) (cs : List Check) : List Record :=
  cs.flatMap fun c => checkCmdSet t conf file (lineInit t file flag) c []

def checkCpus : List Record := checkObjects t conf file "usr".toList (cpuChecks conf.checkCpuInfo)
def checkDevs : List Record :=
  checkObjects t conf file "rd_sec".toList (devChecks conf.checkDevInfo)
def checkMemory : List Record :=
  checkMachine t conf file "kbmemfree".toList (memoryChecks conf.checkMemoryInfo)
def checkNetworks : List Record :=
  checkObjects t conf file "rxpck".toList (networkChecks conf.checkNetworkInfo)
def checkProcess : List Record :=
  checkMachine t conf file "proc".toList (processChecks conf.checkProcessInfo)
def checkIrq : List Record := checkMachine t conf file "INTR".toList [checkIrqSum]
def checkSwap : List Record :=
  checkMachine t conf file "pswpin".toList (swapChecks conf.checkSwapInfo)
def checkPage : List Record :=
  checkMachine t conf file "pgpgin".toList (pageChecks conf.checkPageInfo)

/-- The `main` function: the sections in the order of the script, as far as the mode asks
for them. -/
def main : List Record :=
  match conf.checkMode with
  | .cpu => checkCpus t conf file
  | .dev => checkDevs t conf file
  | .memory => checkMemory t conf file
  | .network => checkNetworks t conf file
  | .process => checkProcess t conf file
  | .irq => checkIrq t conf file
  | .swap => checkSwap t conf file
  | .page => checkPage t conf file
  | .all =>
    checkCpus t conf file ++ checkDevs t conf file ++ checkMemory t conf file ++
      checkNetworks t conf file ++ checkProcess t conf file ++ checkIrq t conf file ++
      checkSwap t conf file ++ checkPage t conf file

end Main

/-! ### What a record says -/

/-- Every counter of the script, whether it is asked for or not.  What holds of each of
them holds for all settings. -/
def allChecks : List Check :=
  cpuChecks .all ++ memoryChecks .all ++ devChecks .all ++ networkChecks .all ++
    processChecks .all ++ [checkIrqSum] ++ swapChecks .all ++ pageChecks .all

section Records

variable {t : Tools} {conf : Settings} {file : List (List Char)}

/-- The threshold that the second pass compares with is at least 1. -/
theorem one_le_threshold (conf : Settings) (avg : List Char) :
    1 ≤ numValue (thresholdText conf avg) := by
  have hthreshold : 1 ≤ numValue (CText.decimal conf.checkThreshold) :=
    one_le_numValue (leadsPositive_decimal conf.checkThreshold_mem.1) (minus_notMem_decimal _)
  unfold thresholdText
  split
  · next havg =>
    apply one_le_numValue_numText
    exact one_le_mul_of_one_le_of_one_le hthreshold havg.le
  · exact hthreshold

/-- A record of the second pass is a change by more than the threshold. -/
theorem mem_comparePass {c : Check} {number : List Char} {value : ℚ} {old : Option (List Char)}
    {rows : List (List Char)} {r : Record} (h : r ∈ comparePass c number value old rows) :
    r.obj = c.obj ∧ r.mode = c.mode ∧ (value < r.change ∨ value < -r.change) := by
  induction rows generalizing old with
  | nil =>
    unfold comparePass at h
    exact absurd h List.not_mem_nil
  | cons row rows ih =>
    cases old with
    | none => exact ih h
    | some old =>
      rw [comparePass] at h
      split at h
      · next hjump =>
        rw [List.mem_cons] at h
        rcases h with rfl | h
        · refine ⟨rfl, rfl, ?_⟩
          rwa [Record.change, neg_sub]
        · exact ih h
      · exact ih h

/-- **A record is a change of its own counter** by more than 1, as the limit is never
smaller than the bare threshold. -/
theorem mem_checkCmdSet {w : Window} {c : Check} {number : List Char} {r : Record}
    (h : r ∈ checkCmdSet t conf file w c number) :
    r.obj = c.obj ∧ r.mode = c.mode ∧ (1 < r.change ∨ 1 < -r.change) := by
  obtain ⟨hobj, hmode, hjump⟩ := mem_comparePass h
  refine ⟨hobj, hmode, ?_⟩
  have hone := one_le_threshold conf (avgText c.listNumber (objectRows t file w number))
  exact hjump.imp (lt_of_le_of_lt hone) (lt_of_le_of_lt hone)

/-- A record comes from one of the counters of the script. -/
def FromCheck (t : Tools) (conf : Settings) (file : List (List Char)) (r : Record) : Prop :=
  ∃ c ∈ allChecks, ∃ w number, r ∈ checkCmdSet t conf file w c number

theorem fromCheck_of_mem_checkObjects {flag : List Char} {cs : List Check}
    (hcs : ∀ c ∈ cs, c ∈ allChecks) {r : Record} (h : r ∈ checkObjects t conf file flag cs) :
    FromCheck t conf file r := by
  obtain ⟨number, -, hr⟩ := List.mem_flatMap.mp h
  obtain ⟨c, hc, hr⟩ := List.mem_flatMap.mp hr
  exact ⟨c, hcs c hc, _, number, hr⟩

theorem fromCheck_of_mem_checkMachine {flag : List Char} {cs : List Check}
    (hcs : ∀ c ∈ cs, c ∈ allChecks) {r : Record} (h : r ∈ checkMachine t conf file flag cs) :
    FromCheck t conf file r := by
  obtain ⟨c, hc, hr⟩ := List.mem_flatMap.mp h
  exact ⟨c, hcs c hc, _, [], hr⟩

/-- **Every record of `main` comes from one of the counters of the script**, whatever the
settings are and whatever is in the file. -/
theorem fromCheck_of_mem_main {r : Record} (h : r ∈ main t conf file) :
    FromCheck t conf file r := by
  -- each section, for whatever counters are asked for
  have hcpus : r ∈ checkCpus t conf file → FromCheck t conf file r :=
    fromCheck_of_mem_checkObjects (by cases conf.checkCpuInfo <;> decide)
  have hdevs : r ∈ checkDevs t conf file → FromCheck t conf file r :=
    fromCheck_of_mem_checkObjects (by cases conf.checkDevInfo <;> decide)
  have hmemory : r ∈ checkMemory t conf file → FromCheck t conf file r :=
    fromCheck_of_mem_checkMachine (by cases conf.checkMemoryInfo <;> decide)
  have hnetworks : r ∈ checkNetworks t conf file → FromCheck t conf file r :=
    fromCheck_of_mem_checkObjects (by cases conf.checkNetworkInfo <;> decide)
  have hprocess : r ∈ checkProcess t conf file → FromCheck t conf file r :=
    fromCheck_of_mem_checkMachine (by cases conf.checkProcessInfo <;> decide)
  have hirq : r ∈ checkIrq t conf file → FromCheck t conf file r :=
    fromCheck_of_mem_checkMachine (by decide)
  have hswap : r ∈ checkSwap t conf file → FromCheck t conf file r :=
    fromCheck_of_mem_checkMachine (by cases conf.checkSwapInfo <;> decide)
  have hpage : r ∈ checkPage t conf file → FromCheck t conf file r :=
    fromCheck_of_mem_checkMachine (by cases conf.checkPageInfo <;> decide)
  unfold main at h
  cases hmode : conf.checkMode with
  | cpu => rw [hmode] at h; exact hcpus h
  | dev => rw [hmode] at h; exact hdevs h
  | memory => rw [hmode] at h; exact hmemory h
  | network => rw [hmode] at h; exact hnetworks h
  | process => rw [hmode] at h; exact hprocess h
  | irq => rw [hmode] at h; exact hirq h
  | swap => rw [hmode] at h; exact hswap h
  | page => rw [hmode] at h; exact hpage h
  | all =>
    rw [hmode] at h
    simp only [List.mem_append] at h
    rcases h with ((((((h | h) | h) | h) | h) | h) | h) | h
    · exact hcpus h
    · exact hdevs h
    · exact hmemory h
    · exact hnetworks h
    · exact hprocess h
    · exact hirq h
    · exact hswap h
    · exact hpage h

end Records

end LinuxNote.MutationCheck
