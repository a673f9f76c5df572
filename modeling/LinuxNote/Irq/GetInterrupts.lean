import LinuxNote.Base.AwkCompare
import LinuxNote.Base.Loop
import LinuxNote.Base.ShellText
import Mathlib.Data.List.GetD
import Mathlib.Data.List.Sort

/-!
# The interrupts of a device

`get_interrupts.sh` reads a log of `/proc/interrupts` and prints for each processor by how much
the number of interrupts of a device has grown between the first snapshot and the last one.
There are two copies of the script, under `CPU/irq` and under `network/tool`.  They differ in
the bounds of their loops: only the second one hands the number of cores to `awk`.

Numbers are exact here.

## Main definitions

* `readLine`, `atEnd` — what the program does with a line, and at the end.
* `Log` — a log in which one line of each snapshot ends in the name of the device.
* `InterruptsRight` — both copies print the processors that had interrupts.
* `BoundsHarmless` — the logs for which this is so.

## Main results

* `pairs_atEnd` — what is printed, for any bounds.
* `network_right` — the copy with the number of cores is right.
* `interruptsRight_iff` — **both copies are right exactly when** the bounds do no harm.
-/

namespace LinuxNote.GetInterrupts

open AwkNumber ShellText Loop

/-! ### The program -/

/-- A line that is printed.  The second copy prints the two readings as well. -/
structure Printed where
  interruptNo : ℚ
  cpu : ℕ
  interrupts : ℚ
  device : List Char
  readings : Option (ℚ × ℚ)

/-- The variables, with `NR` and the line that was read last. -/
structure Vars where
  nr : ℕ
  record : List Char
  interruptNo : ℚ
  start : ℕ → ℚ
  dev : List Char

/-- `BEGIN`. -/
def Vars.begin : Vars := ⟨0, [], 0, fun _ => 0, []⟩

/-- The reading of a processor. -/
def reading (line : List Char) (i : ℕ) : ℚ := numValue (field (i + 2) line)

/-- What the program does with a line; `bound` is that of the loop over `start`. -/
def readLine (bound : ℕ) (v : Vars) (line : List Char) : Vars :=
  let v := { v with nr := v.nr + 1, record := line }
  -- `NR==1`
  if v.nr = 1 then
    { v with
      start := forEach (fun start i => Function.update start i (reading line i)) bound v.start
      interruptNo := numValue (field 1 line)
      dev := (words line).getLastD [] }
  else v

/-- What is printed at `END`: the processors whose reading is above that at the start;
`bound` is that of the loop over `end`. -/
def atEnd (bound : ℕ) (readings : ℚ → ℚ → Option (ℚ × ℚ)) (v : Vars) : List Printed :=
  ((List.range bound).filter fun i => 0 < reading v.record i - v.start i).map fun i =>
    { interruptNo := v.interruptNo
      cpu := i
      interrupts := reading v.record i - v.start i
      device := v.dev
      readings := readings (v.start i) (reading v.record i) }

/-- `grep`.  A name with special characters is not taken literally, and one that starts
with a `-` is taken for options. -/
structure Grep where
  /-- Whether `grep`, called with a pattern, prints a line. -/
  find : List Char → List Char → Bool
  find_end : ∀ name line : List Char, (name.all isLiteral && name.head? != some '-') = true →
    (find (name ++ ['$']) line = true ↔ name <:+ line)

section Program

variable (grep : Grep) (name : List Char)

/-- The lines that end in the name of the device. -/
def Grep.ends : List Char → Bool := grep.find (name ++ ['$'])

variable {name} in
/-- Another name is taken literally. -/
theorem Grep.ends_iff (h : (name.all isLiteral && name.head? != some '-') = true)
    (line : List Char) : grep.ends name line = true ↔ name <:+ line := grep.find_end name line h

/-- `do_get_interrupt` of `CPU/irq`.  The program does not get the number of cores: at
the start it reads 12 of them, and at `END` it goes up to `NR`, the number of lines. -/
def doGetInterruptIrq (file : List (List Char)) : List Printed :=
  let v := (file.filter (grep.ends name)).foldl (readLine 12) Vars.begin
  -- at `END`, `NR` is the number of lines
  atEnd v.nr (fun _ _ => none) v

/-- `do_get_interrupt` of `network/tool`, which does the same for the number of cores
that it is called with. -/
def doGetInterruptNetwork (cores : ℕ) (file : List (List Char)) : List Printed :=
  atEnd cores (fun start last => some (start, last))
    ((file.filter (grep.ends name)).foldl (readLine cores) Vars.begin)

end Program

/-! ### Logs -/

/-- The line of a device. -/
structure Row where
  line : List Char
  irq : List Char
  readings : List ℕ
  rest : List (List Char)
  words_line : words line = irq :: (readings.map CText.decimal ++ rest)

/-- A snapshot, in which one line ends in the name of the device; the other lines of
`/proc/interrupts` stand around it. -/
structure Snapshot (ends : List Char → Bool) where
  before : List (List Char)
  row : Row
  after : List (List Char)
  before_ends : ∀ line ∈ before, ends line = false
  row_ends : ends row.line = true
  after_ends : ∀ line ∈ after, ends line = false

variable {ends : List Char → Bool}

def Snapshot.lines (s : Snapshot ends) : List (List Char) := s.before ++ s.row.line :: s.after

/-- A log of one or more snapshots. -/
structure Log (ends : List Char → Bool) where
  first : Snapshot ends
  later : List (Snapshot ends)

def Log.snapshots (log : Log ends) : List (Snapshot ends) := log.first :: log.later

def Log.lines (log : Log ends) : List (List Char) := log.snapshots.flatMap Snapshot.lines

/-- The last snapshot. -/
def Log.last (log : Log ends) : Snapshot ends := log.later.getLastD log.first

/-- The lines have columns for the cores. -/
def Log.HasCores (log : Log ends) (cores : ℕ) : Prop :=
  ∀ s ∈ log.snapshots, cores ≤ s.row.readings.length

/-! ### Right interrupts -/

/-- The processors below `n` where `d` is positive, with its value. -/
def rises (n : ℕ) (d : ℕ → ℚ) : List (ℕ × ℚ) :=
  ((List.range n).filter fun i => 0 < d i).map fun i => (i, d i)

/-- The processors with their interrupts, as they should be. -/
def Log.interrupts (log : Log ends) (cores : ℕ) : List (ℕ × ℚ) :=
  rises cores fun i =>
    (log.last.row.readings.getD i 0 : ℚ) - (log.first.row.readings.getD i 0 : ℚ)

/-- The processors with their interrupts, as they are printed. -/
def pairs (printed : List Printed) : List (ℕ × ℚ) := printed.map fun p => (p.cpu, p.interrupts)

section Right

variable {grep : Grep} {name : List Char} (log : Log (grep.ends name)) (cores : ℕ)

/-- Both copies print the processors that had interrupts, and so print the same, though
only one of them is told how many there are. -/
structure InterruptsRight : Prop where
  irq : pairs (doGetInterruptIrq grep name log.lines) = log.interrupts cores
  network : pairs (doGetInterruptNetwork grep name cores log.lines) = log.interrupts cores
  same : pairs (doGetInterruptIrq grep name log.lines) =
    pairs (doGetInterruptNetwork grep name cores log.lines)

/-- The bounds of the first copy do no harm: the number of snapshots at `END`, and 12 at
the start.  Each field is one way in which a bound and the number of cores can differ. -/
structure BoundsHarmless : Prop where
  /-- No core from the number of snapshots on had interrupts. -/
  unseen : ∀ i < cores, log.snapshots.length ≤ i →
    log.last.row.readings.getD i 0 ≤ log.first.row.readings.getD i 0
  /-- From the twelfth core on it does not matter that the start is taken as 0. -/
  start : ∀ i < cores, i < log.snapshots.length → 12 ≤ i →
    log.first.row.readings.getD i 0 = 0 ∨ log.last.row.readings.getD i 0 = 0
  /-- What stands behind the columns of the cores does not grow. -/
  beyond : ∀ i < log.snapshots.length, cores ≤ i →
    reading log.last.row.line i ≤ if i < 12 then reading log.first.row.line i else 0

end Right

/-! ### What is printed -/

/-- A field with a reading. -/
theorem Row.reading_line (row : Row) {i : ℕ} (hi : i < row.readings.length) :
    reading row.line i = (row.readings.getD i 0 : ℚ) := by
  have hdecimal : i < (row.readings.map CText.decimal).length := by rwa [List.length_map]
  have hfield : field (i + 2) row.line = CText.decimal row.readings[i] := by
    rw [field, row.words_line]
    change (row.readings.map CText.decimal ++ row.rest).getD i [] = _
    rw [List.getD_append _ _ _ _ hdecimal, List.getD_eq_getElem _ _ hdecimal, List.getElem_map]
  rw [reading, hfield, numValue_decimal, List.getD_eq_getElem _ _ hi]

theorem Snapshot.filter_lines (s : Snapshot ends) : s.lines.filter ends = [s.row.line] := by
  have hbefore : s.before.filter ends = [] :=
    List.filter_eq_nil_iff.mpr fun line h => by rw [s.before_ends line h]; exact Bool.false_ne_true
  have hafter : s.after.filter ends = [] :=
    List.filter_eq_nil_iff.mpr fun line h => by rw [s.after_ends line h]; exact Bool.false_ne_true
  rw [Snapshot.lines, List.filter_append, hbefore, List.nil_append,
    List.filter_cons_of_pos s.row_ends, hafter]

/-- `grep` finds the lines of the device. -/
theorem Log.filter_lines (log : Log ends) :
    log.lines.filter ends = log.snapshots.map fun s => s.row.line := by
  rw [Log.lines, List.filter_flatMap]
  induction log.snapshots with
  | nil => rfl
  | cons s rest ih => rw [List.flatMap_cons, ih, s.filter_lines]; rfl

/-- The start readings of the loop. -/
theorem forEach_start (line : List Char) (start : ℕ → ℚ) (n i : ℕ) :
    forEach (fun start i => Function.update start i (reading line i)) n start i =
      if i < n then reading line i else start i := by
  induction n with
  | zero => rfl
  | succ n ih =>
    rw [forEach_succ, Function.update_apply, ih]
    grind

/-- The first line sets everything. -/
theorem readLine_begin (bound : ℕ) (line : List Char) :
    readLine bound Vars.begin line =
      { nr := 1
        record := line
        interruptNo := numValue (field 1 line)
        start := fun i => if i < bound then reading line i else 0
        dev := (words line).getLastD [] } := by
  have hstart : forEach (fun start i => Function.update start i (reading line i)) bound
      Vars.begin.start = fun i => if i < bound then reading line i else 0 := by
    funext i
    exact forEach_start line _ bound i
  unfold readLine
  rw [← hstart]
  rfl

/-- The later lines are only counted and kept. -/
theorem foldl_readLine (bound : ℕ) {v : Vars} (hv : 0 < v.nr) (lines : List (List Char)) :
    lines.foldl (readLine bound) v =
      { v with nr := v.nr + lines.length, record := lines.getLastD v.record } := by
  induction lines generalizing v with
  | nil => rfl
  | cons line lines ih =>
    have hstep : readLine bound v line = { v with nr := v.nr + 1, record := line } :=
      if_neg (by change v.nr + 1 ≠ 1; omega)
    rw [List.foldl_cons, hstep, ih (Nat.succ_pos _), List.length_cons, List.getLastD_cons]
    simp only [Vars.mk.injEq, and_self, and_true]
    omega

/-- **The variables at the end** of a log: what the first of its lines has set, and the
last one as the record. -/
theorem foldl_log (log : Log ends) (bound : ℕ) :
    (log.lines.filter ends).foldl (readLine bound) Vars.begin =
      { nr := log.snapshots.length
        record := log.last.row.line
        interruptNo := numValue (field 1 log.first.row.line)
        start := fun i => if i < bound then reading log.first.row.line i else 0
        dev := (words log.first.row.line).getLastD [] } := by
  have hlast : (log.later.map fun s => s.row.line).getLastD log.first.row.line =
      log.last.row.line := by
    rw [Log.last, List.getLastD_map]
  rw [log.filter_lines, Log.snapshots, List.map_cons, List.foldl_cons, readLine_begin,
    foldl_readLine bound Nat.one_pos, List.length_map, hlast, List.length_cons, Nat.add_comm]

theorem pairs_atEnd (bound : ℕ) (readings : ℚ → ℚ → Option (ℚ × ℚ)) (v : Vars) :
    pairs (atEnd bound readings v) = rises bound fun i => reading v.record i - v.start i := by
  rw [pairs, atEnd, List.map_map]
  rfl

/-! ### Rising readings -/

theorem mem_rises {n : ℕ} {d : ℕ → ℚ} {i : ℕ} {x : ℚ} :
    (i, x) ∈ rises n d ↔ i < n ∧ 0 < d i ∧ d i = x := by
  rw [rises, List.mem_map]
  constructor
  · rintro ⟨j, hj, heq⟩
    obtain ⟨rfl, rfl⟩ := Prod.mk.inj heq
    obtain ⟨hlt, hpos⟩ := List.mem_filter.mp hj
    exact ⟨List.mem_range.mp hlt, of_decide_eq_true hpos, rfl⟩
  · rintro ⟨hlt, hpos, rfl⟩
    exact ⟨i, List.mem_filter.mpr ⟨List.mem_range.mpr hlt, decide_eq_true hpos⟩, rfl⟩

theorem pairwise_rises (n : ℕ) (d : ℕ → ℚ) :
    (rises n d).Pairwise fun a b => a.1 < b.1 := by
  rw [rises, List.pairwise_map]
  exact (List.pairwise_lt_range).filter _

/-- Two lists are the same when they have the same positive values. -/
theorem rises_eq_iff {m n : ℕ} {d e : ℕ → ℚ} :
    rises m d = rises n e ↔
      ∀ i x, (i < m ∧ 0 < d i ∧ d i = x) ↔ (i < n ∧ 0 < e i ∧ e i = x) := by
  constructor
  · intro h i x
    rw [← mem_rises, ← mem_rises, h]
  · intro h
    -- both lists are in the order of the processors
    have : Std.Irrefl fun a b : ℕ × ℚ => a.1 < b.1 := ⟨fun a => Nat.lt_irrefl a.1⟩
    apply (pairwise_rises m d).eq_of_mem_iff (pairwise_rises n e)
    rintro ⟨i, x⟩
    rw [mem_rises, mem_rises, h i x]

theorem rises_congr {n : ℕ} {d e : ℕ → ℚ} (h : ∀ i < n, d i = e i) : rises n d = rises n e := by
  rw [rises_eq_iff]
  intro i x
  constructor
  · rintro ⟨hi, hx⟩
    rw [h i hi] at hx
    exact ⟨hi, hx⟩
  · rintro ⟨hi, hx⟩
    rw [← h i hi] at hx
    exact ⟨hi, hx⟩

/-! ### The two copies -/

section Copies

variable {grep : Grep} {name : List Char} {log : Log (grep.ends name)} {cores : ℕ}

theorem pairs_network :
    pairs (doGetInterruptNetwork grep name cores log.lines) = rises cores fun i =>
      reading log.last.row.line i - if i < cores then reading log.first.row.line i else 0 := by
  rw [doGetInterruptNetwork, pairs_atEnd, foldl_log]

theorem pairs_irq :
    pairs (doGetInterruptIrq grep name log.lines) = rises log.snapshots.length fun i =>
      reading log.last.row.line i - if i < 12 then reading log.first.row.line i else 0 := by
  rw [doGetInterruptIrq]
  simp only [foldl_log]
  rw [pairs_atEnd]

theorem Log.last_mem : log.last ∈ log.snapshots := List.getLastD_mem_cons

/-- The readings of the cores. -/
theorem Log.HasCores.reading (h : log.HasCores cores) {i : ℕ} (hi : i < cores) :
    GetInterrupts.reading log.first.row.line i = (log.first.row.readings.getD i 0 : ℚ) ∧
      GetInterrupts.reading log.last.row.line i = (log.last.row.readings.getD i 0 : ℚ) :=
  ⟨log.first.row.reading_line (hi.trans_le (h _ List.mem_cons_self)),
    log.last.row.reading_line (hi.trans_le (h _ log.last_mem))⟩

/-- The copy with the number of cores is right. -/
theorem network_right (h : log.HasCores cores) :
    pairs (doGetInterruptNetwork grep name cores log.lines) = log.interrupts cores := by
  rw [pairs_network, Log.interrupts]
  apply rises_congr
  intro i hi
  obtain ⟨hfirst, hlast⟩ := h.reading hi
  rw [if_pos hi, hfirst, hlast]

/-- If the copy without it is right, its bounds do no harm. -/
theorem boundsHarmless_of_irq (h : log.HasCores cores)
    (hirq : pairs (doGetInterruptIrq grep name log.lines) = log.interrupts cores) :
    BoundsHarmless log cores := by
  rw [pairs_irq, Log.interrupts, rises_eq_iff] at hirq
  refine ⟨fun i hi hge => ?_, fun i hi hlt hge => ?_, fun i hi hge => ?_⟩
  · by_contra hrise
    have hpos : (0 : ℚ) < log.last.row.readings.getD i 0 - log.first.row.readings.getD i 0 :=
      sub_pos.mpr (Nat.cast_lt.mpr (Nat.lt_of_not_le hrise))
    exact absurd ((hirq i _).mpr ⟨hi, hpos, rfl⟩).1 (Nat.not_lt.mpr hge)
  · -- the last reading is printed as it is
    obtain ⟨hfirst, hlast⟩ := h.reading hi
    have hstart := (hirq i (log.last.row.readings.getD i 0)).mp
    rw [if_neg (Nat.not_lt.mpr hge), sub_zero, hlast] at hstart
    by_contra hne
    rw [not_or] at hne
    have hpos : (0 : ℚ) < log.last.row.readings.getD i 0 :=
      Nat.cast_pos.mpr (Nat.pos_of_ne_zero hne.2)
    have hsame := (hstart ⟨hlt, hpos, rfl⟩).2.2
    exact hne.1 (Nat.cast_eq_zero.mp (sub_eq_self.mp hsame))
  · by_contra hrise
    exact absurd ((hirq i _).mp ⟨hi, sub_pos.mpr (lt_of_not_ge hrise), rfl⟩).1
      (Nat.not_lt.mpr hge)

/-- A core that both loops look at is printed as it should be if the start does no harm. -/
theorem rise_of_harmless (h : log.HasCores cores) (hbounds : BoundsHarmless log cores) {i : ℕ}
    (hi : i < cores) (hn : i < log.snapshots.length) (x : ℚ) :
    let printed := reading log.last.row.line i -
      if i < 12 then reading log.first.row.line i else 0
    let wanted : ℚ := log.last.row.readings.getD i 0 - log.first.row.readings.getD i 0
    (0 < printed ∧ printed = x) ↔ (0 < wanted ∧ wanted = x) := by
  intro printed wanted
  obtain ⟨hfirst, hlast⟩ := h.reading hi
  -- the loop for the first snapshot ends at 12, so the later cores start from 0
  rcases Nat.lt_or_ge i 12 with hstart | hstart
  · have hsame : printed = wanted := by
      change _ - (if i < 12 then _ else _) = _
      rw [if_pos hstart, hfirst, hlast]
    rw [hsame]
  · have hprinted : printed = log.last.row.readings.getD i 0 := by
      change _ - (if i < 12 then _ else _) = _
      rw [if_neg (Nat.not_lt.mpr hstart), hlast, sub_zero]
    rcases hbounds.start i hi hn hstart with hzero | hzero
    · have hsame : printed = wanted := by
        rw [hprinted]
        change _ = (_ : ℚ) - _
        rw [hzero, Nat.cast_zero, sub_zero]
      rw [hsame]
    -- a core that ends at 0 has not risen in either way
    · have hnot : ¬ 0 < printed := by
        rw [hprinted, hzero]
        exact lt_irrefl _
      have hnot' : ¬ 0 < wanted := by
        change ¬ (0 : ℚ) < _ - _
        rw [hzero, Nat.cast_zero, zero_sub, not_lt]
        exact neg_nonpos.mpr (Nat.cast_nonneg _)
      exact iff_of_false (fun hx => hnot hx.1) fun hx => hnot' hx.1

/-- If the bounds do no harm, the copy without the number of cores is right. -/
theorem irq_right_of_harmless (h : log.HasCores cores) (hbounds : BoundsHarmless log cores) :
    pairs (doGetInterruptIrq grep name log.lines) = log.interrupts cores := by
  rw [pairs_irq, Log.interrupts, rises_eq_iff]
  intro i x
  rcases Nat.lt_or_ge i cores with hi | hi
  · rcases Nat.lt_or_ge i log.snapshots.length with hn | hn
    · exact and_congr (iff_of_true hn hi) (rise_of_harmless h hbounds hi hn x)
    · have hle := sub_nonpos.mpr (Nat.cast_le (α := ℚ).mpr (hbounds.unseen i hi hn))
      exact iff_of_false (fun hx => Nat.not_lt.mpr hn hx.1) fun hx => not_lt.mpr hle hx.2.1
  · have hbeyond : i < log.snapshots.length → reading log.last.row.line i -
        (if i < 12 then reading log.first.row.line i else 0) ≤ 0 :=
      fun hn => sub_nonpos.mpr (hbounds.beyond i hn hi)
    exact iff_of_false (fun hx => not_lt.mpr (hbeyond hx.1) hx.2.1) fun hx => Nat.not_lt.mpr hi hx.1

/-- **Both copies are right exactly when** the bounds of the first one do no harm; the
second one is right in any case, as its bounds are the number of cores. -/
theorem interruptsRight_iff (h : log.HasCores cores) :
    InterruptsRight log cores ↔ BoundsHarmless log cores := by
  constructor
  · exact fun hright => boundsHarmless_of_irq h hright.irq
  · intro hbounds
    have hirq := irq_right_of_harmless h hbounds
    exact ⟨hirq, network_right h, hirq.trans (network_right h).symm⟩

end Copies

/-! ### Two snapshots of four cores -/

/-- A `grep` that takes all patterns literally. -/
def plainGrep : Grep where
  find pattern line := decide (pattern.dropLast <:+ line)
  find_end := by
    intro name line _
    rw [List.dropLast_concat, decide_eq_true_iff]

def quietRow : Row where
  line := " 45: 7 0 0 0 PCI-MSI eth0".toList
  irq := "45:".toList
  readings := [7, 0, 0, 0]
  rest := ["PCI-MSI".toList, "eth0".toList]
  words_line := by decide +kernel

def busyRow : Row where
  line := " 45: 7 0 0 5 PCI-MSI eth0".toList
  irq := "45:".toList
  readings := [7, 0, 0, 5]
  rest := ["PCI-MSI".toList, "eth0".toList]
  words_line := by decide +kernel

theorem ends_eth0 (line : List Char) :
    plainGrep.ends "eth0".toList line = true ↔ "eth0".toList <:+ line :=
  plainGrep.ends_iff (by decide) line

/-- The last of four cores has had interrupts. -/
def fourCoreLog : Log (plainGrep.ends "eth0".toList) where
  first := ⟨[], quietRow, [], nofun, (ends_eth0 _).mpr (by decide), nofun⟩
  later := [⟨[], busyRow, [], nofun, (ends_eth0 _).mpr (by decide), nofun⟩]

theorem fourCoreLog_hasCores : fourCoreLog.HasCores 4 := by
  intro s hs
  rcases List.mem_cons.mp hs with rfl | hs
  · decide
  · obtain rfl := List.mem_singleton.mp hs
    decide

/-- **Two snapshots** show two cores only. -/
theorem not_interruptsRight_fourCores :
    fourCoreLog.HasCores 4 ∧ ¬ InterruptsRight fourCoreLog 4 := by
  refine ⟨fourCoreLog_hasCores, fun h => ?_⟩
  have hbounds := boundsHarmless_of_irq fourCoreLog_hasCores h.irq
  exact absurd (hbounds.unseen 3 (by decide) (by decide)) (by decide)

/-- Two snapshots are enough for two cores. -/
theorem interruptsRight_twoCores : InterruptsRight fourCoreLog 2 := by
  have hcores : fourCoreLog.HasCores 2 :=
    fun s hs => Nat.le_trans (by decide) (fourCoreLog_hasCores s hs)
  have hlength : fourCoreLog.snapshots.length = 2 := rfl
  exact (interruptsRight_iff hcores).mpr
    { unseen := fun i hi hge => absurd hge (by omega)
      start := fun i hi _ hge => absurd hge (by omega)
      beyond := fun i hi hge => absurd hge (by omega) }

end LinuxNote.GetInterrupts
