import LinuxNote.Sysstat.ThresholdReport

/-!
# Busy disks

`disk` lists the disks with `sort -nu`, for which all names that do not start with a
number are equal, and takes the rows whose `%util` is above the threshold and not above
100.  It writes them to a file with the name of the disk in its own, which cannot be created
for a name with a slash.

## Main definitions

* `DiskReport` — a report of `sar -d`.
* `DiskRight` — there is one result for a disk, with the rows over the threshold.
* `DiskCondition` — what a report must be like.

## Main results

* `listed_iff` — when all disks are listed.
* `pickedDisk_iff` — when the rows of a disk are picked.
* `disksRight_iff` — **all results are right exactly when** the report meets the condition.
-/

namespace LinuxNote.ThresholdCheck

open AwkNumber ShellText Sar

/-! ### Reports of `sar -d` -/

def diskColumns : List (List Char) :=
  ["DEV", "tps", "rd_sec/s", "wr_sec/s", "avgrq-sz", "avgqu-sz", "await", "svctm", "%util"].map
    String.toList

/-- A report of `sar -d`. -/
abbrev DiskReport := Report diskColumns 8

/-- `%util`. -/
def util (row : Row 8) : ℚ := row.value 7

/-- The names in the first sample. -/
def DiskReport.firstNames (r : DiskReport) : List (List Char) :=
  match r.samples with
  | [] => []
  | s :: _ => s.rows.map Row.name

section DiskRight

variable (time : List Char) (r : DiskReport) (threshold : Threshold)

/-- A row of a disk with a use over the threshold. -/
def isUsed (disk : List Char) (row : Row 8) : Bool :=
  row.name == disk && decide (numValue threshold.text < util row)

/-- There is exactly one result for a disk; it has the number of its rows with a use over the
threshold, and the log has these rows behind the header. -/
def DiskRight (disk : List Char) : Prop :=
  (diskMode time r.lines threshold).filter (fun x => x.device == disk) =
    [Result.ofRows disk (diskLogName time threshold disk) r.headerLine
      ((r.rows.filter (isUsed threshold disk)).map Row.line)]

/-- The results are right for all disks of the report, so that none is left out and none is
announced twice. -/
def DisksRight : Prop := ∀ disk ∈ r.names, DiskRight time r threshold disk

/-- A report that the script can deal with.  The list is sorted by the numbers in front of the
names, which most names do not have, and only one name is kept for each number. -/
structure DiskCondition : Prop where
  /-- No disk is taken for an average. -/
  noAverage : ∀ disk ∈ r.names, occursIn "Average".toList disk = false
  /-- No two disks have the same number in front of their names. -/
  distinct : ∀ disk ∈ r.names, ∀ disk' ∈ r.names, sortNumber disk = sortNumber disk' → disk = disk'
  /-- A disk without such a number has a row before the second blank line. -/
  first : ∀ disk ∈ r.names, sortNumber disk = 0 → disk ∈ r.firstNames
  /-- No disk is used by more than 100 percent. -/
  small : ∀ row ∈ r.rows, numValue threshold.text < util row → util row ≤ 100
  /-- A disk with a slash in its name has no rows to log. -/
  noSlash : ∀ row ∈ r.rows, numValue threshold.text < util row → '/' ∉ row.name
  /-- No two disks are the same number for `awk`, unless there is nothing to count. -/
  apart : ∀ row ∈ r.rows, numValue threshold.text < util row → util row ≤ 100 →
    ∀ disk ∈ r.names, awkEq row.name disk = true → row.name = disk
  /-- With a threshold below 0, lines without columns are counted: no disk is called like
  the host in the banner or, as blank lines are, by a number that is 0. -/
  nonneg : numValue threshold.text < 0 → ∀ disk ∈ r.names,
    disk ≠ '(' :: r.banner.host ∧ awkEq [] disk = false

end DiskRight

/-! ### The list of disks -/

theorem field_nil_or_infix (k : ℕ) (line : List Char) :
    field k line = [] ∨ field k line <:+: line := by
  rw [field]
  by_cases hk : k - 1 < (words line).length
  · right
    rw [List.getD_eq_getElem _ _ hk]
    obtain ⟨hne, hblank⟩ := mem_words (List.getElem_mem hk)
    rw [infix_iff_exists_word hne hblank]
    exact ⟨_, List.getElem_mem hk, List.infix_rfl⟩
  · left
    exact List.getD_eq_default _ _ (by omega)

section Listed

variable {r : DiskReport}

theorem names_cons {s : Sample diskColumns 8} {ss : List (Sample diskColumns 8)}
    (h : r.samples = s :: ss) (disk : List Char) :
    disk ∈ r.names ↔ disk ∈ s.rows.map Row.name ∨ ∃ x ∈ ss, disk ∈ x.rows.map Row.name := by
  simp only [Report.names, Report.rows, h, List.flatMap_cons, List.map_append, List.mem_append,
    List.map_flatMap, List.mem_flatMap]

/-- A listed disk has not been taken for an average. -/
theorem occursIn_average_of_listed {disk : List Char} (h : disk ∈ diskLists r.lines) :
    occursIn "Average".toList disk = false := by
  obtain ⟨hsort, hne⟩ := List.mem_filter.mp h
  have hmem := List.mem_of_find?_eq_some (mem_sortNumericUnique.mp hsort)
  obtain ⟨line, hline, rfl⟩ := List.mem_map.mp hmem
  have hkept := (List.mem_filter.mp (List.mem_of_mem_drop hline)).2
  rw [← Bool.not_eq_true, occursIn_iff]
  intro hin
  rcases field_nil_or_infix 3 line with hnil | hinfix
  · rw [hnil] at hne
    exact absurd hne (by decide)
  · rw [occursIn_iff.mpr (hin.trans hinfix)] at hkept
    exact absurd hkept (by decide)

/-- The third words of all samples but the first, with a blank line and a header in front
of each. -/
def laterNames (ss : List (Sample diskColumns 8)) : List (List Char) :=
  ss.flatMap fun x => [] :: "DEV".toList :: x.rows.map Row.name

theorem sortNumber_nil : sortNumber [] = 0 := by decide +kernel

theorem mem_laterNames {ss : List (Sample diskColumns 8)} {w : List Char}
    (h : w ∈ laterNames ss) : sortNumber w = 0 ∨ ∃ x ∈ ss, w ∈ x.rows.map Row.name := by
  obtain ⟨x, hx, hw⟩ := List.mem_flatMap.mp h
  rcases List.mem_cons.mp hw with rfl | hw
  · exact Or.inl sortNumber_nil
  rcases List.mem_cons.mp hw with rfl | hw
  · exact Or.inl (by decide +kernel)
  · exact Or.inr ⟨x, hx, hw⟩

/-- **What the list is taken from**: the names of the first sample, the words of the others, and
blank lines; of those with the same number in front the first one is listed. -/
theorem mem_diskLists_iff {s : Sample diskColumns 8} {ss : List (Sample diskColumns 8)}
    (h : r.samples = s :: ss)
    (haverage : ∀ disk ∈ r.names, occursIn "Average".toList disk = false) :
    ∃ k, ∀ disk ∈ r.names, disk ∈ diskLists r.lines ↔
      (s.rows.map Row.name ++ (laterNames ss ++ List.replicate k [])).find?
        (fun w => decide (sortNumber w = sortNumber disk)) = some disk := by
  have hheader : ∀ h : Header diskColumns, (!occursIn "Average".toList h.line) = true := by
    intro h
    rw [h.plain]
    rfl
  have hrows : ∀ row ∈ r.rows, (!occursIn "Average".toList row.line) = true := by
    intro row hrow
    rw [row.occursIn_average, haverage row.name (List.mem_map_of_mem hrow)]
    rfl
  obtain ⟨k, hk⟩ := names_kept r (fun l => !occursIn "Average".toList l) rfl hheader hrows
    fun a => by rw [a.average]; rfl
  refine ⟨k, fun disk hdisk => ?_⟩
  have hname : ∀ x : Sample diskColumns 8, field 3 x.header.line = "DEV".toList :=
    fun x => x.header.field_column (i := 0) (by decide)
  have hne : disk ≠ [] := by
    obtain ⟨row, -, rfl⟩ := List.mem_map.mp hdisk
    exact row.name_ne_nil
  -- the script drops three lines: the banner, a blank line and the first header
  have hdrop : ((r.lines.filter fun l => !occursIn "Average".toList l).drop 3).map (field 3) =
      s.rows.map Row.name ++ (laterNames ss ++ List.replicate k []) := by
    rw [List.map_drop, hk, h, List.flatMap_cons, r.banner.plain, laterNames]
    simp only [Bool.not_false, if_true, hname, List.cons_append, List.nil_append,
      List.append_assoc, List.drop_succ_cons, List.drop_zero]
  rw [diskLists, forWords, List.mem_filter, mem_sortNumericUnique, grepV, hdrop]
  simp [hne]

/-- A disk is found when it is the only one with its number. -/
theorem find?_of_only {l : List (List Char)} {disk : List Char} (h : disk ∈ l)
    (honly : ∀ w ∈ l, sortNumber w = sortNumber disk → w = disk) :
    l.find? (fun w => decide (sortNumber w = sortNumber disk)) = some disk := by
  cases hfind : l.find? (fun w => decide (sortNumber w = sortNumber disk)) with
  | none =>
    rw [List.find?_eq_none] at hfind
    exact absurd (decide_eq_true rfl) (hfind disk h)
  | some w =>
    have hnumber := List.find?_some hfind
    rw [honly w (List.mem_of_find?_eq_some hfind) (of_decide_eq_true hnumber)]

/-- If all disks are listed, those without a number come first. -/
theorem mem_firstNames_of_listed (h : ∀ disk ∈ r.names, disk ∈ diskLists r.lines)
    (haverage : ∀ disk ∈ r.names, occursIn "Average".toList disk = false)
    (hdistinct : ∀ disk ∈ r.names, ∀ disk' ∈ r.names, sortNumber disk = sortNumber disk' →
      disk = disk') {disk : List Char} (hdisk : disk ∈ r.names) (hnumber : sortNumber disk = 0) :
    disk ∈ r.firstNames := by
  cases hsamples : r.samples with
  | nil =>
    have hnone : r.names = [] := by simp [Report.names, Report.rows, hsamples]
    rw [hnone] at hdisk
    exact absurd hdisk List.not_mem_nil
  | cons s ss =>
    rw [DiskReport.firstNames, hsamples]
    by_contra hlate
    obtain ⟨k, hk⟩ := mem_diskLists_iff hsamples haverage
    have hfind := (hk disk hdisk).mp (h disk hdisk)
    have hnone : (s.rows.map Row.name).find?
        (fun w => decide (sortNumber w = sortNumber disk)) = none := by
      rw [List.find?_eq_none]
      intro w hw heq
      have hw' : w ∈ r.names := (names_cons hsamples w).mpr (Or.inl hw)
      rw [hdistinct w hw' disk hdisk (of_decide_eq_true heq)] at hw
      exact hlate hw
    obtain ⟨x, hx, -⟩ := ((names_cons hsamples disk).mp hdisk).resolve_left hlate
    -- the blank line of the second sample has the number 0
    obtain ⟨y, ys, rfl⟩ := List.exists_cons_of_ne_nil (List.ne_nil_of_mem hx)
    rw [List.find?_append, hnone, laterNames, List.flatMap_cons, List.cons_append,
      List.cons_append, List.find?_cons_of_pos (by simp [sortNumber_nil, hnumber])] at hfind
    obtain ⟨row, -, hrow⟩ := List.mem_map.mp hdisk
    rw [← hrow] at hfind
    exact row.name_ne_nil (Option.some.inj hfind).symm

/-- **All disks are listed exactly when** none is taken for an average, all have
different numbers, and those without a number come first. -/
theorem listed_iff (r : DiskReport) :
    (∀ disk ∈ r.names, disk ∈ diskLists r.lines) ↔
      (∀ disk ∈ r.names, occursIn "Average".toList disk = false) ∧
      (∀ disk ∈ r.names, ∀ disk' ∈ r.names, sortNumber disk = sortNumber disk' →
        disk = disk') ∧
      ∀ disk ∈ r.names, sortNumber disk = 0 → disk ∈ r.firstNames := by
  constructor
  · intro h
    have haverage := fun disk hdisk => occursIn_average_of_listed (h disk hdisk)
    -- of the disks with one number, `sort -nu` keeps the first only
    have hdistinct : ∀ disk ∈ r.names, ∀ disk' ∈ r.names,
        sortNumber disk = sortNumber disk' → disk = disk' := by
      intro disk hdisk disk' hdisk' heq
      have hsort := mem_sortNumericUnique.mp (List.mem_filter.mp (h disk hdisk)).1
      have hsort' := mem_sortNumericUnique.mp (List.mem_filter.mp (h disk' hdisk')).1
      rw [heq] at hsort
      exact Option.some.inj (hsort.symm.trans hsort')
    exact ⟨haverage, hdistinct, fun disk hdisk => mem_firstNames_of_listed h haverage hdistinct hdisk⟩
  · rintro ⟨haverage, hdistinct, hearly⟩ disk hdisk
    obtain ⟨s, ss, hsamples⟩ := r.exists_sample hdisk
    have hfirst : ∀ w ∈ s.rows.map Row.name, w ∈ r.names :=
      fun w hw => (names_cons hsamples w).mpr (Or.inl hw)
    obtain ⟨k, hk⟩ := mem_diskLists_iff hsamples haverage
    rw [hk disk hdisk]
    -- a disk with the number 0 competes with the lines that are no numbers
    by_cases hnumber : sortNumber disk = 0
    · have hin := hearly disk hdisk hnumber
      rw [DiskReport.firstNames, hsamples] at hin
      rw [List.find?_append, find?_of_only hin fun w hw => hdistinct w (hfirst w hw) disk hdisk]
      rfl
    · apply find?_of_only
      · rcases (names_cons hsamples disk).mp hdisk with hin | ⟨x, hx, hin⟩
        · exact List.mem_append_left _ hin
        · refine List.mem_append_right _ (List.mem_append_left _ ?_)
          exact List.mem_flatMap.mpr ⟨x, hx, by simp [List.mem_map.mp hin]⟩
      · intro w hw heq
        have hne : sortNumber w ≠ 0 := heq ▸ hnumber
        refine hdistinct w ?_ disk hdisk heq
        rcases List.mem_append.mp hw with hw | hw
        · exact hfirst w hw
        rcases List.mem_append.mp hw with hw | hw
        · exact (names_cons hsamples w).mpr (Or.inr ((mem_laterNames hw).resolve_left hne))
        · rw [List.eq_of_mem_replicate hw] at hne
          exact absurd sortNumber_nil hne

end Listed

/-! ### The rows of a disk -/

section Rows

variable {time : List Char} {r : DiskReport} {threshold : Threshold}

/-- A missing column is over a threshold below 0. -/
theorem inRange_missing (line disk : List Char) (h : field 11 line = []) :
    inRange 11 threshold.text "100".toList disk line =
      (awkEq (field 3 line) disk && decide (numValue threshold.text < 0)) := by
  have hle : awkLe [] "100".toList = true := by decide +kernel
  have hgt : awkGt [] threshold.text = decide (numValue threshold.text < 0) :=
    awkGt_of_numeric rfl threshold.numeric
  rw [inRange, h, hle, hgt, Bool.and_true]

/-- A header line is not over a threshold. -/
theorem inRange_diskHeader (h : Header diskColumns) (disk rangeEnd : List Char) :
    inRange 11 threshold.text rangeEnd disk h.line = false := by
  have hcolumn : field 11 h.line = "%util".toList := h.field_column (i := 8) (by decide)
  have hgt : awkGt "%util".toList threshold.text = false := by
    rw [awkGt_of_text (by decide), decide_eq_false_iff_not]
    exact List.lt_asymm (percent_lt_of_looksNumeric threshold.numeric)
  rw [inRange, hcolumn, hgt, Bool.false_and, Bool.and_false]

theorem inRange_diskRow (row : Row 8) (disk : List Char) :
    inRange 11 threshold.text "100".toList disk row.line =
      (awkEq row.name disk &&
        (decide (numValue threshold.text < util row) && decide (util row ≤ 100))) := by
  have hnumeric : fieldNumeric (row.values.getD 7 []) = true :=
    fieldNumeric_of_looksNumeric (row.looksNumeric_value (by decide))
  have hhundred : numValue "100".toList = 100 := by decide +kernel
  rw [inRange, row.field_name, row.field_value 7, awkGt_of_numeric hnumeric threshold.numeric,
    awkLe_of_numeric hnumeric (by decide), hhundred]
  rfl

/-- The banner is picked for a disk called like the host. -/
theorem picked_banner_iff (r : DiskReport) (disk : List Char) :
    (inRange 11 threshold.text "100".toList disk r.banner.line &&
        !occursIn "Average".toList r.banner.line) = false ↔
      (numValue threshold.text < 0 → disk ≠ '(' :: r.banner.host) := by
  rw [inRange_missing _ _ r.banner.field_eleven, awkEq_of_text r.banner.fieldNumeric_host,
    r.banner.field_host, r.banner.plain]
  by_cases hlow : numValue threshold.text < 0
  · simp [hlow, eq_comm (a := disk)]
  · simp [hlow]

/-- A blank line is picked for a disk whose name is a number that is 0. -/
theorem picked_blank_iff (disk : List Char) :
    (inRange 11 threshold.text "100".toList disk [] && !occursIn "Average".toList []) = false ↔
      (numValue threshold.text < 0 → awkEq [] disk = false) := by
  rw [inRange_missing [] disk rfl]
  by_cases hlow : numValue threshold.text < 0
  · simp [hlow, occursIn]
  · simp [hlow]

/-- A row is picked for the right disk, unless the test for the name or the upper bound is
wrong on it. -/
theorem picked_row_iff {row : Row 8} (haverage : occursIn "Average".toList row.line = false)
    (disk : List Char) :
    (inRange 11 threshold.text "100".toList disk row.line &&
        !occursIn "Average".toList row.line) = isUsed threshold disk row ↔
      (numValue threshold.text < util row →
        (awkEq row.name disk = true ∧ util row ≤ 100 ↔ row.name = disk)) := by
  rw [inRange_diskRow, haverage, isUsed, Bool.eq_iff_iff]
  by_cases hover : numValue threshold.text < util row
  · simp [hover]
  · simp [hover]

/-- **The rows that are picked** are those over the threshold when no line without columns
is picked, and the rows are told apart by their names. -/
theorem pickedDisk_iff (haverage : ∀ disk ∈ r.names, occursIn "Average".toList disk = false)
    {disk : List Char} (hdisk : disk ∈ r.names) :
    (∀ i ∈ r.items,
      (inRange 11 threshold.text "100".toList disk i.text &&
        !occursIn "Average".toList i.text) = i.hasRow (isUsed threshold disk)) ↔
      (numValue threshold.text < 0 → disk ≠ '(' :: r.banner.host ∧ awkEq [] disk = false) ∧
        ∀ row ∈ r.rows, numValue threshold.text < util row →
          (awkEq row.name disk = true ∧ util row ≤ 100 ↔ row.name = disk) := by
  have hrowAverage : ∀ row ∈ r.rows, occursIn "Average".toList row.line = false := by
    intro row hrow
    rw [row.occursIn_average, haverage row.name (List.mem_map_of_mem hrow)]
  constructor
  · intro h
    have hbanner := (picked_banner_iff r disk).mp (h (.banner r.banner) List.mem_cons_self)
    have hblank := (picked_blank_iff disk).mp (h .blank (r.blank_mem hdisk))
    refine ⟨fun hlow => ⟨hbanner hlow, hblank hlow⟩, fun row hrow => ?_⟩
    exact (picked_row_iff (hrowAverage row hrow) disk).mp
      (h (.row row) ((r.mem_rows_iff row).mp hrow))
  · rintro ⟨hlow, hrows⟩ i hi
    -- by the kind of the line; only the banner, a blank line or a row can be picked
    cases i with
    | banner b =>
      rw [r.eq_banner hi]
      exact (picked_banner_iff r disk).mpr fun h => (hlow h).1
    | blank => exact (picked_blank_iff disk).mpr fun h => (hlow h).2
    | header h =>
      rw [Item.text, inRange_diskHeader]
      rfl
    | average a =>
      rw [Item.text, a.average]
      simp [Item.hasRow]
    | row row =>
      have hrow := (r.mem_rows_iff row).mpr hi
      exact (picked_row_iff (hrowAverage row hrow) disk).mpr (hrows row hrow)

/-- With a slash in the name of a disk, its result is right only if there is nothing to log. -/
theorem checkDiskUtil_eq_iff (lines : List (List Char)) (disk header : List Char)
    (rows : List (List Char)) :
    checkDiskUtil time lines threshold disk =
        Result.ofRows disk (diskLogName time threshold disk) header rows ↔
      checkRows (inRange 11 threshold.text "100".toList disk) 3 (grepV "Average".toList lines) disk
          (diskLogName time threshold disk) =
        Result.ofRows disk (diskLogName time threshold disk) header rows ∧
      ('/' ∈ disk → rows = []) := by
  unfold checkDiskUtil
  by_cases hslash : '/' ∈ disk
  -- the file cannot be opened, so nothing is counted
  · rw [if_pos hslash]
    constructor
    · intro h
      obtain ⟨-, hcount, hlog⟩ := Result.mk.inj h
      have hrows : rows = [] := by
        by_contra hne
        rw [if_neg (mt List.length_eq_zero_iff.mp hne)] at hlog
        cases hlog
      subst hrows
      have hzero : ((grepV "Average".toList lines).filter
          (inRange 11 threshold.text "100".toList disk)).length = 0 := hcount
      refine ⟨?_, fun _ => rfl⟩
      rw [checkRows, hzero]
      rfl
    · rintro ⟨h, hrows⟩
      rw [h, hrows hslash]
      rfl
  · rw [if_neg hslash]
    exact ⟨fun h => ⟨h, fun hin => absurd hin hslash⟩, fun h => h.1⟩

theorem diskRight_iff {disk : List Char} (hdisk : disk ∈ r.names) :
    DiskRight time r threshold disk ↔
      disk ∈ diskLists r.lines ∧ (∀ i ∈ r.items,
        (inRange 11 threshold.text "100".toList disk i.text &&
          !occursIn "Average".toList i.text) = i.hasRow (isUsed threshold disk)) ∧
        ('/' ∈ disk → r.rows.filter (isUsed threshold disk) = []) := by
  obtain ⟨s, ss, hsamples⟩ := r.exists_sample hdisk
  have hheader : r.headerLine = s.header.line := by
    rw [Report.headerLine, hsamples]
  have hnodup : (diskLists r.lines).Nodup := (nodup_sortNumericUnique _).filter _
  rw [DiskRight, diskMode, filter_results_iff hnodup fun d => ?_, hheader, checkDiskUtil_eq_iff,
    checkRows_report_iff hsamples (inRange_diskHeader s.header _ _), List.map_eq_nil_iff]
  unfold checkDiskUtil
  split <;> rfl

end Rows

/-- **All results are right exactly when** the report meets the condition: with two disks named as
usual, the second one is not listed. -/
theorem disksRight_iff (time : List Char) (r : DiskReport) (threshold : Threshold) :
    DisksRight time r threshold ↔ DiskCondition r threshold := by
  constructor
  · intro h
    have hlisted : ∀ disk ∈ r.names, disk ∈ diskLists r.lines :=
      fun disk hdisk => ((diskRight_iff hdisk).mp (h disk hdisk)).1
    obtain ⟨haverage, hdistinct, hfirst⟩ := (listed_iff r).mp hlisted
    have hpicked := fun disk hdisk =>
      (pickedDisk_iff haverage hdisk).mp ((diskRight_iff hdisk).mp (h disk hdisk)).2.1
    refine ⟨haverage, hdistinct, hfirst, ?_, ?_, ?_, ?_⟩
    · intro row hrow hover
      exact (((hpicked row.name (List.mem_map_of_mem hrow)).2 row hrow hover).mpr rfl).2
    · intro row hrow hover hslash
      have hname : row.name ∈ r.names := List.mem_map_of_mem hrow
      have hnone := ((diskRight_iff hname).mp (h row.name hname)).2.2 hslash
      refine List.filter_eq_nil_iff.mp hnone row hrow ?_
      simp [isUsed, hover]
    · intro row hrow hover hsmall disk hdisk heq
      exact ((hpicked disk hdisk).2 row hrow hover).mp ⟨heq, hsmall⟩
    · intro hneg disk hdisk
      exact (hpicked disk hdisk).1 hneg
  · intro h disk hdisk
    rw [diskRight_iff hdisk, pickedDisk_iff h.noAverage hdisk]
    refine ⟨(listed_iff r).mpr ⟨h.noAverage, h.distinct, h.first⟩ disk hdisk,
      ⟨fun hneg => h.nonneg hneg disk hdisk, ?_⟩, ?_⟩
    · intro row hrow hover
      constructor
      · rintro ⟨heq, hsmall⟩
        exact h.apart row hrow hover hsmall disk hdisk heq
      · rintro rfl
        exact ⟨awkEq_self _, h.small row hrow hover⟩
    · intro hslash
      rw [List.filter_eq_nil_iff]
      intro row hrow hused
      simp only [isUsed, Bool.and_eq_true, beq_iff_eq, decide_eq_true_eq] at hused
      exact h.noSlash row hrow hused.2 (hused.1 ▸ hslash)

/-- A report of one sample on a machine with two disks. -/
def twoDiskReport : DiskReport where
  banner := .fourCpus
  samples := [
    { header := .ofText diskColumns
        ("12:00:01 AM  DEV  tps  rd_sec/s  wr_sec/s  avgrq-sz  avgqu-sz  await  svctm  " ++
          "%util").toList
        (by decide +kernel)
      rows := [
        .ofText 8 "12:00:02 AM  dev8-0   9.00  0.00  0.00  0.00  0.00  0.00  0.00  10.00".toList
          (by decide +kernel),
        .ofText 8 "12:00:02 AM  dev8-16  9.00  0.00  0.00  0.00  0.00  0.00  0.00  90.00".toList
          (by decide +kernel)] }]
  averages := []

/-- The second disk is 90 percent busy and is not looked at. -/
theorem not_disksRight_twoDisks : ¬ DisksRight [] twoDiskReport ⟨"50".toList, by decide⟩ := by
  intro h
  have hlisted := (listed_iff twoDiskReport).mp fun disk hdisk =>
    ((diskRight_iff hdisk).mp (h disk hdisk)).1
  have hsame := hlisted.2.1 "dev8-0".toList (by decide +kernel) "dev8-16".toList
    (by decide +kernel) (by decide +kernel)
  revert hsame
  decide

end LinuxNote.ThresholdCheck
