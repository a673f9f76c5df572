import LinuxNote.Sysstat.ThresholdReport

/-!
# Busy processors

`cpu` lists the processors with `sort -nu`, for which a blank line and the row of all
processors have the number 0 as well, and takes the rows whose `%idle` is above 0 and not
above the rest to 100.

## Main definitions

* `CpuReport` — a report of `sar -P ALL`.
* `CpuRight` — there is one result for a processor, with the rows over the threshold.

## Main results

* `mem_cpuLists_iff` — processor 0 is listed only if the banner does not have the word
  `CPU`, all others are listed.
* `cpuRight_iff` — when the result for one processor is right.
* `cpusRight_iff` — **all results are right exactly when** there are none to give, or
  the banner does not have the word `CPU` and no processor is ever without idle time.
-/

namespace LinuxNote.ThresholdCheck

open AwkNumber ShellText Sar

/-! ### Reports of `sar -P ALL` -/

def cpuColumns : List (List Char) :=
  ["CPU", "%user", "%nice", "%system", "%iowait", "%steal", "%idle"].map String.toList

/-- A report of `sar -P ALL`: each sample has a row for all processors and one for each
of them. -/
structure CpuReport where
  report : Report cpuColumns 6
  cpus : ℕ
  names : ∀ s ∈ report.samples,
    s.rows.map Row.name = "all".toList :: (List.range cpus).map CText.decimal

/-- `%idle`. -/
def idle (row : Row 6) : ℚ := row.value 5

section CpuRight

variable (time : List Char) (r : CpuReport) (threshold : Percent)

/-- A row of a processor with a load from the threshold on, where the load is what
`%idle` leaves of 100. -/
def isBusy (cpu : ℕ) (row : Row 6) : Bool :=
  row.name == CText.decimal cpu && decide ((threshold.value : ℚ) ≤ 100 - idle row)

/-- There is exactly one result for a processor; it has the number of its rows with a
load from the threshold on, and the log has these rows behind the header. -/
def CpuRight (cpu : ℕ) : Prop :=
  (cpuMode time r.report.lines threshold).filter (fun x => x.device == CText.decimal cpu) =
    [Result.ofRows (CText.decimal cpu) (cpuLogName time threshold (CText.decimal cpu))
      r.report.headerLine ((r.report.rows.filter (isBusy threshold cpu)).map Row.line)]

/-- A processor has a row. -/
def CpuReport.Occurs (cpu : ℕ) : Prop := CText.decimal cpu ∈ r.report.names

/-- The results are right for all processors of the report, so that none is left out and
none is announced twice. -/
def CpusRight : Prop := ∀ cpu, r.Occurs cpu → CpuRight time r threshold cpu

end CpuRight

/-! ### Rows -/

theorem decimal_ne_all (i : ℕ) : CText.decimal i ≠ "all".toList := by
  intro h
  obtain ⟨c, t, hct, hc⟩ := exists_digit_decimal i
  rw [h] at hct
  rw [← (List.cons.inj hct).1] at hc
  exact absurd hc (by decide)

namespace CpuReport

variable (r : CpuReport)

/-- A row is that of all processors or of one of them. -/
theorem name_cases {row : Row 6} (h : row ∈ r.report.rows) :
    row.name = "all".toList ∨ ∃ i < r.cpus, row.name = CText.decimal i := by
  obtain ⟨s, hs, hrow⟩ := List.mem_flatMap.mp h
  have hname : row.name ∈ s.rows.map Row.name := List.mem_map_of_mem hrow
  rw [r.names s hs, List.mem_cons, List.mem_map] at hname
  rcases hname with hall | ⟨i, hi, heq⟩
  · exact Or.inl hall
  · exact Or.inr ⟨i, List.mem_range.mp hi, heq.symm⟩

theorem occurs_iff (cpu : ℕ) : r.Occurs cpu ↔ cpu < r.cpus ∧ r.report.samples ≠ [] := by
  constructor
  · intro h
    obtain ⟨row, hrow, hname⟩ := List.mem_map.mp h
    obtain ⟨s, hs, -⟩ := List.mem_flatMap.mp hrow
    refine ⟨?_, List.ne_nil_of_mem hs⟩
    rcases r.name_cases hrow with hall | ⟨i, hi, heq⟩
    · exact absurd (hname.symm.trans hall) (decimal_ne_all cpu)
    · rw [CText.decimal_injective (hname.symm.trans heq)]
      exact hi
  · rintro ⟨hlt, hne⟩
    obtain ⟨s, hs⟩ := List.exists_mem_of_ne_nil _ hne
    have hname : CText.decimal cpu ∈ s.rows.map Row.name := by
      rw [r.names s hs]
      exact List.mem_cons_of_mem _ (List.mem_map_of_mem (List.mem_range.mpr hlt))
    obtain ⟨row, hrow, heq⟩ := List.mem_map.mp hname
    exact List.mem_map.mpr ⟨row, List.mem_flatMap.mpr ⟨s, hs, hrow⟩, heq⟩

/-- A word with a letter that is in no name occurs in no row. -/
theorem occursIn_row {row : Row 6} (h : row ∈ r.report.rows) {p : List Char}
    (hblank : ∀ c ∈ p, isBlank c = false) {c : Char} (hc : c ∈ p) (honly : InNamesOnly c)
    (hall : c ∉ "all".toList) : occursIn p row.line = false := by
  rw [← Bool.not_eq_true, occursIn_iff, row.infix_line_iff hblank hc honly]
  intro hin
  have hmem : c ∈ row.name := hin.subset hc
  rcases r.name_cases h with heq | ⟨i, -, heq⟩
  · rw [heq] at hmem
    exact hall hmem
  · rw [heq] at hmem
    have hdigit := CText.isDigit_of_mem_decimal hmem
    rw [honly.1] at hdigit
    exact absurd hdigit (by decide)

theorem occursIn_average_row {row : Row 6} (h : row ∈ r.report.rows) :
    occursIn "Average".toList row.line = false :=
  r.occursIn_row h (c := 'v') (isBlank_of_all (by decide)) (by decide) (by decide) (by decide)

theorem occursIn_cpu_row {row : Row 6} (h : row ∈ r.report.rows) :
    occursIn "CPU".toList row.line = false :=
  r.occursIn_row h (c := 'C') (isBlank_of_all (by decide)) (by decide) (by decide) (by decide)

/-! ### The list of processors -/

/-- The lines that the list is taken from. -/
def isListed (line : List Char) : Bool :=
  !occursIn "CPU".toList line && !occursIn "Average".toList line

theorem isListed_header (h : Header cpuColumns) : isListed h.line = false := by
  have hin : occursIn "CPU".toList h.line = true := by
    rw [occursIn_iff, infix_iff_exists_word (by decide) (isBlank_of_all (by decide)), h.words_line]
    exact ⟨"CPU".toList, by simp [cpuColumns], List.infix_rfl⟩
  rw [isListed, hin]
  rfl

theorem isListed_banner (b : Banner) :
    isListed b.line = !occursIn "CPU".toList b.line := by
  rw [isListed, b.plain, Bool.not_false, Bool.and_true]

theorem isListed_row {row : Row 6} (h : row ∈ r.report.rows) : isListed row.line = true := by
  rw [isListed, r.occursIn_cpu_row h, r.occursIn_average_row h]
  rfl

/-- **The third words of the lines** that the list is taken from: in each sample a blank
line, then the rows. -/
theorem names_lines :
    ∃ k, ((r.report.lines.filter isListed).map (field 3)) =
      (if occursIn "CPU".toList r.report.banner.line then [] else ['(' :: r.report.banner.host]) ++
        (r.report.samples.flatMap (fun _ =>
          [] :: "all".toList :: (List.range r.cpus).map CText.decimal) ++
        List.replicate k []) := by
  have haverage : ∀ a : AverageLine, isListed a.line = false := by
    intro a
    rw [isListed, a.average, Bool.not_true, Bool.and_false]
  obtain ⟨k, hk⟩ := names_kept r.report isListed rfl isListed_header
    (fun _ h => r.isListed_row h) haverage
  refine ⟨k, ?_⟩
  rw [hk, isListed_banner]
  congr 1
  · cases occursIn "CPU".toList r.report.banner.line <;> rfl
  · congr 1
    exact List.flatMap_congr fun s hs => by rw [r.names s hs]; rfl

end CpuReport

/-! ### Numbers of processors -/

/-- The first number in a range of processors. -/
theorem find?_decimal (l : List ℕ) {cpu : ℕ} (h : cpu ∈ l) :
    (l.map CText.decimal).find? (fun w => decide (sortNumber w = cpu)) =
      some (CText.decimal cpu) := by
  induction l with
  | nil => exact absurd h List.not_mem_nil
  | cons i l ih =>
    rw [List.map_cons]
    by_cases hi : i = cpu
    · subst hi
      rw [List.find?_cons_of_pos (by simp [sortNumber_decimal])]
    · rw [List.find?_cons_of_neg (by simpa [sortNumber_decimal] using hi)]
      exact ih ((List.mem_cons.mp h).resolve_left (Ne.symm hi))

theorem find?_decimal_eq_none {l : List ℕ} {cpu : ℕ} (h : cpu ∉ l) :
    (l.map CText.decimal).find? (fun w => decide (sortNumber w = cpu)) = none := by
  rw [List.find?_eq_none]
  intro w hw
  obtain ⟨i, hi, rfl⟩ := List.mem_map.mp hw
  rw [sortNumber_decimal, decide_eq_true_iff]
  intro heq
  rw [Nat.cast_injective heq] at hi
  exact h hi

/-- **Which processors are listed**: 0 is listed only if the banner, too, is among the
three lines that are left out. -/
theorem mem_cpuLists_iff (r : CpuReport) {cpu : ℕ} (h : r.Occurs cpu) :
    CText.decimal cpu ∈ cpuLists r.report.lines ↔
      cpu ≠ 0 ∨ occursIn "CPU".toList r.report.banner.line = false := by
  obtain ⟨hlt, hne⟩ := (r.occurs_iff cpu).mp h
  obtain ⟨s, ss, hsamples⟩ := List.exists_cons_of_ne_nil hne
  obtain ⟨k, hnames⟩ := r.names_lines
  have hkept : (grepV "CPU".toList (grepV "Average".toList r.report.lines)) =
      r.report.lines.filter CpuReport.isListed := by
    rw [grepV, grepV, List.filter_filter]
    rfl
  rw [cpuLists, forWords, List.mem_filter, mem_sortNumericUnique, hkept, List.map_drop, hnames,
    sortNumber_decimal, hsamples, List.flatMap_cons]
  have hword : (!(CText.decimal cpu).isEmpty) = true := by
    simpa using CText.decimal_ne_nil cpu
  obtain ⟨m, hm⟩ : ∃ m, r.cpus = m + 1 := ⟨r.cpus - 1, by omega⟩
  cases occursIn "CPU".toList r.report.banner.line with
  | false =>
    -- the list starts with processor 0
    rw [if_neg (by decide)]
    simp only [List.cons_append, List.nil_append, List.drop_succ_cons, List.drop_zero,
      List.append_assoc]
    rw [List.find?_append, find?_decimal _ (List.mem_range.mpr hlt)]
    simp [hword]
  | true =>
    rw [if_pos rfl, hm, List.range_succ_eq_map]
    simp only [List.nil_append, List.map_cons, List.cons_append, List.drop_succ_cons,
      List.drop_zero, List.append_assoc]
    rw [List.find?_append]
    by_cases hzero : cpu = 0
    · subst hzero
      rw [find?_decimal_eq_none (by simp)]
      -- a blank line comes before the next row of processor 0
      have hblank : sortNumber [] = ((0 : ℕ) : ℚ) := by decide +kernel
      cases ss with
      | cons s' ss' => simp [hblank, CText.decimal_ne_nil, (CText.decimal_ne_nil 0).symm]
      | nil =>
        cases k with
        | zero => simp
        | succ k => simp [hblank, List.replicate_succ, (CText.decimal_ne_nil 0).symm]
    · rw [find?_decimal _ (by
        obtain ⟨j, rfl⟩ : ∃ j, cpu = j + 1 := ⟨cpu - 1, by omega⟩
        exact List.mem_map_of_mem (List.mem_range.mpr (by omega)))]
      simp [hword, hzero]

/-! ### The rows of a processor -/

section Rows

variable {time : List Char} {r : CpuReport} {threshold : Percent}

/-- A text that is not a number is no processor. -/
theorem awkEq_decimal_of_text {f : List Char} (h : fieldNumeric f = false) (cpu : ℕ) :
    awkEq f (CText.decimal cpu) = false := by
  rw [awkEq_of_text h, beq_eq_false_iff_ne]
  rintro rfl
  rw [fieldNumeric_of_looksNumeric (looksNumeric_decimal cpu)] at h
  exact absurd h (by decide)

theorem inRange_header (h : Header cpuColumns) (rangeStart rangeEnd : List Char) (cpu : ℕ) :
    inRange 9 rangeStart rangeEnd (CText.decimal cpu) h.line = false := by
  have hname : field 3 h.line = "CPU".toList := h.field_column (i := 0) (by decide)
  rw [inRange, hname, awkEq_decimal_of_text (by decide), Bool.false_and]

/-- The range of `%idle` on a row. -/
theorem inRange_row {row : Row 6} (hrow : row ∈ r.report.rows) (cpu : ℕ) :
    inRange 9 "0".toList threshold.rest (CText.decimal cpu) row.line =
      (row.name == CText.decimal cpu &&
        (decide (0 < idle row) && decide ((threshold.value : ℚ) ≤ 100 - idle row))) := by
  have hnumeric : fieldNumeric (row.values.getD 5 []) = true :=
    fieldNumeric_of_looksNumeric (row.looksNumeric_value (by decide))
  have hrestNumeric : looksNumeric threshold.rest = true := looksNumeric_decimal _
  have hrest : numValue threshold.rest = 100 - threshold.value := by
    rw [Percent.rest, numValue_decimal, Nat.cast_sub threshold.value_le]
    rfl
  have hname : awkEq row.name (CText.decimal cpu) = (row.name == CText.decimal cpu) := by
    rcases r.name_cases hrow with hall | ⟨i, -, heq⟩
    · rw [hall]
      exact awkEq_of_text (by decide)
    · rw [heq, awkEq_decimal, Bool.eq_iff_iff, decide_eq_true_iff, beq_iff_eq]
      exact ⟨congrArg CText.decimal, CText.decimal_injective⟩
  have hzero : numValue "0".toList = 0 := by decide +kernel
  have hidle : (idle row ≤ 100 - threshold.value) ↔ ((threshold.value : ℚ) ≤ 100 - idle row) := by
    constructor <;> intro h <;> linarith
  rw [inRange, row.field_name, row.field_value 5, hname,
    awkGt_of_numeric hnumeric (by decide),
    awkLe_of_numeric hnumeric hrestNumeric, hzero, hrest]
  simp only [← hidle]
  rfl

/-- **The rows that are picked** are the busy ones as long as none of the processor is
without idle time. -/
theorem picked_iff (cpu : ℕ) :
    (∀ i ∈ r.report.items,
      (inRange 9 "0".toList threshold.rest (CText.decimal cpu) i.text &&
        !occursIn "Average".toList i.text) = i.hasRow (isBusy threshold cpu)) ↔
      ∀ row ∈ r.report.rows, row.name = CText.decimal cpu → 0 < idle row := by
  constructor
  · intro h row hrow hname
    have hpicked := h (.row row) ((r.report.mem_rows_iff row).mp hrow)
    rw [Item.text, inRange_row hrow, r.occursIn_average_row hrow] at hpicked
    by_contra hidle
    -- without idle time the load is 100
    have hbusy : (threshold.value : ℚ) ≤ 100 - idle row := by
      have hle : (threshold.value : ℚ) ≤ 100 := by exact_mod_cast threshold.value_le
      linarith
    simp [Item.hasRow, isBusy, hname, hidle, hbusy] at hpicked
  · intro h i hi
    cases i with
    | banner b =>
      have hb : awkEq (field 3 b.line) (CText.decimal cpu) = false :=
        awkEq_decimal_of_text b.fieldNumeric_host cpu
      rw [Item.text, inRange, hb]
      rfl
    | blank =>
      have hblank : awkGt [] "0".toList = false := by decide +kernel
      rw [Item.text, inRange, field_nil, field_nil, hblank]
      simp [Item.hasRow]
    | header h =>
      rw [Item.text, inRange_header]
      rfl
    | average a =>
      rw [Item.text, a.average]
      simp [Item.hasRow]
    | row row =>
      have hrow := (r.report.mem_rows_iff row).mpr hi
      rw [Item.text, inRange_row hrow, r.occursIn_average_row hrow, Item.hasRow, isBusy]
      cases hname : row.name == CText.decimal cpu with
      | true => simp [h row hrow (beq_iff_eq.mp hname)]
      | false => rfl

/-- **When the result for a processor is right**: it is listed, and no row of it has
`%idle` at 0, as `awk` asks for more than that. -/
theorem cpuRight_iff {cpu : ℕ} (h : r.Occurs cpu) :
    CpuRight time r threshold cpu ↔
      (cpu ≠ 0 ∨ occursIn "CPU".toList r.report.banner.line = false) ∧
        ∀ row ∈ r.report.rows, row.name = CText.decimal cpu → 0 < idle row := by
  obtain ⟨s, ss, hsamples⟩ := List.exists_cons_of_ne_nil ((r.occurs_iff cpu).mp h).2
  have hheader : r.report.headerLine = s.header.line := by
    rw [Report.headerLine, hsamples]
  have hnodup : (cpuLists r.report.lines).Nodup := (nodup_sortNumericUnique _).filter _
  rw [CpuRight, cpuMode, filter_results_iff hnodup (fun _ => rfl), mem_cpuLists_iff r h, hheader,
    checkCpuIdle, checkRows_report_iff hsamples (inRange_header s.header _ _ cpu), picked_iff]

end Rows

/-- **All results are right exactly when** there are none to give, or the banner does not
have the word `CPU` and no processor is ever without idle time.  The busiest rows of all
are the ones that are not counted. -/
theorem cpusRight_iff (time : List Char) (r : CpuReport) (threshold : Percent) :
    CpusRight time r threshold ↔
      (∀ cpu, ¬ r.Occurs cpu) ∨
        occursIn "CPU".toList r.report.banner.line = false ∧
          ∀ row ∈ r.report.rows, row.name ≠ "all".toList → 0 < idle row := by
  constructor
  · intro h
    by_cases hnone : ∀ cpu, ¬ r.Occurs cpu
    · exact Or.inl hnone
    · right
      obtain ⟨cpu, hcpu⟩ := not_forall_not.mp hnone
      have hoccurs := (r.occurs_iff cpu).mp hcpu
      have hzero : r.Occurs 0 := (r.occurs_iff 0).mpr ⟨by omega, hoccurs.2⟩
      have hbanner := ((cpuRight_iff hzero).mp (h 0 hzero)).1
      refine ⟨hbanner.resolve_left (by simp), ?_⟩
      intro row hrow hall
      obtain ⟨i, hi, hname⟩ := (r.name_cases hrow).resolve_left hall
      have hi' : r.Occurs i := (r.occurs_iff i).mpr ⟨hi, hoccurs.2⟩
      exact ((cpuRight_iff hi').mp (h i hi')).2 row hrow hname
  · rintro (hnone | ⟨hbanner, hidle⟩) cpu hcpu
    · exact absurd hcpu (hnone cpu)
    · rw [cpuRight_iff hcpu]
      refine ⟨Or.inr hbanner, fun row hrow hname => hidle row hrow ?_⟩
      rw [hname]
      exact decimal_ne_all cpu

/-- A report of one sample on a machine with two processors. -/
def twoCpuReport : CpuReport where
  report :=
    { banner := .ofText "Linux 3.10.0 (host)  11/08/2017  _x86_64_  (2 CPU)".toList
        (by decide +kernel)
      samples := [
        { header := .ofText cpuColumns
            "12:00:01 AM  CPU  %user  %nice  %system  %iowait  %steal  %idle".toList
            (by decide +kernel)
          rows := [
            .ofText 6 "12:00:02 AM  all  50.00  0.00  0.00  0.00  0.00  50.00".toList
              (by decide +kernel),
            .ofText 6 "12:00:02 AM    0  95.00  0.00  0.00  0.00  0.00   5.00".toList
              (by decide +kernel),
            .ofText 6 "12:00:02 AM    1   5.00  0.00  0.00  0.00  0.00  95.00".toList
              (by decide +kernel)] }]
      averages := [] }
  cpus := 2
  names := by decide +kernel

/-- Processor 0 is 95 percent busy and is not announced. -/
theorem not_cpusRight_twoCpus : ¬ CpusRight [] twoCpuReport ⟨80, by decide⟩ := by
  intro h
  have hzero : twoCpuReport.Occurs 0 := by
    rw [CpuReport.occurs_iff]
    exact ⟨by decide, by simp [twoCpuReport]⟩
  have hright := (cpuRight_iff hzero).mp (h 0 hzero)
  revert hright
  decide +kernel

end LinuxNote.ThresholdCheck
