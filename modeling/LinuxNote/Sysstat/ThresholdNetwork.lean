import LinuxNote.Sysstat.ThresholdReport

/-!
# Busy interfaces

`network` cuts the first section out of the report by line numbers, from the first header
to the averages, and takes the third words of all its lines but the first for interfaces.
Every sample after the first brings a header line of its own into the section.

## Main definitions

* `NetworkReport` — a report of `sar -n ALL`.
* `NetworkRight` — there is one result for each interface and none besides, with the rows
  over the threshold.
* `NetworkCondition` — what a report must be like.

## Main results

* `networkSection_lines` — what is cut out.
* `announced_iff` — the interfaces are listed, and `IFACE` when there are more samples than
  one.
* `pickedInterface_iff` — when the rows of an interface are picked.
* `networkRight_iff` — **all results are right exactly when** the report meets the
  condition.
-/

namespace LinuxNote.ThresholdCheck

open AwkNumber ShellText Sar

/-! ### Reports of `sar -n ALL` -/

def networkColumns : List (List Char) :=
  ["IFACE", "rxpck/s", "txpck/s", "rxkB/s", "txkB/s", "rxcmp/s", "txcmp/s", "rxmcst/s"].map
    String.toList

/-- A report of `sar -n ALL`: the interfaces, with averages unless there are no samples,
and then other sections. -/
structure NetworkReport where
  first : Report networkColumns 7
  others : List (List Char)
  average_line : ∀ a ∈ first.averages, field 1 a.line = "Average:".toList
  averages_of_samples : first.averages = [] → first.samples = [] ∧ others = []

/-- The text of the report. -/
def NetworkReport.lines (r : NetworkReport) : List (List Char) := r.first.lines ++ r.others

/-- `rxkB/s`. -/
def rxkB (row : Row 7) : ℚ := row.value 2

/-- `txkB/s`. -/
def txkB (row : Row 7) : ℚ := row.value 3

section NetworkRight

variable (time : List Char) (r : NetworkReport) (threshold : Threshold)

/-- A row of an interface with a counter over the threshold. -/
def isOver (counter : Row 7 → ℚ) (device : List Char) (row : Row 7) : Bool :=
  row.name == device && decide (numValue threshold.text < counter row)

/-- The right result for a counter of an interface: the number of its rows with the counter
over the threshold, and these rows behind the header. -/
def counterResult (counter : Row 7 → ℚ) (suffix device : List Char) : Result :=
  Result.ofRows device (networkLogName time threshold device suffix) r.first.headerLine
    ((r.first.rows.filter (isOver threshold counter device)).map Row.line)

/-- There is exactly one result for each interface of the report, and it is the right one
for both counters; there is no other result, in particular none for a header. -/
def NetworkRight : Prop :=
  (∀ device ∈ r.first.names,
    (networkMode time r.lines threshold).filter (fun x => x.1.device == device) =
      [(counterResult time r threshold rxkB "_rxkB_".toList device,
        counterResult time r threshold txkB "_txkB_".toList device)]) ∧
  ∀ x ∈ networkMode time r.lines threshold, x.1.device ∈ r.first.names

/-- A report that the script can deal with.  Only the first header is left out of the
list, so with two samples the word `IFACE` is taken for an interface. -/
structure NetworkCondition : Prop where
  /-- No header line but the first, which the list of the interfaces leaves out. -/
  oneSample : r.first.samples.length ≤ 1
  /-- No interface is taken for a header. -/
  noHeader : "IFACE".toList ∉ r.first.names
  /-- No two interfaces are the same number for `awk`, unless there is nothing to count. -/
  apart : ∀ row ∈ r.first.rows,
    numValue threshold.text < rxkB row ∨ numValue threshold.text < txkB row →
    ∀ device ∈ r.first.names, awkEq row.name device = true → row.name = device
  /-- With a threshold below 0, blank lines are counted for a name that is the number 0. -/
  nonneg : numValue threshold.text < 0 → ∀ device ∈ r.first.names, awkEq [] device = false

end NetworkRight

/-! ### The section of the interfaces -/

/-- What is cut out of a report with at least one sample. -/
def sectionItems (s : Sample networkColumns 7) (ss : List (Sample networkColumns 7)) :
    List (Item networkColumns 7) :=
  .header s.header :: (s.rows.map .row ++ (ss.flatMap Sample.items ++ [.blank]))

theorem IsClock.ne_average {w : List Char} (h : IsClock w) : w ≠ "Average:".toList := by
  rintro rfl
  rcases h 'A' (by decide) with h | h
  · exact absurd h (by decide)
  · exact absurd h (by decide)

/-- Only averages start with their word. -/
theorem field_one_ne_average {i : Item networkColumns 7} (h : ∀ a, i ≠ .average a) :
    field 1 i.text ≠ "Average:".toList := by
  cases i with
  | banner b =>
    rw [Item.text, field_of_words b.words_line]
    change "Linux".toList ≠ "Average:".toList
    decide
  | blank => decide
  | header x =>
    rw [Item.text, field_of_words x.words_line]
    exact IsClock.ne_average x.clock_isClock
  | row row =>
    rw [Item.text, field_of_words row.words_line]
    exact IsClock.ne_average row.clock_isClock
  | average a => exact absurd rfl (h a)

/-- The number of the first line that a test accepts. -/
theorem firstLine_append_cons {α : Type*} {test : α → Bool} {front rest : List α} {a : α}
    (hfront : ∀ x ∈ front, test x = false) (ha : test a = true) :
    firstLine test (front ++ a :: rest) = some (front.length + 1) := by
  have hnone : front.findIdx? test = none := List.findIdx?_eq_none_iff.mpr hfront
  rw [firstLine, List.findIdx?_append, hnone, List.findIdx?_cons, ha]
  simp

/-- What is cut out of lines with averages. -/
theorem networkSection_of_average {front rest : List (List Char)} {average : List Char}
    (hfront : ∀ l ∈ front, field 1 l ≠ "Average:".toList)
    (haverage : field 1 average = "Average:".toList) :
    networkSection (front ++ average :: rest) = front.drop 2 := by
  have hfirst : firstLine (fun l => field 1 l == "Average:".toList) (front ++ average :: rest) =
      some (front.length + 1) :=
    firstLine_append_cons (fun l hl => by simpa using hfront l hl) (by simpa using haverage)
  rw [networkSection, hfirst]
  simp

/-- The lines in front of the averages. -/
theorem lines_of_average (r : NetworkReport) {a : AverageLine} {as : List AverageLine}
    (h : r.first.averages = a :: as) :
    ∃ rest, r.lines =
      (.banner r.first.banner :: (r.first.samples.flatMap Sample.items ++ [.blank])).map Item.text ++
        a.line :: rest := by
  refine ⟨as.map AverageLine.line ++ r.others, ?_⟩
  have haverages : (as.map fun a => (Item.average a : Item networkColumns 7)).map Item.text =
      as.map AverageLine.line := by
    rw [List.map_map]
    rfl
  have hclosing : r.first.closing = .blank :: .average a :: as.map .average := by
    rw [Report.closing, h]
    rfl
  rw [NetworkReport.lines, Report.lines, Report.items, hclosing]
  simp only [List.map_cons, List.map_append, List.cons_append, List.append_assoc, haverages,
    List.map_nil, List.nil_append]
  rfl

/-- **What is cut out** of a report with samples: all of them without the first blank
line, and the blank line in front of the averages. -/
theorem networkSection_lines (r : NetworkReport) {s : Sample networkColumns 7}
    {ss : List (Sample networkColumns 7)} (h : r.first.samples = s :: ss) :
    networkSection r.lines = (sectionItems s ss).map Item.text := by
  obtain ⟨a, as, haverages⟩ : ∃ a as, r.first.averages = a :: as := by
    apply List.exists_cons_of_ne_nil
    intro hnil
    rw [(r.averages_of_samples hnil).1] at h
    exact absurd h (by simp)
  obtain ⟨rest, hlines⟩ := lines_of_average r haverages
  rw [hlines, networkSection_of_average _ (r.average_line a (by rw [haverages]; simp)), h]
  · simp [sectionItems, Sample.items]
  · intro l hl
    obtain ⟨i, hi, rfl⟩ := List.mem_map.mp hl
    apply field_one_ne_average
    rintro a rfl
    simp [Sample.items] at hi

/-- Nothing is cut out of a report without samples. -/
theorem networkSection_nil (r : NetworkReport) (h : r.first.samples = []) :
    networkSection r.lines = [] := by
  cases haverages : r.first.averages with
  | nil =>
    have hlines : r.lines = [r.first.banner.line] := by
      rw [NetworkReport.lines, (r.averages_of_samples haverages).2, Report.lines, Report.items,
        Report.closing, if_pos haverages, h]
      rfl
    have hbanner : field 1 r.first.banner.line ≠ "Average:".toList :=
      field_one_ne_average (i := .banner r.first.banner) (by simp)
    have hnone : [r.first.banner.line].findIdx? (fun l => field 1 l == "Average:".toList) =
        none := by
      rw [List.findIdx?_eq_none_iff]
      intro l hl
      rw [List.mem_singleton.mp hl]
      simpa using hbanner
    rw [hlines, networkSection, firstLine, hnone]
    rfl
  | cons a as =>
    obtain ⟨rest, hlines⟩ := lines_of_average r haverages
    rw [hlines, networkSection_of_average _ (r.average_line a (by rw [haverages]; simp)), h]
    · rfl
    · intro l hl
      obtain ⟨i, hi, rfl⟩ := List.mem_map.mp hl
      apply field_one_ne_average
      rintro a rfl
      simp [h] at hi

/-! ### The list of interfaces -/

section Listed

variable {r : NetworkReport} {threshold : Threshold} {s : Sample networkColumns 7}
  {ss : List (Sample networkColumns 7)}

theorem Header.field_iface (h : Header networkColumns) : field 3 h.line = "IFACE".toList :=
  h.field_column (i := 0) (by decide)

/-- The third words of the samples behind the first. -/
theorem field_three_samples (ss : List (Sample networkColumns 7)) :
    ((ss.flatMap Sample.items).map Item.text).map (field 3) =
      ss.flatMap fun x => [] :: "IFACE".toList :: x.rows.map Row.name := by
  rw [List.map_flatMap, List.map_flatMap]
  congr 1
  funext x
  rw [x.map_text_items, List.map_cons, List.map_cons, map_field_name, Header.field_iface]
  rfl

/-- **The interfaces are listed**, and the first column of the headers of all samples but
the first, as the first line of what is cut out is the only one left out. -/
theorem mem_devList_iff (h : r.first.samples = s :: ss) {device : List Char} (hne : device ≠ []) :
    device ∈ devList (networkSection r.lines) ↔
      device ∈ r.first.names ∨ ss ≠ [] ∧ device = "IFACE".toList := by
  -- the first header is dropped, and those of the later samples are not
  have hthird : ((networkSection r.lines).drop 1).map (field 3) =
      s.rows.map Row.name ++
        ((ss.flatMap fun x => [] :: "IFACE".toList :: x.rows.map Row.name) ++ [[]]) := by
    have hrows : (s.rows.map fun row => (Item.row row : Item networkColumns 7)).map Item.text =
        s.rows.map Row.line := by
      rw [List.map_map]
      rfl
    rw [networkSection_lines r h, sectionItems, List.map_cons, List.drop_one, List.tail_cons,
      List.map_append, List.map_append, List.map_append, List.map_append, hrows, map_field_name,
      field_three_samples]
    rfl
  have hnames : r.first.names = s.rows.map Row.name ++ ss.flatMap fun x => x.rows.map Row.name := by
    simp [Report.names, Report.rows, h, List.map_flatMap]
  rw [devList, forWords, List.mem_filter, mem_sortUnique, hthird, hnames]
  simp only [List.mem_append, List.mem_flatMap, List.mem_cons, hne, List.not_mem_nil, false_or,
    or_false]
  constructor
  · rintro ⟨hrow | ⟨x, hx, rfl | hrow⟩, -⟩
    · exact Or.inl (Or.inl hrow)
    · exact Or.inr ⟨List.ne_nil_of_mem hx, rfl⟩
    · exact Or.inl (Or.inr ⟨x, hx, hrow⟩)
  · intro hlisted
    refine ⟨?_, by simpa using hne⟩
    rcases hlisted with (hrow | ⟨x, hx, hrow⟩) | ⟨hss, rfl⟩
    · exact Or.inl hrow
    · exact Or.inr ⟨x, hx, Or.inr hrow⟩
    · obtain ⟨x, hx⟩ := List.exists_mem_of_ne_nil ss hss
      exact Or.inr ⟨x, hx, Or.inl rfl⟩

end Listed

/-! ### The rows of an interface -/

section Rows

variable {time : List Char} {r : NetworkReport} {threshold : Threshold}

/-- A header is over every threshold, as its columns start with letters. -/
theorem overThreshold_header (h : Header networkColumns) {column : ℕ}
    (hcolumn : column = 6 ∨ column = 7) (device : List Char) :
    overThreshold column threshold.text device h.line = ("IFACE".toList == device) := by
  have hgt : awkGt (field column h.line) threshold.text = true := by
    rcases hcolumn with rfl | rfl
    · rw [h.field_column (i := 3) (by decide)]
      change awkGt "rxkB/s".toList threshold.text = true
      rw [awkGt_of_text (by decide), decide_eq_true_iff]
      exact lt_of_looksNumeric threshold.numeric (by decide)
    · rw [h.field_column (i := 4) (by decide)]
      change awkGt "txkB/s".toList threshold.text = true
      rw [awkGt_of_text (by decide), decide_eq_true_iff]
      exact lt_of_looksNumeric threshold.numeric (by decide)
  rw [overThreshold, hgt, Header.field_iface, awkEq_of_text (by decide), Bool.and_true]

theorem overThreshold_blank (column : ℕ) (device : List Char) :
    overThreshold column threshold.text device [] =
      (awkEq [] device && decide (numValue threshold.text < 0)) := by
  rw [overThreshold, field_nil, field_nil, awkGt_of_numeric rfl threshold.numeric]
  rfl

theorem overThreshold_row (row : Row 7) {i : ℕ} (hi : i < 7) (device : List Char) :
    overThreshold (i + 4) threshold.text device row.line =
      (awkEq row.name device && decide (numValue threshold.text < row.value i)) := by
  rw [overThreshold, row.field_name, row.field_value,
    awkGt_of_numeric (fieldNumeric_of_looksNumeric (row.looksNumeric_value hi)) threshold.numeric]
  rfl

variable {s : Sample networkColumns 7} {ss : List (Sample networkColumns 7)}

theorem filterMap_row?_sectionItems (h : r.first.samples = s :: ss) :
    (sectionItems s ss).filterMap Item.row? = r.first.rows := by
  rw [sectionItems, List.filterMap_cons_none rfl, List.filterMap_append, List.filterMap_append,
    filterMap_row?_map, filterMap_row?_samples, Report.rows, h, List.flatMap_cons]
  simp [Item.row?]

theorem mem_sectionItems_row (h : r.first.samples = s :: ss) (row : Row 7) :
    .row row ∈ sectionItems s ss ↔ row ∈ r.first.rows := by
  rw [← filterMap_row?_sectionItems h, mem_filterMap_row?]

/-- **The rows that are picked** are those over the threshold when the headers and the blank
lines are not picked, and the rows are told apart by their names. -/
theorem pickedInterface_iff (h : r.first.samples = s :: ss) {i : ℕ} (hi : i = 2 ∨ i = 3)
    (device : List Char) :
    (∀ x ∈ sectionItems s ss, overThreshold (i + 4) threshold.text device x.text =
        x.hasRow (isOver threshold (fun row => row.value i) device)) ↔
      "IFACE".toList ≠ device ∧
      (numValue threshold.text < 0 → awkEq [] device = false) ∧
      ∀ row ∈ r.first.rows, numValue threshold.text < row.value i →
        (awkEq row.name device = true ↔ row.name = device) := by
  have hcolumn : i + 4 = 6 ∨ i + 4 = 7 := by omega
  have hlt : i < 7 := by omega
  -- the lines that are no rows are the header and the blank line in front of it
  constructor
  · intro hpicked
    refine ⟨?_, fun hneg => ?_, fun row hrow hover => ?_⟩
    · have hheader := hpicked (.header s.header) List.mem_cons_self
      rw [Item.text, overThreshold_header _ hcolumn] at hheader
      simpa [Item.hasRow] using hheader
    · have hblank := hpicked .blank (by simp [sectionItems])
      rw [Item.text, overThreshold_blank] at hblank
      simpa [Item.hasRow, hneg] using hblank
    · have hline := hpicked (.row row) ((mem_sectionItems_row h row).mpr hrow)
      rw [Item.text, overThreshold_row row hlt, Item.hasRow, isOver, Bool.eq_iff_iff] at hline
      simpa [hover] using hline
  · rintro ⟨hname, hneg, hrows⟩ x hx
    cases x with
    | banner b => simp [sectionItems, Sample.items] at hx
    | average a => simp [sectionItems, Sample.items] at hx
    | blank =>
      rw [Item.text, overThreshold_blank]
      by_cases hlow : numValue threshold.text < 0
      · simp [Item.hasRow, hneg hlow]
      · simp [Item.hasRow, hlow]
    | header x =>
      rw [Item.text, overThreshold_header x hcolumn]
      simpa [Item.hasRow] using hname
    | row row =>
      have hrow := (mem_sectionItems_row h row).mp hx
      rw [Item.text, overThreshold_row row hlt, Item.hasRow, isOver, Bool.eq_iff_iff]
      by_cases hover : numValue threshold.text < row.value i
      · simpa [hover] using hrows row hrow hover
      · simp [hover]

/-- A result is right when the right rows are picked. -/
theorem checkRows_section_iff (threshold : Threshold) (h : r.first.samples = s :: ss) (i : ℕ)
    (device logName : List Char) :
    checkRows (overThreshold (i + 4) threshold.text device) 1 (networkSection r.lines) device
        logName =
      Result.ofRows device logName r.first.headerLine
        ((r.first.rows.filter (isOver threshold (fun row => row.value i) device)).map Row.line) ↔
      ∀ x ∈ sectionItems s ss, overThreshold (i + 4) threshold.text device x.text =
        x.hasRow (isOver threshold (fun row => row.value i) device) := by
  have hheader : r.first.headerLine = s.header.line := by
    rw [Report.headerLine, h]
  have hlines : networkSection r.lines =
      s.header.line ::
        (s.rows.map Item.row ++ (ss.flatMap Sample.items ++ [Item.blank])).map Item.text :=
    networkSection_lines r h
  rw [hheader, hlines, checkRows_one_iff, ← hlines, networkSection_lines r h,
    ← filterMap_row?_sectionItems h, map_line_filter]
  exact filter_map_eq_iff _ _ Item.text (sectionItems s ss)

end Rows

/-- The result for an interface is right. -/
theorem deviceRight_iff {time : List Char} {r : NetworkReport} {threshold : Threshold}
    {s : Sample networkColumns 7} {ss : List (Sample networkColumns 7)}
    (h : r.first.samples = s :: ss) {device : List Char} (hdevice : device ∈ r.first.names) :
    (networkMode time r.lines threshold).filter (fun x => x.1.device == device) =
        [(counterResult time r threshold rxkB "_rxkB_".toList device,
          counterResult time r threshold txkB "_txkB_".toList device)] ↔
      "IFACE".toList ≠ device ∧
      (numValue threshold.text < 0 → awkEq [] device = false) ∧
      ∀ row ∈ r.first.rows,
        numValue threshold.text < rxkB row ∨ numValue threshold.text < txkB row →
        (awkEq row.name device = true ↔ row.name = device) := by
  have hlisted : device ∈ devList (networkSection r.lines) := by
    obtain ⟨row, -, rfl⟩ := List.mem_map.mp hdevice
    exact (mem_devList_iff h row.name_ne_nil).mpr (Or.inl hdevice)
  have hnodup : (devList (networkSection r.lines)).Nodup := (nodup_sortUnique _).filter _
  have hrx := checkRows_section_iff threshold h 2 device
    (networkLogName time threshold device "_rxkB_".toList)
  have htx := checkRows_section_iff threshold h 3 device
    (networkLogName time threshold device "_txkB_".toList)
  rw [pickedInterface_iff h (Or.inl rfl)] at hrx
  rw [pickedInterface_iff h (Or.inr rfl)] at htx
  rw [networkMode, filter_results_iff hnodup fun _ => rfl, checkDevice, Prod.mk.injEq]
  constructor
  · rintro ⟨-, hboth⟩
    obtain ⟨hname, hneg, hrxRows⟩ := hrx.mp hboth.1
    obtain ⟨-, -, htxRows⟩ := htx.mp hboth.2
    exact ⟨hname, hneg, fun row hrow hover =>
      hover.elim (hrxRows row hrow) (htxRows row hrow)⟩
  · rintro ⟨hname, hneg, hrows⟩
    exact ⟨hlisted, hrx.mpr ⟨hname, hneg, fun row hrow hover => hrows row hrow (Or.inl hover)⟩,
      htx.mpr ⟨hname, hneg, fun row hrow hover => hrows row hrow (Or.inr hover)⟩⟩

/-- There are no results besides unless a header has been taken for an interface. -/
theorem noOthers_iff {time : List Char} {r : NetworkReport} {threshold : Threshold}
    {s : Sample networkColumns 7} {ss : List (Sample networkColumns 7)}
    (h : r.first.samples = s :: ss) :
    (∀ x ∈ networkMode time r.lines threshold, x.1.device ∈ r.first.names) ↔
      (ss ≠ [] → "IFACE".toList ∈ r.first.names) := by
  constructor
  · intro hall hss
    have hlisted : "IFACE".toList ∈ devList (networkSection r.lines) :=
      (mem_devList_iff h (by decide)).mpr (Or.inr ⟨hss, rfl⟩)
    exact hall _ (List.mem_map_of_mem hlisted)
  · intro hnone x hx
    obtain ⟨device, hdevice, rfl⟩ := List.mem_map.mp hx
    have hne : device ≠ [] := by simpa using (List.mem_filter.mp hdevice).2
    rcases (mem_devList_iff h hne).mp hdevice with hname | ⟨hss, rfl⟩
    · exact hname
    · exact hnone hss

/-- **All results are right exactly when** the report meets the condition: the columns
are the right ones, and what goes wrong are the lines that are no rows. -/
theorem networkRight_iff (time : List Char) (r : NetworkReport) (threshold : Threshold) :
    NetworkRight time r threshold ↔ NetworkCondition r threshold := by
  cases h : r.first.samples with
  | nil =>
    have hrows : r.first.rows = [] := by rw [Report.rows, h]; rfl
    have hnames : r.first.names = [] := by rw [Report.names, hrows]; rfl
    have hnothing : networkMode time r.lines threshold = [] := by
      rw [networkMode, networkSection_nil r h]
      rfl
    constructor
    · intro _
      refine ⟨by simp [h], by simp [hnames], by simp [hrows], by simp [hnames]⟩
    · intro _
      exact ⟨by simp [hnames], by simp [hnothing]⟩
  | cons s ss =>
    rw [NetworkRight, noOthers_iff h]
    constructor
    · rintro ⟨hright, hothers⟩
      have hdevices := fun device hdevice => (deviceRight_iff h hdevice).mp (hright device hdevice)
      have hheader : "IFACE".toList ∉ r.first.names := fun hin => (hdevices _ hin).1 rfl
      refine ⟨?_, hheader, ?_, fun hneg device hdevice => (hdevices device hdevice).2.1 hneg⟩
      · -- a second sample has a header, which passes for a row of an interface `IFACE`
        by_contra hmore
        rw [h, List.length_cons] at hmore
        exact hheader (hothers (by rintro rfl; simp at hmore))
      · intro row hrow hover device hdevice heq
        exact ((hdevices device hdevice).2.2 row hrow hover).mp heq
    · intro hc
      have hone := hc.oneSample
      rw [h, List.length_cons, Nat.succ_le_succ_iff, Nat.le_zero, List.length_eq_zero_iff] at hone
      refine ⟨fun device hdevice => (deviceRight_iff h hdevice).mpr ⟨?_, ?_, ?_⟩,
        fun hss => absurd hone hss⟩
      · rintro rfl
        exact hc.noHeader hdevice
      · exact fun hneg => hc.nonneg hneg device hdevice
      · intro row hrow hover
        refine ⟨hc.apart row hrow hover device hdevice, ?_⟩
        rintro rfl
        exact awkEq_self _

/-- A report of two samples on a machine with one interface. -/
def twoSampleReport : NetworkReport where
  first :=
    { banner := .fourCpus
      samples := [
        { header := .ofText networkColumns
            ("12:00:01 AM  IFACE  rxpck/s  txpck/s  rxkB/s  txkB/s  rxcmp/s  txcmp/s  " ++
              "rxmcst/s").toList
            (by decide +kernel)
          rows := [
            .ofText 7 "12:00:02 AM  eth0  9.00  9.00  5.00  5.00  0.00  0.00  0.00".toList
              (by decide +kernel)] },
        { header := .ofText networkColumns
            ("12:00:02 AM  IFACE  rxpck/s  txpck/s  rxkB/s  txkB/s  rxcmp/s  txcmp/s  " ++
              "rxmcst/s").toList
            (by decide +kernel)
          rows := [
            .ofText 7 "12:00:03 AM  eth0  9.00  9.00  5.00  5.00  0.00  0.00  0.00".toList
              (by decide +kernel)] }]
      averages := [⟨"Average:  eth0  9.00  9.00  5.00  5.00  0.00  0.00  0.00".toList,
        by decide +kernel⟩] }
  others := []
  average_line := by decide +kernel
  averages_of_samples := by decide +kernel

/-- The header of the second sample is announced as the interface `IFACE`. -/
theorem not_networkRight_twoSamples :
    ¬ NetworkRight [] twoSampleReport ⟨"1024".toList, by decide⟩ := by
  intro h
  have hlisted : "IFACE".toList ∈ twoSampleReport.first.names :=
    (noOthers_iff rfl).mp h.2 (List.cons_ne_nil _ _)
  revert hlisted
  decide

end LinuxNote.ThresholdCheck
