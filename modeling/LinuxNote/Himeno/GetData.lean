import LinuxNote.Base.AwkPrint
import LinuxNote.Base.Loop
import LinuxNote.Base.Words
import Mathlib.Data.List.Nodup
import Mathlib.Logic.Function.Basic

/-!
# The table of MFLOPS

`get_data.sh` prints a row for each number of processes, with a cell for each run that has
results for it, and an average at its end.  The cells of a row are put one behind the other,
while the header has a column for each word of the output of `ls`.

A cell remembers the run that it comes from.  Cells and averages are numbers with two decimals:
the script rounds each result before it adds it to a cell, but the average is that of the results
themselves, divided by the configured number of runs and rounded at last.  Between the roundings
numbers are exact.

## Main definitions

* `LogTree` — the log files of all runs.
* `getData` — the header and the rows.
* `RowRight` — each cell of a row stands under the header of its run, and has the sum of its
  results with two decimals; the average is that of the cells.
* `TableCondition` — what the log files must be like.

## Main results

* `mflops_eq` — what the loop over the processes makes of a cell.
* `str_eq` — the cells of a row.
* `mflopsTableRight_iff` — **the table is right exactly when** the log files meet the condition.
-/

namespace LinuxNote.Himeno.GetData

open AwkNumber ShellText

/-! ### Log files -/

/-- A log file with the result of one process: among its lines there is exactly one that `grep`
finds. -/
structure LogFile where
  lines : List (List Char)
  line : List Char
  grep_eq : lines.filter (occursIn "MFLOPS measured :".toList) = [line]

/-- A run: `tazyu p` are the log files `himeno-0.log`, `himeno-1.log`, … of its directory
`p-tazyu`. -/
structure Run where
  name : List Char
  tazyu : ℕ → Option (List LogFile)
  length_eq : ∀ p logs, tazyu p = some logs → logs.length = p

/-- `[ -d $LOG_DIR/$SUBDIR/$PROC-tazyu ]`. -/
def Run.has (run : Run) (p : ℕ) : Bool := (run.tazyu p).isSome

/-- The log directory, with the runs in the order of `ls`.  No name has special characters, which
the shell or `echo -e` would replace, and none is an option of `echo`. -/
structure LogTree where
  runs : List Run
  nodup : (runs.map Run.name).Nodup
  plain : ∀ run ∈ runs, (run.name.all fun c => !(['*', '?', '[', '\\'].contains c)) = true ∧
    run.name.head? ≠ some '-'

/-- What `common.sh` sets. -/
structure Settings where
  testMode : ℕ
  testTimes : ℕ
  tazyuNative : List ℕ
  tazyuGuest : List ℕ

/-- `TAZYU`. -/
def Settings.tazyu (conf : Settings) : List ℕ :=
  if conf.testMode = 0 then conf.tazyuNative else conf.tazyuGuest

/-! ### The table -/

/-- `printf("%.2f", x)`. -/
def twoDecimals (x : ℚ) : ℚ :=
  if x < 0 then -(roundEven (-x * 100) / 100) else roundEven (x * 100) / 100

/-- `grep "MFLOPS measured :" $FILE | awk '{printf("%.2f", $4)}'`: the fourth word of the line,
with two decimals; a file that is missing counts as 0. -/
def result (file : Option LogFile) : ℚ :=
  match file with
  | none => 0
  | some log => twoDecimals (numValue (field 4 log.line))

/-- `MFLOPS`: the sum over the processes, which is rounded to two decimals with each file that is
added. -/
def mflops (logs : List LogFile) (proc : ℕ) : ℚ :=
  Loop.forEach (fun sum i => twoDecimals (sum + result logs[i]?)) proc 0

/-- A column of a row: the tabulators in front of it say in which place it stands, and nothing but
its place says which run it is from. -/
inductive Column where
  | blank
  /-- The result of a run. -/
  | cell (run : List Char) (mflops : ℚ)
  | avg (mflops : ℚ)
  deriving DecidableEq

/-- The rows that are being built, by number of processes. -/
abbrev Str := ℕ → List Column

section Table

variable (conf : Settings) (tree : LogTree)

/-- The results of a run, up to the first number of processes that it lacks: there the script
leaves the loop over `TAZYU`, not only the turn. -/
def appendRun (run : Run) : List ℕ → Str → Str
  | [], str => str
  | proc :: procs, str =>
    match run.tazyu proc with
    | none => str
    | some logs =>
      appendRun run procs
        (Function.update str proc (str proc ++ [.cell run.name (mflops logs proc)]))

/-- `SUBDIRS`: the words of what `ls` prints, which are the names of the runs unless one of them
has a blank in it. -/
def subdirs : List (List Char) := tree.runs.flatMap fun run => shellWords run.name

/-- One turn of the loop over `SUBDIRS`; a word that no directory has for its name is passed
over. -/
def appendDir (str : Str) (subdir : List Char) : Str :=
  match tree.runs.find? fun run => run.name == subdir with
  | none => str
  | some run => appendRun run conf.tazyu str

/-- `STR` behind the loops. -/
def str : Str := (subdirs tree).foldl (appendDir conf tree) fun _ => []

/-- The log files of a number of processes, in all runs. -/
def allLogs (proc : ℕ) : List LogFile := tree.runs.flatMap fun run => (run.tazyu proc).getD []

/-- The sum of all results of a number of processes. -/
def total (proc : ℕ) : ℚ := ((allLogs tree proc).map fun log => numValue (field 4 log.line)).sum

/-- The average, unless `awk` divides by zero: the sum of all files of a number of processes over
the configured number of runs, however many runs there are. -/
def average (proc : ℕ) : Option Column :=
  if conf.testTimes = 0 then none else some (.avg (twoDecimals (total tree proc / conf.testTimes)))

/-- A row: the columns behind `tazyu=`, which the tabulators separate.  A run without results
leaves no empty column in it. -/
def getRow (proc : ℕ) : List Column :=
  let cells := str conf tree proc
  (if cells = [] then [.blank] else cells) ++ (average conf tree proc).toList

/-- The header and the rows. -/
def getData : List (List Char) × List (ℕ × List Column) :=
  (subdirs tree ++ ["AVG".toList], conf.tazyu.map fun proc => (proc, getRow conf tree proc))

/-! ### What the table should be -/

/-- The results of the processes of a run. -/
def Run.values (run : Run) (proc : ℕ) : List ℚ :=
  ((run.tazyu proc).getD []).map fun log => numValue (field 4 log.line)

/-- The sum over the processes of a run, with two decimals, which is rounded once from the values
themselves. -/
def Run.shown (run : Run) (proc : ℕ) : ℚ := twoDecimals (run.values proc).sum

/-- What belongs under the header of a run: its sum, or nothing if the run has no results for the
number of processes. -/
def Run.column (run : Run) (proc : ℕ) : Column :=
  if run.has proc then .cell run.name (run.shown proc) else .blank

/-- The mean of the cells of a row, of the runs that have results for the number of processes and
as the cells show them. -/
def mean (proc : ℕ) : ℚ :=
  ((tree.runs.filter fun run => run.has proc).map fun run => run.shown proc).sum /
    (tree.runs.countP fun run => run.has proc)

/-- A row has under the header of each run what belongs there, and the mean of its cells behind
them, with two decimals as well.  If no run has results there is no mean, but there must be
nothing under the headers. -/
def RowRight (proc : ℕ) (columns : List Column) : Prop :=
  if ∃ run ∈ tree.runs, run.has proc then
    columns = tree.runs.map (fun run => run.column proc) ++ [.avg (twoDecimals (mean tree proc))]
  else ∀ j < tree.runs.length, columns.getD j .blank = .blank

/-- There is a header for each run, and all rows are right, so that a reader finds each result
under the run that it comes from. -/
structure TableRight : Prop where
  header : (getData conf tree).1 = tree.runs.map Run.name ++ ["AVG".toList]
  rows : ∀ row ∈ (getData conf tree).2, RowRight tree row.1 row.2

/-- Log files that the script can deal with, for each number of processes.  Each field is one way
in which the script can go wrong, and the script checks none of them. -/
structure TableCondition : Prop where
  /-- The name of a run is one word for the shell. -/
  words : ∀ run ∈ tree.runs, IsOneWord run.name
  /-- If a run has results, all runs have, and none lacks an earlier entry of `TAZYU`. -/
  reached : ∀ proc ∈ conf.tazyu, (∃ run ∈ tree.runs, run.has proc) →
    ∀ run ∈ tree.runs, (conf.tazyu.takeWhile run.has).count proc = 1
  /-- It makes no difference whether the results of a run are rounded before they are added or
  afterwards. -/
  cells : ∀ proc ∈ conf.tazyu, (∃ run ∈ tree.runs, run.has proc) →
    ∀ run ∈ tree.runs, ((run.values proc).map twoDecimals).sum = run.shown proc
  /-- The results over the configured number of runs are the mean of the cells, as far as two
  decimals show it. -/
  times : ∀ proc ∈ conf.tazyu, (∃ run ∈ tree.runs, run.has proc) →
    conf.testTimes ≠ 0 ∧
      twoDecimals (total tree proc / conf.testTimes) = twoDecimals (mean tree proc)
  /-- If no run has results, the average does not get under the header of a run. -/
  none : ∀ proc ∈ conf.tazyu, (∀ run ∈ tree.runs, run.has proc = false) →
    tree.runs.length ≤ 1 ∨ conf.testTimes = 0

end Table

/-! ### A cell -/

/-- A number with two decimals. -/
def IsHundredths (x : ℚ) : Prop := ∃ n : ℤ, x = n / 100

theorem isHundredths_twoDecimals (x : ℚ) : IsHundredths (twoDecimals x) := by
  unfold twoDecimals
  split
  · exact ⟨-(roundEven (-x * 100) : ℤ), by push_cast; ring⟩
  · exact ⟨roundEven (x * 100), by push_cast; ring⟩

theorem IsHundredths.add {x y : ℚ} (hx : IsHundredths x) (hy : IsHundredths y) :
    IsHundredths (x + y) := by
  obtain ⟨m, rfl⟩ := hx
  obtain ⟨n, rfl⟩ := hy
  exact ⟨m + n, by push_cast; ring⟩

/-- A number with two decimals is printed as it is. -/
theorem twoDecimals_of_isHundredths {x : ℚ} (h : IsHundredths x) : twoDecimals x = x := by
  obtain ⟨n, rfl⟩ := h
  have hround : ∀ k : ℕ, ∀ y : ℚ, y * 100 = k → roundEven (y * 100) = k := by
    intro k y hy
    rw [hy, roundEven_natCast]
  unfold twoDecimals
  split
  · next hneg =>
    have hn : n < 0 := by
      by_contra hn
      rw [not_lt] at hn
      have hpos : (0 : ℚ) ≤ n / 100 := by positivity
      exact absurd hneg (not_lt.mpr hpos)
    obtain ⟨k, rfl⟩ := Int.exists_eq_neg_ofNat hn.le
    rw [hround k _ (by push_cast; ring)]
    push_cast
    ring
  · next hpos =>
    have hn : 0 ≤ n := by
      by_contra hn
      rw [not_le] at hn
      have hlt : (n : ℚ) < 0 := by exact_mod_cast hn
      exact hpos (by linarith)
    obtain ⟨k, rfl⟩ := Int.eq_ofNat_of_zero_le hn
    rw [hround k _ (by push_cast; ring)]
    push_cast
    ring

/-- **A cell** is the sum of the rounded results: as each of them has two decimals, the later
roundings change nothing. -/
theorem mflops_eq {run : Run} {proc : ℕ} {logs : List LogFile} (h : run.tazyu proc = some logs) :
    mflops logs proc = ((run.values proc).map twoDecimals).sum := by
  have hlength := run.length_eq proc logs h
  have hinv := Loop.forEach_inv (f := fun sum i => twoDecimals (sum + result logs[i]?))
    (n := proc) (s := 0)
    (fun i s => IsHundredths s ∧
      s = ((logs.take i).map fun log => twoDecimals (numValue (field 4 log.line))).sum)
    ⟨⟨0, by simp⟩, by simp⟩ (by
      rintro i hi s ⟨hs, hsum⟩
      have hlt : i < logs.length := by omega
      have hresult : result logs[i]? = twoDecimals (numValue (field 4 logs[i].line)) := by
        rw [List.getElem?_eq_getElem hlt]
        rfl
      have hadd : IsHundredths (s + result logs[i]?) := by
        rw [hresult]
        exact hs.add (isHundredths_twoDecimals _)
      rw [twoDecimals_of_isHundredths hadd]
      refine ⟨hadd, ?_⟩
      rw [hresult, hsum, ← List.take_append_getElem hlt, List.map_append, List.sum_append]
      simp)
  rw [mflops, hinv.2, List.take_of_length_le hlength.le, Run.values, h, Option.getD_some,
    List.map_map]
  rfl

/-! ### A row -/

section Row

variable {conf : Settings} {tree : LogTree}

/-- The run that a cell comes from. -/
def Column.run : Column → List Char
  | .cell run _ => run
  | _ => []

/-- The cell of a run with results. -/
def Run.cell (proc : ℕ) (run : Run) : Column :=
  .cell run.name ((run.values proc).map twoDecimals).sum

/-- What one run puts into a row: a cell for each time that it gets to the number of
processes. -/
theorem appendRun_apply (run : Run) (procs : List ℕ) (s : Str) (proc : ℕ) :
    appendRun run procs s proc =
      s proc ++ List.replicate ((procs.takeWhile run.has).count proc) (run.cell proc) := by
  induction procs generalizing s with
  | nil => simp [appendRun]
  | cons p ps ih =>
    rw [appendRun]
    cases hp : run.tazyu p with
    | none =>
      have hlacks : ¬ run.has p = true := by simp [Run.has, hp]
      rw [List.takeWhile_cons_of_neg hlacks]
      simp
    | some logs =>
      have hhas : run.has p = true := by simp [Run.has, hp]
      simp only
      rw [ih, List.takeWhile_cons_of_pos hhas, List.count_cons]
      by_cases heq : p = proc
      · subst heq
        rw [Function.update_self, mflops_eq hp, List.append_assoc, beq_self_eq_true, if_pos rfl,
          Nat.add_comm, List.replicate_add]
        rfl
      · rw [Function.update_of_ne (Ne.symm heq), if_neg (by simpa using heq), Nat.add_zero]

/-- The directory of a run is found by its name. -/
theorem find?_name {run : Run} (h : run ∈ tree.runs) :
    (tree.runs.find? fun r => r.name == run.name) = some run := by
  cases hfind : tree.runs.find? fun r => r.name == run.name with
  | none => exact absurd (List.find?_eq_none.mp hfind run h) (by simp)
  | some r =>
    have hname : r.name = run.name := by simpa using List.find?_some hfind
    rw [List.inj_on_of_nodup_map tree.nodup (List.mem_of_find?_eq_some hfind) h hname]

/-- **The cells of a row**, if the loop gets the names of the runs: each run has a cell for each
time that the number of processes is reached in `TAZYU`. -/
theorem str_eq (conf : Settings) (hwords : subdirs tree = tree.runs.map Run.name) (proc : ℕ) :
    str conf tree proc = tree.runs.flatMap fun run =>
      List.replicate ((conf.tazyu.takeWhile run.has).count proc) (run.cell proc) := by
  have hruns : str conf tree =
      tree.runs.foldl (fun s run => appendRun run conf.tazyu s) fun _ => [] := by
    rw [str, hwords, List.foldl_map]
    apply List.foldl_ext
    intro s run hrun
    rw [appendDir, find?_name hrun]
  have hloop := Loop.foldl_append (f := fun s run => appendRun run conf.tazyu s) (fun _ => True)
    (fun s : Str => s proc) _ tree.runs
    (fun run _ s _ => ⟨trivial, appendRun_apply run conf.tazyu s proc⟩) (s := fun _ => []) trivial
  rw [hruns, hloop.2, List.nil_append]

/-- In a list without repetitions, each element is there once exactly when each was put there
once. -/
theorem flatMap_replicate_iff {α β : Type*} {g : α → β} (c : α → ℕ) {xs : List α}
    (h : (xs.map g).Nodup) :
    (xs.flatMap fun x => List.replicate (c x) (g x)) = xs.map g ↔ ∀ x ∈ xs, c x = 1 := by
  induction xs with
  | nil => simp
  | cons x xs ih =>
    rw [List.map_cons, List.nodup_cons] at h
    rw [List.flatMap_cons, List.map_cons, List.forall_mem_cons, ← ih h.2]
    have hnot : (xs.flatMap fun x => List.replicate (c x) (g x)) ≠ g x :: xs.map g := by
      intro heq
      have hmem : g x ∈ xs.flatMap fun x => List.replicate (c x) (g x) := by
        rw [heq]
        exact List.mem_cons_self
      obtain ⟨y, hy, hin⟩ := List.mem_flatMap.mp hmem
      rw [List.eq_of_mem_replicate hin] at h
      exact h.1 (List.mem_map_of_mem hy)
    rcases hc : c x with _ | _ | k
    · constructor
      · intro heq
        exact absurd heq hnot
      · rintro ⟨hone, -⟩
        exact absurd hone (by decide)
    · simp
    · constructor
      · intro heq
        -- the second copy stands where another element should be
        rw [List.replicate_succ, List.replicate_succ, List.cons_append, List.cons_append,
          List.cons_inj_right] at heq
        have hmem : g x ∈ xs.map g := by
          rw [← heq]
          exact List.mem_cons_self
        exact absurd hmem h.1
      · rintro ⟨hone, -⟩
        omega

/-- A run with results gets to them if it lacks no earlier entry. -/
theorem has_of_count {run : Run} {procs : List ℕ} {proc : ℕ}
    (h : (procs.takeWhile run.has).count proc ≠ 0) : run.has proc = true := by
  have hmem : proc ∈ procs.takeWhile run.has := by
    rw [← List.count_pos_iff]
    exact Nat.pos_of_ne_zero h
  exact List.mem_takeWhile_imp hmem

/-- A row has nothing but cells of runs with results. -/
theorem mem_str (hwords : subdirs tree = tree.runs.map Run.name) {proc : ℕ} {column : Column}
    (h : column ∈ str conf tree proc) :
    ∃ run ∈ tree.runs, run.has proc = true ∧ column = run.cell proc := by
  rw [str_eq conf hwords] at h
  obtain ⟨run, hrun, hin⟩ := List.mem_flatMap.mp h
  obtain ⟨hcount, rfl⟩ := List.mem_replicate.mp hin
  exact ⟨run, hrun, has_of_count hcount, rfl⟩

/-- If every run has been reached once, a row has one cell for each. -/
theorem str_eq_cells_iff (hwords : subdirs tree = tree.runs.map Run.name) (proc : ℕ) :
    str conf tree proc = tree.runs.map (Run.cell proc) ↔
      ∀ run ∈ tree.runs, (conf.tazyu.takeWhile run.has).count proc = 1 := by
  have hnodup : (tree.runs.map (Run.cell proc)).Nodup := by
    have hname : (tree.runs.map (Run.cell proc)).map Column.run = tree.runs.map Run.name := by
      rw [List.map_map]
      rfl
    exact List.Nodup.of_map _ (hname ▸ tree.nodup)
  rw [str_eq conf hwords]
  exact flatMap_replicate_iff _ hnodup

/-- **The cells are right and stand under their headers exactly when** every run has been reached
once and the rounding of its results does no harm. -/
theorem str_eq_columns_iff (hwords : subdirs tree = tree.runs.map Run.name) (proc : ℕ) :
    str conf tree proc = tree.runs.map (fun run => run.column proc) ↔
      (∀ run ∈ tree.runs, (conf.tazyu.takeWhile run.has).count proc = 1) ∧
        ∀ run ∈ tree.runs, ((run.values proc).map twoDecimals).sum = run.shown proc := by
  have hcolumn : ∀ run : Run, run.has proc = true →
      (run.cell proc = run.column proc ↔
        ((run.values proc).map twoDecimals).sum = run.shown proc) := by
    intro run hhas
    rw [Run.column, if_pos hhas, Run.cell, Column.cell.injEq]
    exact and_iff_right rfl
  constructor
  · intro h
    have hall : ∀ run ∈ tree.runs, run.has proc = true := by
      intro run hrun
      have hin : run.column proc ∈ str conf tree proc := by
        rw [h]
        exact List.mem_map_of_mem hrun
      obtain ⟨run', -, -, heq⟩ := mem_str hwords hin
      by_contra hlacks
      rw [Run.column, if_neg hlacks, Run.cell] at heq
      exact Column.noConfusion heq
    -- the cells tell which run they come from, whatever their numbers are
    have hnames := congrArg (List.map Column.run) h
    rw [str_eq conf hwords, List.map_flatMap, List.map_map] at hnames
    simp only [List.map_replicate] at hnames
    have hcolumns : tree.runs.map (Column.run ∘ fun run => run.column proc) =
        tree.runs.map Run.name := by
      apply List.map_congr_left
      intro run hrun
      rw [Function.comp_apply, Run.column, if_pos (hall run hrun)]
      rfl
    rw [hcolumns] at hnames
    have hcount := (flatMap_replicate_iff _ tree.nodup).mp hnames
    rw [(str_eq_cells_iff hwords proc).mpr hcount] at h
    exact ⟨hcount, fun run hrun => (hcolumn run (hall run hrun)).mp (List.map_inj_left.mp h run hrun)⟩
  · rintro ⟨hcount, hsums⟩
    rw [(str_eq_cells_iff hwords proc).mpr hcount]
    apply List.map_congr_left
    intro run hrun
    exact (hcolumn run (has_of_count (by rw [hcount run hrun]; decide))).mpr (hsums run hrun)

/-- When the average is the mean of the cells. -/
theorem average_eq_iff (proc : ℕ) (a : ℚ) :
    average conf tree proc = some (.avg a) ↔
      conf.testTimes ≠ 0 ∧ twoDecimals (total tree proc / conf.testTimes) = a := by
  unfold average
  by_cases htimes : conf.testTimes = 0
  · rw [if_pos htimes]
    simp [htimes]
  · rw [if_neg htimes, Option.some_inj, Column.avg.injEq]
    simp [htimes]

/-- No cell is an average. -/
theorem avg_notMem_cells (hwords : subdirs tree = tree.runs.map Run.name) {proc : ℕ} (a : ℚ) :
    Column.avg a ∉ if str conf tree proc = [] then [.blank] else str conf tree proc := by
  intro hin
  split at hin
  · exact Column.noConfusion (List.mem_singleton.mp hin)
  · obtain ⟨run, -, -, heq⟩ := mem_str hwords hin
    exact Column.noConfusion heq

/-- **A row with results is right exactly when** its cells and its average are: every run is
reached once, rounding early makes no difference, and the average is that of the cells. -/
theorem rowRight_iff_of_has (hwords : subdirs tree = tree.runs.map Run.name) {proc : ℕ}
    (hsome : ∃ run ∈ tree.runs, run.has proc = true) :
    RowRight tree proc (getRow conf tree proc) ↔
      (∀ run ∈ tree.runs, (conf.tazyu.takeWhile run.has).count proc = 1) ∧
      (∀ run ∈ tree.runs, ((run.values proc).map twoDecimals).sum = run.shown proc) ∧
      (conf.testTimes ≠ 0 ∧
        twoDecimals (total tree proc / conf.testTimes) = twoDecimals (mean tree proc)) := by
  obtain ⟨run, hrun, hhas⟩ := hsome
  have hruns : tree.runs ≠ [] := List.ne_nil_of_mem hrun
  have hcolumn : run.column proc = .cell run.name (run.shown proc) := by
    rw [Run.column, if_pos hhas]
  rw [RowRight, if_pos ⟨run, hrun, hhas⟩, getRow, ← and_assoc, ← str_eq_columns_iff hwords,
    ← average_eq_iff]
  constructor
  · intro h
    -- the last column is the mean, so it is no cell
    have havg : average conf tree proc = some (.avg (twoDecimals (mean tree proc))) := by
      cases hcase : average conf tree proc with
      | none =>
        rw [hcase, Option.toList_none, List.append_nil] at h
        exact absurd (h ▸ List.mem_append_right _ (List.mem_singleton_self _))
          (avg_notMem_cells hwords (twoDecimals (mean tree proc)))
      | some a =>
        rw [hcase, Option.toList_some] at h
        rw [(List.cons.inj (List.append_inj' h rfl).2).1]
    rw [havg, Option.toList_some] at h
    have hcells := (List.append_inj' h rfl).1
    -- and there are cells, as there is a run with results
    have hne : str conf tree proc ≠ [] := by
      intro hnil
      have hin : run.column proc ∈ tree.runs.map fun run => run.column proc :=
        List.mem_map_of_mem hrun
      rw [← hcells, if_pos hnil, List.mem_singleton, hcolumn] at hin
      exact Column.noConfusion hin
    rw [if_neg hne] at hcells
    exact ⟨hcells, havg⟩
  · rintro ⟨hcells, havg⟩
    rw [havg, hcells, if_neg (by simpa using hruns)]
    rfl

/-- **A row without results is right exactly when** its average does not get under the header of a
run: it is printed behind a single empty column. -/
theorem rowRight_iff_of_not_has (hwords : subdirs tree = tree.runs.map Run.name) {proc : ℕ}
    (hnone : ∀ run ∈ tree.runs, run.has proc = false) :
    RowRight tree proc (getRow conf tree proc) ↔
      tree.runs.length ≤ 1 ∨ conf.testTimes = 0 := by
  have hsome : ¬ ∃ run ∈ tree.runs, run.has proc = true := by
    rintro ⟨run, hrun, hhas⟩
    rw [hnone run hrun] at hhas
    exact absurd hhas (by decide)
  have hcells : str conf tree proc = [] := by
    rw [List.eq_nil_iff_forall_not_mem]
    intro column hin
    obtain ⟨run, hrun, hhas, -⟩ := mem_str hwords hin
    exact hsome ⟨run, hrun, hhas⟩
  rw [RowRight, if_neg hsome, getRow, hcells, if_pos rfl, average]
  constructor
  · intro h
    by_contra hnot
    rw [not_or, not_le] at hnot
    have hsecond := h 1 hnot.1
    rw [if_neg hnot.2] at hsecond
    exact Column.noConfusion hsecond
  · rintro (hone | hzero) j hj
    · obtain rfl : j = 0 := by omega
      rfl
    · rw [if_pos hzero]
      cases j <;> rfl

/-- **There is a header for each run exactly when** the name of each is one word, as the loop over
`SUBDIRS` splits what `ls` prints. -/
theorem header_iff :
    (getData conf tree).1 = tree.runs.map Run.name ++ ["AVG".toList] ↔
      ∀ run ∈ tree.runs, IsOneWord run.name := by
  have hnames : subdirs tree = (tree.runs.map Run.name).flatMap shellWords := by
    rw [List.flatMap_map]
    rfl
  rw [getData, List.append_left_inj, hnames, flatMap_shellWords_eq_iff, List.forall_mem_map]

/-- The header without its last word has what the loops run over. -/
theorem subdirs_of_header
    (h : (getData conf tree).1 = tree.runs.map Run.name ++ ["AVG".toList]) :
    subdirs tree = tree.runs.map Run.name := List.append_cancel_right h

/-- The script prints one row for each entry of `TAZYU`. -/
theorem forall_rows_iff :
    (∀ row ∈ (getData conf tree).2, RowRight tree row.1 row.2) ↔
      ∀ proc ∈ conf.tazyu, RowRight tree proc (getRow conf tree proc) := by
  rw [getData, List.forall_mem_map]

end Row

/-- **The table is right exactly when** the log files meet the condition: whether a run lacks
results, and whether the configured number of runs is that of the directories, is nothing the
script looks at. -/
theorem mflopsTableRight_iff (conf : Settings) (tree : LogTree) :
    TableRight conf tree ↔ TableCondition conf tree := by
  constructor
  · rintro ⟨hheader, hrows⟩
    have hwords := subdirs_of_header hheader
    have hrow := forall_rows_iff.mp hrows
    have hhas := fun proc hproc hsome => (rowRight_iff_of_has hwords hsome).mp (hrow proc hproc)
    exact {
      words := header_iff.mp hheader
      reached := fun proc hproc hsome => (hhas proc hproc hsome).1
      cells := fun proc hproc hsome => (hhas proc hproc hsome).2.1
      times := fun proc hproc hsome => (hhas proc hproc hsome).2.2
      none := fun proc hproc hnone => (rowRight_iff_of_not_has hwords hnone).mp (hrow proc hproc) }
  · intro h
    have hheader : (getData conf tree).1 = tree.runs.map Run.name ++ ["AVG".toList] :=
      header_iff.mpr h.words
    have hwords := subdirs_of_header hheader
    refine ⟨hheader, forall_rows_iff.mpr fun proc hproc => ?_⟩
    by_cases hsome : ∃ run ∈ tree.runs, run.has proc = true
    · exact (rowRight_iff_of_has hwords hsome).mpr
        ⟨h.reached proc hproc hsome, h.cells proc hproc hsome, h.times proc hproc hsome⟩
    · have hnone : ∀ run ∈ tree.runs, run.has proc = false :=
        fun run hrun => Bool.eq_false_iff.mpr fun hhas => hsome ⟨run, hrun, hhas⟩
      exact (rowRight_iff_of_not_has hwords hnone).mpr (h.none proc hproc hnone)

/-- Two runs, of which only the second has the results of one process. -/
def lateTree : LogTree where
  runs := [
    { name := "11281000".toList
      tazyu := fun _ => none
      length_eq := by simp },
    { name := "11281030".toList
      tazyu := fun p => if p = 1 then
        some [⟨["MFLOPS measured : 100.000000".toList], "MFLOPS measured : 100.000000".toList,
          by decide +kernel⟩] else none
      length_eq := by
        intro p logs h
        split at h
        · next hp =>
          rw [← Option.some.inj h, hp]
          rfl
        · exact absurd h (by simp) }]
  nodup := by decide
  plain := by decide

/-- The result of the second run is shown under the header of the first. -/
theorem not_tableRight_late : ¬ TableRight ⟨0, 2, [1], [1, 2]⟩ lateTree := by
  rintro ⟨hheader, hrows⟩
  have hreached := ((rowRight_iff_of_has (subdirs_of_header hheader)
    ⟨_, List.mem_cons_of_mem _ List.mem_cons_self, rfl⟩).mp
      (forall_rows_iff.mp hrows 1 (by decide))).1 _ List.mem_cons_self
  exact absurd hreached (by decide)

end LinuxNote.Himeno.GetData
