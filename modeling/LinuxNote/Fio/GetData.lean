import LinuxNote.Base.AwkPrint
import LinuxNote.Base.ShellText
import Mathlib.Algebra.BigOperators.Group.List.Basic
import Mathlib.Data.List.Nodup
import Mathlib.Logic.Function.Basic

/-!
# Collecting the results of fio

`getdata-fio.sh` and `getdata-blockio.sh` are called once for each round of a test.  They go
over the jobs of a number of threads, append the results of the round to a file for each job,
and in the last round add up the averages of these files.  The scripts differ in the jobs that
they go over.

The averages go through a file: `print` writes six significant digits of those that are not
whole, and that is what is added up.  In between the numbers are exact, a total is the number
that is handed to the last `print`, and a total of no averages counts as 0.  The title lines of
`fio-result.csv` are left out.

## Main definitions

* `Job`, `fioJobs`, `blockioJobs` — the jobs, and what the scripts go over.
* `getdata` — one call of a script.
* `series` — the calls of all rounds.

## Main results

* `series_result` — **a series that starts with no files** prints the sum of the averages.
-/

namespace LinuxNote.Fio

open AwkNumber ShellText

/-! ### Jobs -/

/-- A job: a disk and a number. -/
structure Job where
  disk : List Char
  number : List Char

/-- What stands between `fio-` and the extension in the names of its files. -/
def Job.name (j : Job) : List Char := j.disk ++ '-' :: j.number

/-- A word that the shell takes as it is: without blanks, at which it would be split, and
without the special characters of file names and of strings. -/
def IsShellWord (w : List Char) : Prop :=
  w ≠ [] ∧ (w.all fun c => !([' ', '\t', '\n', '*', '?', '[', '\\'].contains c)) = true

instance (w : List Char) : Decidable (IsShellWord w) := inferInstanceAs (Decidable (_ ∧ _))

/-- `DISK`.  The entries are names of devices, which the scripts use without quotes, so each of
them is a single word that the shell takes as it is. -/
structure Disks where
  names : List (List Char)
  isWord : ∀ disk ∈ names, IsShellWord disk

theorem Disks.ne_nil (disks : Disks) {disk : List Char} (h : disk ∈ disks.names) : disk ≠ [] :=
  (disks.isWord disk h).1

section Jobs

variable (disks : Disks)

/-- The first job of each of the first disks, one for each thread; a disk that is not there has no
name, and then there is no file for the job either. -/
def firstJobs (tazyu : ℕ) : List Job :=
  (List.range tazyu).map fun tmp => ⟨disks.names.getD tmp [], "1".toList⟩

/-- The same number of jobs on each disk. -/
def equalJobs (mtazyu : ℕ) : List Job :=
  disks.names.flatMap fun disk => (List.range mtazyu).map fun i => ⟨disk, CText.decimal (i + 1)⟩

/-- Four groups of jobs on each disk: the number of a job is that of the group and that in the
group, one behind the other. -/
def groupedJobs (tmep : ℕ) : List Job :=
  disks.names.flatMap fun disk => (List.range 4).flatMap fun i => (List.range tmep).map fun k =>
    ⟨disk, CText.decimal (i + 1) ++ CText.decimal (k + 1)⟩

/-- The jobs that `getdata-fio.sh` goes over. -/
def fioJobs (tazyu : ℕ) : List Job :=
  if tazyu ≤ 4 then firstJobs disks tazyu
  else if tazyu ≤ 16 then equalJobs disks (tazyu / disks.names.length)
  else groupedJobs disks (tazyu / 16)

/-- The jobs that `getdata-blockio.sh` goes over. -/
def blockioJobs (tazyu : ℕ) : List Job :=
  if tazyu ≤ 4 then firstJobs disks tazyu else equalJobs disks (tazyu / disks.names.length)

end Jobs

/-! ### The scripts -/

/-- `grep iops | awk -F ',' '{ print $3 }' | awk -F '=' '{ print $2 }'`, as numbers. -/
def iops (lines : List (List Char)) : List ℚ :=
  (lines.filter (occursIn "iops".toList)).map fun l =>
    numValue (field 1 (fieldBy '=' 2 (fieldBy ',' 3 l)))

/-- `awk '{ sum += $1; } END { print sum/NR}'`, and what the next `awk` reads of it: the average
with the digits that `print` writes, and nothing for an empty file. -/
def awkMean (xs : List ℚ) : List ℚ := if xs = [] then [] else [reread (xs.sum / xs.length)]

/-- The files that are written: the results of each job, the averages of a last round that is going
on, and the totals, as they are read of what `print sum` writes.  They stay from one call to the
next. -/
structure Dir where
  csv : List Char → List ℚ
  tmpsum : List ℚ
  result : List ℚ

/-- There are no files. -/
def Dir.empty : Dir := ⟨fun _ => [], [], []⟩

section Script

variable (last : Bool) (results : List Char → List (List Char))

/-- What is done for a job, given by its name, in a round that may be the last: its results go to
its own file, and the last round makes an average of that file and removes it. -/
def collect (d : Dir) (name : List Char) : Dir :=
  let csv := d.csv name ++ iops (results name)
  if last then
    { d with csv := Function.update d.csv name [], tmpsum := d.tmpsum ++ awkMean csv }
  else { d with csv := Function.update d.csv name csv }

/-- One call of a script that goes over jobs with the given names; the last round prints the sum of
the averages as a total. -/
def getdata (names : List (List Char)) (d : Dir) : Dir :=
  let d := names.foldl (collect last results) d
  if last then { d with tmpsum := [], result := d.result ++ [reread d.tmpsum.sum] } else d

end Script

/-- The calls for the rounds `agent = 1 … TESTTIMES`, each with the results of its round; what the
last one does depends on what all of them have left. -/
def series (names : List (List Char)) (testTimes : ℕ)
    (results : ℕ → List Char → List (List Char)) (d : Dir) : Dir :=
  (List.range testTimes).foldl
    (fun d i => getdata (decide (i + 1 = testTimes)) (results (i + 1)) names d) d

/-! ### One call -/

section Call

variable {results : List Char → List (List Char)} {names : List (List Char)}

/-- What a round that is not the last appends for a name: its results, as often as the script goes
over it, which should be once. -/
def copies (names : List (List Char)) (n : List Char) (xs : List ℚ) : List ℚ :=
  (List.replicate (names.count n) xs).flatten

/-- The averages that the last round makes of the files of its jobs and of its results; a file
is removed when the script goes over it. -/
def lastMeans (new : List Char → List ℚ) : List (List Char) → (List Char → List ℚ) → List ℚ
  | [], _ => []
  | n :: ns, csv => awkMean (csv n ++ new n) ++ lastMeans new ns (Function.update csv n [])

theorem getdata_early_copies (d : Dir) :
    getdata false results names d =
      { d with csv := fun n => d.csv n ++ copies names n (iops (results n)) } := by
  have hloop : ∀ d : Dir, names.foldl (collect false results) d =
      { d with csv := fun n => d.csv n ++ copies names n (iops (results n)) } := by
    induction names with
    | nil => intro d; simp [copies]
    | cons name names ih =>
      intro d
      rw [List.foldl_cons, ih]
      simp only [collect, Bool.false_eq_true, if_false, Dir.mk.injEq, and_true]
      funext n
      by_cases heq : n = name
      · subst heq
        rw [Function.update_self, copies, copies, List.count_cons_self, List.replicate_succ,
          List.flatten_cons, List.append_assoc]
      · rw [Function.update_of_ne heq, copies, copies, List.count_cons_of_ne (Ne.symm heq)]
  exact hloop d

theorem getdata_last_means (d : Dir) :
    getdata true results names d =
      { csv := fun n => if n ∈ names then [] else d.csv n
        tmpsum := []
        result := d.result ++
          [reread (d.tmpsum ++ lastMeans (fun n => iops (results n)) names d.csv).sum] } := by
  have hloop : ∀ d : Dir, names.foldl (collect true results) d =
      { csv := fun n => if n ∈ names then [] else d.csv n
        tmpsum := d.tmpsum ++ lastMeans (fun n => iops (results n)) names d.csv
        result := d.result } := by
    induction names with
    | nil => intro d; simp [lastMeans]
    | cons name names ih =>
      intro d
      rw [List.foldl_cons, ih]
      simp only [collect, if_true, Dir.mk.injEq, and_true]
      constructor
      · funext n
        by_cases heq : n = name
        · subst heq
          simp
        · rw [Function.update_of_ne heq]
          simp [heq]
      · rw [lastMeans, List.append_assoc]
  rw [getdata, hloop]
  rfl

/-- Only the files and results of the jobs matter. -/
theorem lastMeans_congr {new new' : List Char → List ℚ} {csv csv' : List Char → List ℚ}
    (hnew : ∀ n ∈ names, new n = new' n) (hcsv : ∀ n ∈ names, csv n = csv' n) :
    lastMeans new names csv = lastMeans new' names csv' := by
  induction names generalizing csv csv' with
  | nil => rfl
  | cons name names ih =>
    rw [lastMeans, lastMeans, hnew name List.mem_cons_self, hcsv name List.mem_cons_self]
    congr 1
    apply ih fun n hn => hnew n (List.mem_cons_of_mem name hn)
    intro n hn
    by_cases heq : n = name
    · subst heq
      rw [Function.update_self, Function.update_self]
    · rw [Function.update_of_ne heq, Function.update_of_ne heq]
      exact hcsv n (List.mem_cons_of_mem name hn)

/-- With no files, the averages are those of the results. -/
theorem lastMeans_of_nil {new : List Char → List ℚ} {csv : List Char → List ℚ}
    (hcsv : ∀ n ∈ names, csv n = []) :
    lastMeans new names csv = names.flatMap fun n => awkMean (new n) := by
  induction names generalizing csv with
  | nil => rfl
  | cons name names ih =>
    rw [lastMeans, hcsv name List.mem_cons_self, List.nil_append, List.flatMap_cons, ih]
    intro n hn
    by_cases heq : n = name
    · subst heq
      exact Function.update_self ..
    · rw [Function.update_of_ne heq]
      exact hcsv n (List.mem_cons_of_mem name hn)

/-- With different jobs, every file is still there when the script gets to it. -/
theorem lastMeans_of_nodup {new : List Char → List ℚ} (hnodup : names.Nodup)
    (csv : List Char → List ℚ) :
    lastMeans new names csv = names.flatMap fun n => awkMean (csv n ++ new n) := by
  induction names generalizing csv with
  | nil => rfl
  | cons name names ih =>
    obtain ⟨hname, hrest⟩ := List.nodup_cons.mp hnodup
    rw [lastMeans, ih hrest, List.flatMap_cons]
    congr 1
    apply List.flatMap_congr
    intro n hn
    have hne : n ≠ name := by
      rintro rfl
      exact hname hn
    rw [Function.update_of_ne hne]

/-- A last round that starts with no files. -/
theorem getdata_last_empty (results : List Char → List (List Char)) (names : List (List Char)) :
    (getdata true results names Dir.empty).result =
      [reread (names.flatMap fun n => awkMean (iops (results n))).sum] := by
  have hmeans : lastMeans (fun n => iops (results n)) names Dir.empty.csv =
      names.flatMap fun n => awkMean (iops (results n)) := lastMeans_of_nil fun _ _ => rfl
  rw [getdata_last_means, hmeans]
  rfl

end Call

/-! ### All rounds -/

section Series

variable {names : List (List Char)} {results : ℕ → List Char → List (List Char)}

/-- The results of a job in the first rounds. -/
def collected (results : ℕ → List Char → List (List Char)) (rounds : ℕ) (name : List Char) :
    List ℚ :=
  (List.range rounds).flatMap fun i => iops (results (i + 1) name)

theorem collected_succ (rounds : ℕ) (name : List Char) :
    collected results (rounds + 1) name =
      collected results rounds name ++ iops (results (rounds + 1) name) := by
  rw [collected, List.range_succ, List.flatMap_append, List.flatMap_singleton]
  rfl

/-- What the first rounds append for a job. -/
def appended (names : List (List Char)) (results : ℕ → List Char → List (List Char)) (rounds : ℕ)
    (name : List Char) : List ℚ :=
  (List.range rounds).flatMap fun i => copies names name (iops (results (i + 1) name))

theorem appended_succ (rounds : ℕ) (name : List Char) :
    appended names results (rounds + 1) name =
      appended names results rounds name ++
        copies names name (iops (results (rounds + 1) name)) := by
  rw [appended, List.range_succ, List.flatMap_append, List.flatMap_singleton]
  rfl

/-- Different jobs are appended once in each round. -/
theorem appended_of_nodup (hnodup : names.Nodup) {name : List Char} (hname : name ∈ names)
    (rounds : ℕ) : appended names results rounds name = collected results rounds name := by
  unfold appended collected copies
  rw [List.count_eq_one_of_mem hnodup hname]
  simp

/-- The rounds before the last append their results. -/
theorem foldl_early {testTimes rounds : ℕ} (hrounds : rounds < testTimes) (d : Dir) :
    (List.range rounds).foldl
        (fun d i => getdata (decide (i + 1 = testTimes)) (results (i + 1)) names d) d =
      { d with csv := fun n => d.csv n ++ appended names results rounds n } := by
  induction rounds with
  | zero => simp [appended]
  | succ rounds ih =>
    have hearly : decide (rounds + 1 = testTimes) = false := by
      rw [decide_eq_false_iff_not]
      omega
    rw [List.range_succ, List.foldl_append, ih (by omega), List.foldl_cons, List.foldl_nil,
      hearly, getdata_early_copies, Dir.mk.injEq]
    refine ⟨?_, rfl, rfl⟩
    funext n
    rw [appended_succ, List.append_assoc]

/-- **What a series prints**, whatever the files were before: what was in them is averaged together
with the results of the series. -/
theorem series_succ (rounds : ℕ) (d : Dir) :
    (series names (rounds + 1) results d).result = d.result ++
      [reread (d.tmpsum ++ lastMeans (fun n => iops (results (rounds + 1) n)) names fun n =>
        d.csv n ++ appended names results rounds n).sum] := by
  have hlast : decide (rounds + 1 = rounds + 1) = true := decide_eq_true rfl
  rw [series, List.range_succ, List.foldl_append, foldl_early (Nat.lt_succ_self rounds),
    List.foldl_cons, List.foldl_nil, hlast, getdata_last_means]

/-- With different jobs and no files, the averages are those of the rounds of the series. -/
theorem lastMeans_appended (hnodup : names.Nodup) {csv : List Char → List ℚ}
    (hcsv : ∀ n ∈ names, csv n = []) (rounds : ℕ) :
    (lastMeans (fun n => iops (results (rounds + 1) n)) names fun n =>
        csv n ++ appended names results rounds n) =
      names.flatMap fun n => awkMean (collected results (rounds + 1) n) := by
  rw [lastMeans_of_nodup hnodup]
  apply List.flatMap_congr
  intro n hn
  rw [hcsv n hn, List.nil_append, appended_of_nodup hnodup hn, ← collected_succ]

/-- **A series that starts with no files** prints the sum of the averages over its rounds, where
each average counts as `print` writes it. -/
theorem series_result (hnodup : names.Nodup) {testTimes : ℕ} (htimes : 0 < testTimes) :
    (series names testTimes results Dir.empty).result =
      [reread (names.flatMap fun n => awkMean (collected results testTimes n)).sum] := by
  obtain ⟨rounds, rfl⟩ := Nat.exists_eq_succ_of_ne_zero htimes.ne'
  rw [Nat.succ_eq_add_one, series_succ, ← lastMeans_appended hnodup fun _ _ => rfl]
  rfl

end Series

end LinuxNote.Fio
