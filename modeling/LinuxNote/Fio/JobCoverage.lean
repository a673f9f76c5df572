import LinuxNote.Base.CText
import LinuxNote.Fio.GetData
import Mathlib.Data.List.Count
import Mathlib.Data.List.GetD
import Mathlib.Data.List.Nodup
import Mathlib.Data.List.Perm.Basic

/-!
# The jobs of a total

For up to 4 threads `getdata-fio.sh` takes one job of each of the first disks, for up to 16
the threads divided by the number of disks on each disk, and for more four groups on each
disk, whatever the number of disks is.

## Main definitions

* `AddsUp` — the total of a script is that of the averages of given jobs.
* `JobsCovered` — the totals have as many jobs as there are threads.
* `CoverCondition` — the numbers of disks and threads for which this is so.

## Main results

* `perm_of_addsUp` — a total determines its jobs.
* `jobsCovered_iff` — **every job is covered once exactly when** the condition holds.
-/

namespace LinuxNote.Fio

open AwkNumber ShellText

/-! ### Jobs of a total -/

/-- The mean of a job over the rounds. -/
def meanIops (testTimes : ℕ) (results : ℕ → List Char → List (List Char)) (name : List Char) : ℚ :=
  (collected results testTimes name).sum / (collected results testTimes name).length

/-- The mean of a job with the digits that `print` writes, which is what gets into a total. -/
def jobMean (testTimes : ℕ) (results : ℕ → List Char → List (List Char)) (name : List Char) : ℚ :=
  reread (meanIops testTimes results name)

/-- The total of a series is the sum of the means of the files: whatever the results are, as long
as each job has one in each round.  It is printed so, and is exact where printing loses nothing. -/
def AddsUp (names files : List (List Char)) : Prop :=
  ∀ testTimes results, 0 < testTimes → (∀ agent name, iops (results agent name) ≠ []) →
    (series names testTimes results Dir.empty).result =
      [reread (files.map (jobMean testTimes results)).sum]

/-- A number of a job. -/
def IsNumber (number : List Char) : Prop := ∀ c ∈ number, c.isDigit = true

/-- The total of `getdata-fio.sh` is that of as many different job files as there are
threads, on disks that exist, and that of `getdata-blockio.sh` has as many. -/
def JobsCovered (disks : Disks) (tazyu : ℕ) : Prop :=
  (∃ files, AddsUp ((fioJobs disks tazyu).map Job.name) files ∧
    files.length = tazyu ∧ files.Nodup ∧
    ∀ f ∈ files, ∃ disk ∈ disks.names, ∃ number, IsNumber number ∧ f = Job.name ⟨disk, number⟩) ∧
  ∃ files, AddsUp ((blockioJobs disks tazyu).map Job.name) files ∧ files.length = tazyu

/-- For more than 16 threads on more than 4 disks, the groups fit by chance only. -/
def fittingGroups : List (ℕ × ℕ) := [(5, 20), (5, 40), (5, 60), (6, 24), (7, 28)]

/-- Up to 4 threads, there is a disk for each thread; up to 16, all disks have the same number of
threads; beyond, there are 4 disks and the threads are a multiple of 16, or the groups fit by
chance. -/
def CoverCondition (disks : Disks) (tazyu : ℕ) : Prop :=
  if tazyu ≤ 4 then tazyu ≤ disks.names.length ∧ (disks.names.take tazyu).Nodup
  else disks.names.Nodup ∧
    if tazyu ≤ 16 then disks.names.length ∣ tazyu
    else disks.names.length = 4 ∧ 16 ∣ tazyu ∨ (disks.names.length, tazyu) ∈ fittingGroups

/-! ### A total determines its jobs -/

section Totals

/-- Results of one round: 1 for one job, 0 for the others, so that a total of such a series tells
how often the job is added up. -/
def oneJob (f name : List Char) : List (List Char) :=
  [if name = f then ",,iops=1".toList else ",,iops=0".toList]

theorem iops_oneJob (f name : List Char) : iops (oneJob f name) = [if name = f then 1 else 0] := by
  unfold oneJob
  split
  · decide +kernel
  · decide +kernel

/-- A sum in which one name counts. -/
theorem sum_indicator (f : List Char) (x : ℚ) (names : List (List Char)) :
    (names.map fun n => if n = f then x else 0).sum = names.count f * x := by
  induction names with
  | nil => simp
  | cons n names ih =>
    rw [List.map_cons, List.sum_cons, ih, List.count_cons]
    by_cases h : n = f
    · rw [if_pos h, if_pos (by simpa using h)]
      push_cast
      ring
    · rw [if_neg h, if_neg (by simpa using h)]
      simp

/-- **A total determines its jobs**, up to their order: with results for one job only, it is the
number of times that the job counts. -/
theorem perm_of_addsUp {names files : List (List Char)} (h : AddsUp names files) :
    names.Perm files := by
  rw [List.perm_iff_count]
  intro f
  have htotal := h 1 (fun _ => oneJob f) Nat.one_pos (fun _ name => by simp [iops_oneJob])
  -- 0 and 1 are printed as they are
  have hread : ∀ n, reread (if n = f then (1 : ℚ) else 0) = if n = f then (1 : ℚ) else 0 := by
    intro n
    split
    · exact reread_natCast 1
    · exact reread_natCast 0
  have hseries : (series names 1 (fun _ => oneJob f) Dir.empty).result =
      [reread (names.map fun n => if n = f then (1 : ℚ) else 0).sum] := by
    have hmean : ∀ n, awkMean (iops (oneJob f n)) = [if n = f then (1 : ℚ) else 0] := by
      intro n
      rw [iops_oneJob]
      simp [awkMean, hread]
    have hcall : series names 1 (fun _ => oneJob f) Dir.empty =
        getdata true (oneJob f) names Dir.empty := rfl
    rw [hcall, getdata_last_empty]
    simp only [hmean, ← List.map_eq_flatMap]
  have hjob : ∀ n, jobMean 1 (fun _ => oneJob f) n = if n = f then (1 : ℚ) else 0 := by
    intro n
    have hone : collected (fun _ => oneJob f) 1 n = iops (oneJob f n) := by
      simp [collected]
    rw [jobMean, meanIops, hone, iops_oneJob]
    simp [hread]
  rw [hseries, List.cons.injEq, List.map_congr_left fun n _ => hjob n, sum_indicator,
    sum_indicator, mul_one, mul_one, reread_natCast, reread_natCast] at htotal
  exact_mod_cast htotal.1

/-- Different jobs are added up. -/
theorem addsUp_of_nodup {names : List (List Char)} (hnodup : names.Nodup) : AddsUp names names := by
  intro testTimes results htimes hiops
  rw [series_result hnodup htimes, List.map_eq_flatMap]
  congr 3
  apply List.flatMap_congr
  intro n _
  have hne : collected results testTimes n ≠ [] := by
    obtain ⟨rounds, rfl⟩ := Nat.exists_eq_succ_of_ne_zero htimes.ne'
    rw [Nat.succ_eq_add_one, collected_succ]
    exact List.append_ne_nil_of_right_ne_nil _ (hiops _ n)
  rw [awkMean, if_neg hne]
  rfl

/-- A total of different files of a kind. -/
theorem exists_addsUp_iff (names : List (List Char)) (k : ℕ) (P : List Char → Prop) :
    (∃ files, AddsUp names files ∧ files.length = k ∧ files.Nodup ∧ ∀ f ∈ files, P f) ↔
      names.length = k ∧ names.Nodup ∧ ∀ f ∈ names, P f := by
  constructor
  · rintro ⟨files, hadds, hlength, hnodup, hall⟩
    have hperm := perm_of_addsUp hadds
    exact ⟨hperm.length_eq.trans hlength, hperm.nodup_iff.mpr hnodup,
      fun f hf => hall f (hperm.mem_iff.mp hf)⟩
  · rintro ⟨hlength, hnodup, hall⟩
    exact ⟨names, addsUp_of_nodup hnodup, hlength, hnodup, hall⟩

end Totals

/-! ### Names of jobs -/

/-- The number of a job is what stands behind the last dash. -/
theorem name_injective {a b : Job} (ha : IsNumber a.number) (hb : IsNumber b.number)
    (h : a.name = b.name) : a.disk = b.disk ∧ a.number = b.number := by
  have htake : ∀ j : Job, IsNumber j.number →
      j.name.reverse.takeWhile Char.isDigit = j.number.reverse := by
    intro j hj
    have hdigits : ∀ c ∈ j.number.reverse, c.isDigit = true :=
      fun c hc => hj c (List.mem_reverse.mp hc)
    rw [Job.name, List.reverse_append, List.reverse_cons, List.append_assoc,
      List.takeWhile_append_of_pos hdigits, List.singleton_append,
      List.takeWhile_cons_of_neg (by decide), List.append_nil]
  have hnumber : a.number = b.number := by
    rw [← List.reverse_inj, ← htake a ha, ← htake b hb, h]
  refine ⟨?_, hnumber⟩
  rw [Job.name, Job.name, hnumber] at h
  exact List.append_cancel_right h

theorem isNumber_decimal (n : ℕ) : IsNumber (CText.decimal n) :=
  fun _ hc => CText.isDigit_of_mem_decimal hc

/-- The disk of a job is there if its file is one of a disk that is there. -/
theorem disk_mem_of_name {disks : Disks} {j : Job} (hj : IsNumber j.number)
    (h : ∃ disk ∈ disks.names, ∃ number, IsNumber number ∧ j.name = Job.name ⟨disk, number⟩) :
    j.disk ∈ disks.names := by
  obtain ⟨disk, hdisk, number, hnumber, hname⟩ := h
  rw [(name_injective hj hnumber hname).1]
  exact hdisk

/-! ### Up to four threads -/

section First

variable (disks : Disks) (tazyu : ℕ)

theorem isNumber_first {j : Job} (h : j ∈ firstJobs disks tazyu) : IsNumber j.number := by
  obtain ⟨i, -, rfl⟩ := List.mem_map.mp h
  exact isNumber_decimal 1

/-- There is a disk for each thread. -/
theorem firstJobs_exist_iff :
    (∀ f ∈ (firstJobs disks tazyu).map Job.name, ∃ disk ∈ disks.names, ∃ number,
        IsNumber number ∧ f = Job.name ⟨disk, number⟩) ↔
      tazyu ≤ disks.names.length := by
  rw [List.forall_mem_map]
  constructor
  · intro h
    by_contra hlt
    rw [not_le] at hlt
    -- the first disk that is not there
    have hmem : ⟨disks.names.getD disks.names.length [], "1".toList⟩ ∈ firstJobs disks tazyu :=
      List.mem_map_of_mem (List.mem_range.mpr hlt)
    have hdisk := disk_mem_of_name (isNumber_first disks tazyu hmem) (h _ hmem)
    rw [List.getD_eq_default _ _ (le_refl _)] at hdisk
    exact disks.ne_nil hdisk rfl
  · intro h j hj
    obtain ⟨i, hi, rfl⟩ := List.mem_map.mp hj
    have hlt : i < disks.names.length := (List.mem_range.mp hi).trans_le h
    refine ⟨_, ?_, "1".toList, isNumber_decimal 1, rfl⟩
    rw [List.getD_eq_getElem _ _ hlt]
    exact List.getElem_mem hlt

/-- The jobs are different when the disks are. -/
theorem nodup_firstJobs_iff (h : tazyu ≤ disks.names.length) :
    ((firstJobs disks tazyu).map Job.name).Nodup ↔ (disks.names.take tazyu).Nodup := by
  have htake : (List.range tazyu).map (fun i => disks.names.getD i []) =
      disks.names.take tazyu := by
    apply List.ext_getElem
    · simp [h]
    · intro i hi _
      rw [List.length_map, List.length_range] at hi
      simp [List.getElem?_eq_getElem (hi.trans_le h)]
  have hnames : (firstJobs disks tazyu).map Job.name =
      (disks.names.take tazyu).map fun disk => Job.name ⟨disk, "1".toList⟩ := by
    rw [← htake, firstJobs, List.map_map, List.map_map]
    rfl
  rw [hnames]
  apply List.nodup_map_iff
  intro a b heq
  exact (name_injective (isNumber_decimal 1) (isNumber_decimal 1) heq).1

end First

/-! ### The same jobs on each disk -/

section OnDisks

/-- A job on each disk for each of some numbers. -/
def jobsOn (disks : Disks) (numbers : List (List Char)) : List Job :=
  disks.names.flatMap fun disk => numbers.map fun number => ⟨disk, number⟩

variable {disks : Disks} {numbers : List (List Char)}

theorem length_jobsOn : (jobsOn disks numbers).length = disks.names.length * numbers.length := by
  simp [jobsOn, List.length_flatMap]

theorem jobsOn_exist (hnumbers : ∀ number ∈ numbers, IsNumber number) :
    ∀ f ∈ (jobsOn disks numbers).map Job.name, ∃ disk ∈ disks.names, ∃ number,
      IsNumber number ∧ f = Job.name ⟨disk, number⟩ := by
  rw [List.forall_mem_map]
  intro j hj
  obtain ⟨disk, hdisk, hj⟩ := List.mem_flatMap.mp hj
  obtain ⟨number, hnumber, rfl⟩ := List.mem_map.mp hj
  exact ⟨disk, hdisk, number, hnumbers number hnumber, rfl⟩

/-- The jobs are different when the disks are. -/
theorem nodup_jobsOn_iff (hne : numbers ≠ []) (hnodup : numbers.Nodup)
    (hnumbers : ∀ number ∈ numbers, IsNumber number) :
    ((jobsOn disks numbers).map Job.name).Nodup ↔ disks.names.Nodup := by
  have hmap : (jobsOn disks numbers).map Job.name =
      disks.names.flatMap fun disk => numbers.map fun number => Job.name ⟨disk, number⟩ := by
    rw [jobsOn, List.map_flatMap]
    simp only [List.map_map]
    rfl
  have hdisk : ∀ disk ∈ disks.names, (numbers.map fun number => Job.name ⟨disk, number⟩).Nodup := by
    intro disk _
    apply hnodup.map_on
    intro a ha b hb heq
    exact (name_injective (hnumbers a ha) (hnumbers b hb) heq).2
  rw [hmap, List.nodup_flatMap]
  constructor
  · rintro ⟨-, hdisjoint⟩
    apply hdisjoint.imp
    rintro a b hab rfl
    obtain ⟨number, hnumber⟩ := List.exists_mem_of_ne_nil numbers hne
    exact hab (List.mem_map_of_mem hnumber) (List.mem_map_of_mem hnumber)
  · intro hdisks
    refine ⟨hdisk, hdisks.imp ?_⟩
    intro a b hne f hfa hfb
    obtain ⟨m, hm, rfl⟩ := List.mem_map.mp hfa
    obtain ⟨n, hn, heq⟩ := List.mem_map.mp hfb
    exact hne (name_injective (hnumbers n hn) (hnumbers m hm) heq).1.symm

/-- The numbers of the jobs of a disk. -/
def equalNumbers (mtazyu : ℕ) : List (List Char) :=
  (List.range mtazyu).map fun i => CText.decimal (i + 1)

/-- The numbers of the jobs of a disk, in four groups. -/
def groupedNumbers (tmep : ℕ) : List (List Char) :=
  (List.range 4).flatMap fun i => (List.range tmep).map fun k =>
    CText.decimal (i + 1) ++ CText.decimal (k + 1)

theorem equalJobs_eq (disks : Disks) (mtazyu : ℕ) :
    equalJobs disks mtazyu = jobsOn disks (equalNumbers mtazyu) := by
  simp only [equalJobs, jobsOn, equalNumbers, List.map_map]
  rfl

theorem groupedJobs_eq (disks : Disks) (tmep : ℕ) :
    groupedJobs disks tmep = jobsOn disks (groupedNumbers tmep) := by
  simp only [groupedJobs, jobsOn, groupedNumbers, List.map_flatMap, List.map_map]
  rfl

theorem nodup_equalNumbers (mtazyu : ℕ) : (equalNumbers mtazyu).Nodup := by
  apply List.nodup_range.map
  intro a b heq
  exact Nat.succ_injective (CText.decimal_injective heq)

/-- The number of a group has one digit. -/
theorem nodup_groupedNumbers (tmep : ℕ) : (groupedNumbers tmep).Nodup := by
  have hsame : ∀ i < 4, ∀ j < 4, ∀ k l : ℕ,
      CText.decimal (i + 1) ++ CText.decimal (k + 1) =
        CText.decimal (j + 1) ++ CText.decimal (l + 1) → i = j ∧ k = l := by
    intro i hi j hj k l heq
    have hone : ∀ m < 4, (CText.decimal (m + 1)).length = 1 := by
      intro m hm
      rw [CText.decimal_of_lt_ten (by omega)]
      rfl
    obtain ⟨hgroup, hrest⟩ := List.append_inj heq ((hone i hi).trans (hone j hj).symm)
    exact ⟨Nat.succ_injective (CText.decimal_injective hgroup),
      Nat.succ_injective (CText.decimal_injective hrest)⟩
  rw [groupedNumbers, List.nodup_flatMap]
  constructor
  · intro i hi
    have hlt := List.mem_range.mp hi
    apply List.nodup_range.map
    intro k l heq
    exact (hsame i hlt i hlt k l heq).2
  · apply List.Nodup.pairwise_of_forall_ne List.nodup_range
    intro i hi j hj hne f hfi hfj
    obtain ⟨k, -, rfl⟩ := List.mem_map.mp hfi
    obtain ⟨l, -, heq⟩ := List.mem_map.mp hfj
    exact hne (hsame j (List.mem_range.mp hj) i (List.mem_range.mp hi) l k heq).1.symm

theorem isNumber_equalNumbers (mtazyu : ℕ) : ∀ number ∈ equalNumbers mtazyu, IsNumber number := by
  intro number hnumber
  obtain ⟨i, -, rfl⟩ := List.mem_map.mp hnumber
  exact isNumber_decimal _

theorem isNumber_groupedNumbers (tmep : ℕ) : ∀ number ∈ groupedNumbers tmep, IsNumber number := by
  intro number hnumber
  obtain ⟨i, -, hnumber⟩ := List.mem_flatMap.mp hnumber
  obtain ⟨k, -, rfl⟩ := List.mem_map.mp hnumber
  intro c hc
  rcases List.mem_append.mp hc with hc | hc
  · exact isNumber_decimal _ c hc
  · exact isNumber_decimal _ c hc

theorem length_equalNumbers (mtazyu : ℕ) : (equalNumbers mtazyu).length = mtazyu := by
  simp [equalNumbers]

theorem length_groupedNumbers (tmep : ℕ) : (groupedNumbers tmep).length = 4 * tmep := by
  rw [groupedNumbers, List.length_flatMap]
  simp
  ring

end OnDisks

/-! ### The number of jobs -/

/-- The groups fit. -/
theorem grouped_count_iff {n tazyu : ℕ} (h : 16 < tazyu) :
    n * (4 * (tazyu / 16)) = tazyu ↔ n = 4 ∧ 16 ∣ tazyu ∨ (n, tazyu) ∈ fittingGroups := by
  have hrest := Nat.div_add_mod tazyu 16
  have hmod : tazyu % 16 < 16 := Nat.mod_lt _ (by decide)
  have hquotient : 1 ≤ tazyu / 16 := by omega
  simp only [fittingGroups, List.mem_cons, Prod.mk.injEq, List.not_mem_nil, or_false]
  constructor
  · intro heq
    generalize tazyu / 16 = q at *
    -- with fewer disks the groups are too few, with more they are too many
    have hlow : 4 ≤ n := by
      by_contra hn
      have hle : n * (4 * q) ≤ 3 * (4 * q) := Nat.mul_le_mul_right _ (by omega)
      omega
    have hhigh : n < 8 := by
      by_contra hn
      have hle : 8 * (4 * q) ≤ n * (4 * q) := Nat.mul_le_mul_right _ (by omega)
      omega
    obtain rfl | rfl | rfl | rfl : n = 4 ∨ n = 5 ∨ n = 6 ∨ n = 7 := by omega
    · omega
    · omega
    · omega
    · omega
  · rintro (⟨rfl, hdvd⟩ | ⟨rfl, rfl⟩ | ⟨rfl, rfl⟩ | ⟨rfl, rfl⟩ | ⟨rfl, rfl⟩ | ⟨rfl, rfl⟩)
    · omega
    · rfl
    · rfl
    · rfl
    · rfl
    · rfl

/-- With fitting groups, the threads can be shared out without a rest as well. -/
theorem dvd_of_fitting {n tazyu : ℕ} (h : 16 < tazyu)
    (hfit : n = 4 ∧ 16 ∣ tazyu ∨ (n, tazyu) ∈ fittingGroups) : n ∣ tazyu :=
  ⟨_, ((grouped_count_iff h).mpr hfit).symm⟩

/-- The same jobs on each disk are a total when there are as many as threads. -/
theorem exists_addsUp_jobsOn_iff (disks : Disks) {numbers : List (List Char)} {tazyu : ℕ}
    (htazyu : 0 < tazyu) (hnodup : numbers.Nodup)
    (hnumbers : ∀ number ∈ numbers, IsNumber number) :
    (∃ files, AddsUp ((jobsOn disks numbers).map Job.name) files ∧ files.length = tazyu ∧
        files.Nodup ∧ ∀ f ∈ files, ∃ disk ∈ disks.names, ∃ number,
          IsNumber number ∧ f = Job.name ⟨disk, number⟩) ↔
      disks.names.Nodup ∧ disks.names.length * numbers.length = tazyu := by
  rw [exists_addsUp_iff, List.length_map, length_jobsOn]
  constructor
  · rintro ⟨hlength, hnames, -⟩
    have hne : numbers ≠ [] := by
      rintro rfl
      rw [List.length_nil, Nat.mul_zero] at hlength
      omega
    exact ⟨(nodup_jobsOn_iff hne hnodup hnumbers).mp hnames, hlength⟩
  · rintro ⟨hdisks, hlength⟩
    have hne : numbers ≠ [] := by
      rintro rfl
      rw [List.length_nil, Nat.mul_zero] at hlength
      omega
    exact ⟨hlength, (nodup_jobsOn_iff hne hnodup hnumbers).mpr hdisks, jobsOn_exist hnumbers⟩

section Tiers

variable {disks : Disks} {tazyu : ℕ}

/-- Up to 4 threads, every job is covered once when there are different disks for them. -/
theorem jobsCovered_iff_of_le_four (h : tazyu ≤ 4) :
    JobsCovered disks tazyu ↔
      tazyu ≤ disks.names.length ∧ (disks.names.take tazyu).Nodup := by
  have hlength : ((firstJobs disks tazyu).map Job.name).length = tazyu := by simp [firstJobs]
  simp only [JobsCovered, fioJobs, blockioJobs, if_pos h]
  rw [exists_addsUp_iff, firstJobs_exist_iff]
  constructor
  · rintro ⟨⟨-, hnodup, hdisks⟩, -⟩
    exact ⟨hdisks, (nodup_firstJobs_iff disks tazyu hdisks).mp hnodup⟩
  · rintro ⟨hdisks, htake⟩
    have hnodup := (nodup_firstJobs_iff disks tazyu hdisks).mpr htake
    exact ⟨⟨hlength, hnodup, hdisks⟩, _, addsUp_of_nodup hnodup, hlength⟩

/-- The jobs that are shared out equally are a total when nothing is left over. -/
theorem exists_addsUp_equalJobs_iff (h : 4 < tazyu) :
    (∃ files, AddsUp ((equalJobs disks (tazyu / disks.names.length)).map Job.name) files ∧
        files.length = tazyu ∧ files.Nodup ∧ ∀ f ∈ files, ∃ disk ∈ disks.names, ∃ number,
          IsNumber number ∧ f = Job.name ⟨disk, number⟩) ↔
      disks.names.Nodup ∧ disks.names.length ∣ tazyu := by
  have hequal := exists_addsUp_jobsOn_iff disks (Nat.zero_lt_of_lt h)
    (nodup_equalNumbers (tazyu / disks.names.length))
    (isNumber_equalNumbers (tazyu / disks.names.length))
  rwa [length_equalNumbers, Nat.mul_div_eq_iff_dvd, ← equalJobs_eq] at hequal

/-- The other script shares out all jobs equally. -/
theorem exists_addsUp_blockioJobs (h : 4 < tazyu) (hdisks : disks.names.Nodup)
    (hdvd : disks.names.length ∣ tazyu) :
    ∃ files, AddsUp ((blockioJobs disks tazyu).map Job.name) files ∧ files.length = tazyu := by
  obtain ⟨files, hadds, hlength, -⟩ := (exists_addsUp_equalJobs_iff h).mpr ⟨hdisks, hdvd⟩
  rw [blockioJobs, if_neg (by omega)]
  exact ⟨files, hadds, hlength⟩

/-- From 5 to 16 threads, every job is covered once when the disks divide them. -/
theorem jobsCovered_iff_of_le_sixteen (h : 4 < tazyu) (hle : tazyu ≤ 16) :
    JobsCovered disks tazyu ↔ disks.names.Nodup ∧ disks.names.length ∣ tazyu := by
  rw [JobsCovered, fioJobs, if_neg (by omega), if_pos hle, exists_addsUp_equalJobs_iff h]
  exact ⟨fun hcovered => hcovered.1,
    fun hcond => ⟨hcond, exists_addsUp_blockioJobs h hcond.1 hcond.2⟩⟩

/-- Beyond 16 threads, every job is covered once when the groups fit. -/
theorem jobsCovered_iff_of_sixteen_lt (h : 16 < tazyu) :
    JobsCovered disks tazyu ↔
      disks.names.Nodup ∧ (disks.names.length = 4 ∧ 16 ∣ tazyu ∨
        (disks.names.length, tazyu) ∈ fittingGroups) := by
  have hgrouped := exists_addsUp_jobsOn_iff disks (Nat.zero_lt_of_lt h)
    (nodup_groupedNumbers (tazyu / 16)) (isNumber_groupedNumbers (tazyu / 16))
  rw [length_groupedNumbers, grouped_count_iff h, ← groupedJobs_eq] at hgrouped
  rw [JobsCovered, fioJobs, if_neg (by omega), if_neg (by omega), hgrouped]
  exact ⟨fun hcovered => hcovered.1,
    fun hcond => ⟨hcond, exists_addsUp_blockioJobs (by omega) hcond.1 (dvd_of_fitting h hcond.2)⟩⟩

end Tiers

/-- **Every job is covered once exactly when** the condition holds.  The scripts have one case for
each range of threads, and each case divides without looking at the remainder. -/
theorem jobsCovered_iff (disks : Disks) (tazyu : ℕ) :
    JobsCovered disks tazyu ↔ CoverCondition disks tazyu := by
  unfold CoverCondition
  by_cases hfirst : tazyu ≤ 4
  · rw [if_pos hfirst, jobsCovered_iff_of_le_four hfirst]
  · rw [if_neg hfirst]
    by_cases hsecond : tazyu ≤ 16
    · rw [if_pos hsecond, jobsCovered_iff_of_le_sixteen (by omega) hsecond]
    · rw [if_neg hsecond, jobsCovered_iff_of_sixteen_lt (by omega)]

/-- Two disks. -/
def twoDisks : Disks := ⟨["sdb".toList, "sdc".toList], by decide⟩

/-- With 32 threads on two disks, only 16 jobs are added up. -/
theorem not_jobsCovered_twoDisks : ¬ JobsCovered twoDisks 32 := by
  rw [jobsCovered_iff_of_sixteen_lt (by decide)]
  rintro ⟨-, ⟨hfour, -⟩ | hfit⟩
  · exact absurd hfour (by decide)
  · exact absurd hfit (by decide)

end LinuxNote.Fio
