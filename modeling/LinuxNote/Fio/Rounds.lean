import LinuxNote.Base.Words
import LinuxNote.Fio.JobCoverage
import Mathlib.Algebra.Order.Archimedean.Basic
import Mathlib.Data.List.DropRight
import Mathlib.Data.Nat.GCD.Basic
import Mathlib.Tactic.Linarith
import Mathlib.Tactic.Ring

/-!
# The rounds of a series

The results of a job are appended to its file in every round, and the file is removed in the
last one only.  What a series that has been given up leaves in the files is still there when
the next series begins.

## Main definitions

* `Invocation`, `after` — an earlier call, and the files behind a history of such calls.
* `SeriesRight` — a complete series prints the total of its own rounds.
* `CleanStart` — the histories for which this is so.

## Main results

* `csv_after` — what a history leaves in the file of a job.
* `left_of_last_result`, `count_eq_one_of_first_result` — a single result shows what is left of
  a job, and whether it is collected twice.
* `seriesRight_iff` — **a complete series is right exactly when** the history is clean.
-/

namespace LinuxNote.Fio

open AwkNumber ShellText

/-- The settings of `common.sh`. -/
structure Settings where
  disks : Disks
  testTimes : ℕ
  testTimes_pos : 0 < testTimes

/-- A call of `getdata-fio.sh`: the round, and the result files of this round.  Nothing keeps the
rounds of a series together but the order in which the script is called. -/
structure Invocation where
  agent : ℕ
  results : List Char → List (List Char)

section History

variable (s : Settings) (tazyu : ℕ)

/-- The files that the script goes over. -/
def jobNames : List (List Char) := (fioJobs s.disks tazyu).map Job.name

/-- One call. -/
def invoke (d : Dir) (i : Invocation) : Dir :=
  getdata (decide (i.agent = s.testTimes)) i.results (jobNames s tazyu) d

/-- The files behind a history of calls, which may have begun series and not finished them. -/
def after (calls : List Invocation) : Dir := calls.foldl (invoke s tazyu) Dir.empty

/-- What a complete series prints, as a number. -/
def printedTotal (results : ℕ → List Char → List (List Char)) (d : Dir) : Option ℚ :=
  (series (jobNames s tazyu) s.testTimes results d).result.getLast?

/-- Whatever its results are, a complete series prints the total of its own rounds, which is what
it prints when it starts with no files.  Each job counts with its mean as `print` writes it, and
the total is printed so as well; it is that of the exact means if nothing is lost in printing
these and their sum. -/
structure SeriesRight (calls : List Invocation) : Prop where
  total : ∀ results, printedTotal s tazyu results (after s tazyu calls) =
    some (reread ((jobNames s tazyu).map (jobMean s.testTimes results)).sum)
  exact_total : ∀ results,
    (∀ n ∈ jobNames s tazyu,
      reread (meanIops s.testTimes results n) = meanIops s.testTimes results n) →
    reread ((jobNames s tazyu).map (meanIops s.testTimes results)).sum =
      ((jobNames s tazyu).map (meanIops s.testTimes results)).sum →
    printedTotal s tazyu results (after s tazyu calls) =
      some ((jobNames s tazyu).map (meanIops s.testTimes results)).sum
  fresh : ∀ results, printedTotal s tazyu results (after s tazyu calls) =
    printedTotal s tazyu results Dir.empty

/-- The calls behind the last one for a last round.  That call removes the files, so these are the
ones that have left something. -/
def sinceLast (calls : List Invocation) : List Invocation :=
  calls.rtakeWhile fun i => !decide (i.agent = s.testTimes)

/-- A history that a complete series may follow: nothing of an earlier series is left in the files,
and the jobs do not share a file. -/
structure CleanStart (calls : List Invocation) : Prop where
  /-- Behind the last complete series, no results of a job have been found. -/
  nothingLeft : ∀ i ∈ sinceLast s calls, ∀ n ∈ jobNames s tazyu, iops (i.results n) = []
  /-- The jobs have different files, unless there is one round only. -/
  distinct : s.testTimes = 1 ∨ (jobNames s tazyu).Nodup

end History

/-! ### What is left -/

section Left

variable {s : Settings} {tazyu : ℕ}

theorem tmpsum_after (calls : List Invocation) : (after s tazyu calls).tmpsum = [] := by
  induction calls using List.reverseRecOn with
  | nil => rfl
  | append_singleton calls i ih =>
    rw [after, List.foldl_append, List.foldl_cons, List.foldl_nil, ← after, invoke]
    cases decide (i.agent = s.testTimes) with
    | true => rw [getdata_last_means]
    | false => rw [getdata_early_copies]; exact ih

/-- **What a history leaves** in the file of a job: the results of the calls since the last round
of a series, in their order. -/
theorem csv_after (calls : List Invocation) {n : List Char} (hn : n ∈ jobNames s tazyu) :
    (after s tazyu calls).csv n =
      (sinceLast s calls).flatMap fun i => copies (jobNames s tazyu) n (iops (i.results n)) := by
  induction calls using List.reverseRecOn with
  | nil => rfl
  | append_singleton calls i ih =>
    rw [after, List.foldl_append, List.foldl_cons, List.foldl_nil, ← after, invoke, sinceLast,
      List.rtakeWhile_concat]
    cases decide (i.agent = s.testTimes) with
    | true =>
      rw [getdata_last_means]
      simp [hn]
    | false =>
      rw [getdata_early_copies, Bool.not_false, if_pos rfl, List.flatMap_append,
        List.flatMap_singleton, ← sinceLast, ← ih]

theorem copies_eq_nil_iff {names : List (List Char)} {n : List Char} (hn : n ∈ names)
    (xs : List ℚ) : copies names n xs = [] ↔ xs = [] := by
  obtain ⟨k, hk⟩ := Nat.exists_eq_succ_of_ne_zero (List.count_pos_iff.mpr hn).ne'
  rw [copies, hk, List.replicate_succ, List.flatten_cons, List.append_eq_nil_iff]
  constructor
  · exact fun h => h.1
  · rintro rfl
    simp

/-- The files of the jobs are empty when nothing has been found. -/
theorem csv_after_eq_nil_iff (calls : List Invocation) :
    (∀ n ∈ jobNames s tazyu, (after s tazyu calls).csv n = []) ↔
      ∀ i ∈ sinceLast s calls, ∀ n ∈ jobNames s tazyu, iops (i.results n) = [] := by
  constructor
  · intro h i hi n hn
    have hempty := h n hn
    rw [csv_after calls hn, List.flatMap_eq_nil_iff] at hempty
    exact (copies_eq_nil_iff hn _).mp (hempty i hi)
  · intro h n hn
    rw [csv_after calls hn, List.flatMap_eq_nil_iff]
    exact fun i hi => (copies_eq_nil_iff hn _).mpr (h i hi n hn)

end Left

/-! ### Sums of averages -/

section Sums

variable {names : List (List Char)} {new : List Char → List ℚ}

theorem sum_awkMean (xs : List ℚ) : (awkMean xs).sum = reread (xs.sum / xs.length) := by
  unfold awkMean
  split
  · next h =>
    have hzero : reread 0 = 0 := reread_natCast 0
    simp [h, hzero]
  · exact List.sum_singleton

theorem sum_flatMap_awkMean (f : List Char → List ℚ) :
    (names.flatMap fun n => awkMean (f n)).sum =
      (names.map fun n => reread ((f n).sum / (f n).length)).sum := by
  induction names with
  | nil => rfl
  | cons n names ih =>
    rw [List.flatMap_cons, List.sum_append, ih, sum_awkMean, List.map_cons, List.sum_cons]

/-- The averages of one job and those of the others do not depend on each other. -/
theorem sum_lastMeans_split (f : List Char) (csv : List Char → List ℚ) :
    (lastMeans new names csv).sum =
      (lastMeans new (names.filter (· == f)) csv).sum +
        (lastMeans new (names.filter fun n => !(n == f)) csv).sum := by
  induction names generalizing csv with
  | nil => simp [lastMeans]
  | cons n names ih =>
    rw [lastMeans, List.sum_append, ih]
    by_cases heq : n = f
    · subst heq
      have hothers : lastMeans new (names.filter fun m => !(m == n)) (Function.update csv n []) =
          lastMeans new (names.filter fun m => !(m == n)) csv := by
        apply lastMeans_congr (fun _ _ => rfl)
        intro m hm
        rw [Function.update_of_ne (by simpa using (List.mem_filter.mp hm).2)]
      rw [List.filter_cons_of_pos (by simp), List.filter_cons_of_neg (by simp), lastMeans,
        List.sum_append, hothers, add_assoc]
    · have hsame : lastMeans new (names.filter (· == f)) (Function.update csv n []) =
          lastMeans new (names.filter (· == f)) csv := by
        apply lastMeans_congr (fun _ _ => rfl)
        intro m hm
        have hm' : m = f := by simpa using (List.mem_filter.mp hm).2
        rw [Function.update_of_ne (by rw [hm']; exact Ne.symm heq)]
      rw [List.filter_cons_of_neg (by simpa using heq), List.filter_cons_of_pos (by simpa using heq),
        lastMeans, List.sum_append, hsame]
      ring

/-- The first time the script goes over a job, its file is there. -/
theorem sum_lastMeans_replicate (k : ℕ) (f : List Char) (csv : List Char → List ℚ) :
    (lastMeans new (List.replicate (k + 1) f) csv).sum =
      reread ((csv f ++ new f).sum / (csv f ++ new f).length) +
        k * reread ((new f).sum / (new f).length) := by
  have hnil : ∀ n ∈ List.replicate k f, Function.update csv f [] n = [] := by
    intro n hn
    rw [List.eq_of_mem_replicate hn, Function.update_self]
  rw [List.replicate_succ, lastMeans, lastMeans_of_nil hnil, List.sum_append, sum_awkMean,
    sum_flatMap_awkMean, List.map_replicate, List.sum_replicate, nsmul_eq_mul]

end Sums

/-! ### One result -/

section OneResult

variable {names : List (List Char)} {f : List Char}

/-- A series in which one job has a result in one round, and nothing else is found. -/
def oneResult (round : ℕ) (f : List Char) (m : ℕ) (agent : ℕ) (n : List Char) : List (List Char) :=
  if agent = round ∧ n = f then [",,iops=".toList ++ CText.decimal m] else []

/-- The result is found in its line. -/
theorem iops_line (m : ℕ) : iops [",,iops=".toList ++ CText.decimal m] = [(m : ℚ)] := by
  have hdigit : ∀ c ∈ CText.decimal m, c.isDigit = true := fun _ hc =>
    CText.isDigit_of_mem_decimal hc
  have hfree : ∀ d : Char, d.isDigit = false → d ∉ CText.decimal m := by
    intro d hd hin
    rw [hdigit d hin] at hd
    cases hd
  have hblank : ∀ c ∈ CText.decimal m, isBlank c = false := fun c hc =>
    isBlank_eq_false_of_isDigit (hdigit c hc)
  -- two commas and an equals sign stand before the number
  have hline : ",,iops=".toList ++ CText.decimal m =
      [] ++ ',' :: ([] ++ ',' :: ("iops".toList ++ '=' :: CText.decimal m)) := rfl
  have hvalue : ',' ∉ "iops".toList ++ '=' :: CText.decimal m := by
    rw [List.mem_append, List.mem_cons, not_or, not_or]
    exact ⟨by decide, by decide, hfree ',' rfl⟩
  have hfirst : field 1 (CText.decimal m) = CText.decimal m := by
    rw [field, words_free (CText.decimal_ne_nil m) hblank]
    rfl
  have hgrep : occursIn "iops".toList (",,iops=".toList ++ CText.decimal m) = true :=
    occursIn_iff.mpr ⟨",,".toList, '=' :: CText.decimal m, by simp⟩
  rw [iops, List.filter_cons_of_pos hgrep, List.filter_nil, List.map_singleton, hline,
    fieldBy_succ List.not_mem_nil, fieldBy_succ List.not_mem_nil, fieldBy_last hvalue,
    fieldBy_succ (by decide), fieldBy_last (hfree '=' rfl), hfirst, numValue_decimal]

theorem iops_oneResult (round : ℕ) (f : List Char) (m agent : ℕ) (n : List Char) :
    iops (oneResult round f m agent n) = if agent = round ∧ n = f then [(m : ℚ)] else [] := by
  unfold oneResult
  split
  · exact iops_line m
  · rfl

/-- What is collected is the one result, in a series that has its round. -/
theorem collected_oneResult {round : ℕ} (hround : 0 < round) (m rounds : ℕ) (n : List Char) :
    collected (oneResult round f m) rounds n =
      if round ≤ rounds ∧ n = f then [(m : ℚ)] else [] := by
  induction rounds with
  | zero => rw [if_neg (by omega)]; rfl
  | succ rounds ih =>
    rw [collected_succ, ih, iops_oneResult]
    by_cases hn : n = f
    · simp only [hn, and_true]
      rcases lt_trichotomy round (rounds + 1) with hlt | rfl | hgt
      · rw [if_pos (by omega), if_neg (by omega), if_pos (by omega)]
        rfl
      · rw [if_neg (by omega), if_pos rfl, if_pos (le_refl _)]
        rfl
      · rw [if_neg (by omega), if_neg (by omega), if_neg (by omega)]
        rfl
    · simp [hn]

/-- The total of such a series should be the result, as often as its job is there. -/
theorem sum_jobMean_oneResult {round testTimes : ℕ} (hround : 0 < round) (hle : round ≤ testTimes)
    (m : ℕ) : (names.map (jobMean testTimes (oneResult round f m))).sum = names.count f * m := by
  have hmean : ∀ n, jobMean testTimes (oneResult round f m) n = if n = f then (m : ℚ) else 0 := by
    intro n
    rw [jobMean, meanIops, collected_oneResult hround]
    by_cases hn : n = f
    · simp [hn, hle]
    · have hzero : reread 0 = 0 := reread_natCast 0
      simp [hn, hzero]
  rw [List.map_congr_left fun n _ => hmean n, sum_indicator]

/-- A mean of more than one number, one of which is a result, is not always printed in a total like
the result: where the result is large, and has too many digits for anything but the very total to be
printed like it, the mean is three quarters of it at most. -/
theorem not_forall_total {left rest : ℚ} {n k : ℕ} (hn : 0 < n) :
    ¬ ∀ m : ℕ, reread (reread ((left + m) / (n + 1)) + k * m + rest) = (k + 1) * m := by
  intro htotal
  have hone : (1 : ℚ) ≤ n := by exact_mod_cast hn
  -- a result that is much larger than what is left, and not divisible by ten
  obtain ⟨i, hi⟩ := exists_nat_gt
    (max (10 ^ 6) (max (2 * (n + 1) * |rest| + |left|) (4 * |rest| + 3 * |left|)))
  obtain ⟨hlarge, hi'⟩ := max_lt_iff.mp hi
  obtain ⟨hlow, hhigh⟩ := max_lt_iff.mp hi'
  obtain ⟨m, hm⟩ : ∃ m, m = 10 * i + 1 := ⟨_, rfl⟩
  have him : (i : ℚ) ≤ m := by exact_mod_cast (by omega : i ≤ m)
  have hcoprime : Nat.Coprime 10 m := by
    rw [hm, Nat.coprime_mul_left_add_right]
    exact Nat.coprime_one_right 10
  have hmlarge : 10 ^ 6 < m := by exact_mod_cast hlarge.trans_le him
  have hleft := neg_abs_le left
  have hleft' := le_abs_self left
  have hrest := neg_abs_le rest
  have hrest' := le_abs_self rest
  have hpos : 0 ≤ left + m := by
    have : 0 ≤ 2 * ((n : ℚ) + 1) * |rest| := by positivity
    linarith
  have hmean : 0 ≤ (left + m) / ((n : ℚ) + 1) := by positivity
  have hnonneg : 0 ≤ reread ((left + m) / (n + 1)) + k * m + rest := by
    have hsmall : |rest| ≤ (left + m) / (n + 1) / 2 := by
      rw [div_div, le_div_iff₀ (by positivity)]
      linarith
    have hkm : (0 : ℚ) ≤ k * m := by positivity
    have hread := le_reread hmean
    linarith
  have heq := eq_of_reread_eq hnonneg hcoprime hmlarge (htotal m)
  have hhalf : (left + m) / (n + 1) ≤ (left + m) / 2 := by
    gcongr
    linarith
  have hread := reread_le hmean
  linarith

/-- **What is left of a job shows** when it has a result in the last round: the average is over one
more number than there are rounds, so it does not keep up with the result. -/
theorem left_of_last_result (hf : f ∈ names) {csv : List Char → List ℚ} {rounds : ℕ}
    (h : ∀ m, reread (lastMeans (fun n => iops (oneResult (rounds + 1) f m (rounds + 1) n)) names fun n =>
        csv n ++ appended names (oneResult (rounds + 1) f m) rounds n).sum =
      reread (names.map (jobMean (rounds + 1) (oneResult (rounds + 1) f m))).sum) :
    csv f = [] := by
  obtain ⟨k, hk⟩ := Nat.exists_eq_add_one_of_ne_zero (List.count_pos_iff.mpr hf).ne'
  have happended : ∀ m n, appended names (oneResult (rounds + 1) f m) rounds n = [] := by
    intro m n
    rw [appended, List.flatMap_eq_nil_iff]
    intro i hi
    have hlt := List.mem_range.mp hi
    rw [iops_oneResult, if_neg (by omega)]
    simp [copies]
  -- the total has a part that does not depend on the result
  obtain ⟨rest, hrest⟩ : ∃ rest : ℚ, ∀ m, (lastMeans
      (fun n => iops (oneResult (rounds + 1) f m (rounds + 1) n))
      (names.filter fun n => !(n == f)) csv).sum = rest := by
    refine ⟨(lastMeans (fun _ => []) (names.filter fun n => !(n == f)) csv).sum, fun m => ?_⟩
    refine congrArg List.sum (lastMeans_congr (fun n hn => ?_) fun _ _ => rfl)
    rw [iops_oneResult, if_neg fun hand => ?_]
    simpa [hand.2] using (List.mem_filter.mp hn).2
  have htotal : ∀ m : ℕ, reread (reread (((csv f).sum + m) / ((csv f).length + 1)) + k * m + rest) =
      (k + 1) * m := by
    intro m
    have hm := h m
    simp only [happended, List.append_nil] at hm
    rw [sum_lastMeans_split f, hrest, List.filter_beq, hk, sum_lastMeans_replicate,
      sum_jobMean_oneResult (Nat.succ_pos _) (le_refl _), hk, iops_oneResult, if_pos ⟨rfl, rfl⟩,
      ← Nat.cast_mul, reread_natCast] at hm
    simp only [List.sum_append, List.sum_singleton, List.length_append, List.length_singleton,
      Nat.cast_add, Nat.cast_mul, Nat.cast_one, div_one, reread_natCast] at hm
    exact hm
  by_contra hne
  exact not_forall_total (List.length_pos_iff.mpr hne) htotal

/-- **A job that is collected twice shows** when it has a result in the first round only: the
average of the first time has all results, and the second time there are none. -/
theorem count_eq_one_of_first_result (hf : f ∈ names) {csv : List Char → List ℚ}
    (hcsv : ∀ n ∈ names, csv n = []) {rounds : ℕ} (hrounds : 0 < rounds)
    (h : reread (lastMeans (fun n => iops (oneResult 1 f 1 (rounds + 1) n)) names fun n =>
        csv n ++ appended names (oneResult 1 f 1) rounds n).sum =
      reread (names.map (jobMean (rounds + 1) (oneResult 1 f 1))).sum) : names.count f = 1 := by
  obtain ⟨k, hk⟩ := Nat.exists_eq_add_one_of_ne_zero (List.count_pos_iff.mpr hf).ne'
  -- the last round has no results, and of the earlier ones only the first has one
  have hnew : (fun n => iops (oneResult 1 f 1 (rounds + 1) n)) = fun _ => [] := by
    funext n
    rw [iops_oneResult, if_neg (by omega)]
  have happended : ∀ n, appended names (oneResult 1 f 1) rounds n =
      if n = f then List.replicate (k + 1) (1 : ℚ) else [] := by
    intro n
    obtain ⟨r, rfl⟩ := Nat.exists_eq_succ_of_ne_zero hrounds.ne'
    have hlater : (List.range r).flatMap (fun i =>
        copies names n (iops (oneResult 1 f 1 (i + 1 + 1) n))) = [] := by
      rw [List.flatMap_eq_nil_iff]
      intro i _
      rw [iops_oneResult, if_neg (by omega)]
      simp [copies]
    rw [appended, Nat.succ_eq_add_one, List.range_succ_eq_map, List.flatMap_cons,
      List.flatMap_map, hlater, List.append_nil, iops_oneResult]
    by_cases hn : n = f
    · subst hn
      rw [if_pos ⟨rfl, rfl⟩, if_pos rfl, copies, hk]
      simp
    · rw [if_neg fun hand => hn hand.2, if_neg hn]
      simp [copies]
  -- the other files stay empty and add nothing
  have hothers : (lastMeans (fun _ => []) (names.filter fun n => !(n == f)) fun n =>
      csv n ++ appended names (oneResult 1 f 1) rounds n).sum = 0 := by
    rw [lastMeans_of_nil fun n hn => ?_]
    · exact congrArg List.sum (List.flatMap_eq_nil_iff.mpr fun _ _ => rfl)
    · have hin := List.mem_filter.mp hn
      rw [hcsv n hin.1, happended, if_neg (by simpa using hin.2)]
      rfl
  rw [hnew, sum_lastMeans_split f, hothers, List.filter_beq, hk, sum_lastMeans_replicate,
    sum_jobMean_oneResult Nat.one_pos (by omega), hk, hcsv f hf, happended, if_pos rfl,
    ← Nat.cast_mul, reread_natCast] at h
  -- a file that is there `k + 1` times has a mean of 1, and it is added as often
  have hmean : ((k : ℚ) + 1) / (k + 1) = 1 := div_self (by positivity)
  have hone : reread 1 = 1 := reread_natCast 1
  have hzero : reread 0 = 0 := reread_natCast 0
  simp only [List.nil_append, List.append_nil, List.sum_replicate, List.length_replicate,
    nsmul_eq_mul, mul_one, Nat.cast_add, Nat.cast_one, hmean, hone, List.sum_nil,
    List.length_nil, Nat.cast_zero, div_zero, hzero, mul_zero, add_zero] at h
  have hk' : (k : ℚ) = 0 := by linarith
  rw [hk, Nat.cast_eq_zero.mp hk']

end OneResult

/-! ### A complete series -/

section Complete

variable {s : Settings} {tazyu : ℕ} {calls : List Invocation}

/-- What a series prints behind a history. -/
theorem printedTotal_after {rounds : ℕ} (hrounds : s.testTimes = rounds + 1)
    (results : ℕ → List Char → List (List Char)) (calls : List Invocation) :
    printedTotal s tazyu results (after s tazyu calls) =
      some (reread (lastMeans (fun n => iops (results (rounds + 1) n)) (jobNames s tazyu) fun n =>
        (after s tazyu calls).csv n ++ appended (jobNames s tazyu) results rounds n).sum) := by
  rw [printedTotal, hrounds, series_succ, tmpsum_after, List.nil_append, List.getLast?_concat]

/-- A history is clean when the series with one result are right. -/
theorem clean_of_right (h : SeriesRight s tazyu calls) : CleanStart s tazyu calls := by
  obtain ⟨rounds, hrounds⟩ := Nat.exists_eq_succ_of_ne_zero s.testTimes_pos.ne'
  have htotal : ∀ results, reread (lastMeans (fun n => iops (results (rounds + 1) n))
      (jobNames s tazyu) fun n =>
        (after s tazyu calls).csv n ++ appended (jobNames s tazyu) results rounds n).sum =
      reread ((jobNames s tazyu).map (jobMean (rounds + 1) results)).sum := by
    intro results
    have hright := h.total results
    rw [printedTotal_after hrounds, hrounds] at hright
    exact Option.some.inj hright
  have hleft : ∀ f ∈ jobNames s tazyu, (after s tazyu calls).csv f = [] :=
    fun f hf => left_of_last_result hf fun m => htotal _
  refine ⟨(csv_after_eq_nil_iff calls).mp hleft, ?_⟩
  rcases Nat.eq_zero_or_pos rounds with hone | hmore
  · exact Or.inl (by rw [hrounds, hone])
  · exact Or.inr (List.nodup_iff_count_eq_one.mpr fun f hf =>
      count_eq_one_of_first_result hf hleft hmore (htotal _))

/-- Behind a clean history, a series prints the total of its own rounds. -/
theorem printedTotal_of_clean (h : CleanStart s tazyu calls)
    (results : ℕ → List Char → List (List Char)) :
    printedTotal s tazyu results (after s tazyu calls) =
      some (reread ((jobNames s tazyu).map (jobMean s.testTimes results)).sum) := by
  obtain ⟨rounds, hrounds⟩ := Nat.exists_eq_succ_of_ne_zero s.testTimes_pos.ne'
  have hcsv := (csv_after_eq_nil_iff calls).mpr h.nothingLeft
  have hmeans : lastMeans (fun n => iops (results (rounds + 1) n)) (jobNames s tazyu)
        (fun n => (after s tazyu calls).csv n ++ appended (jobNames s tazyu) results rounds n) =
      (jobNames s tazyu).flatMap fun n => awkMean (collected results (rounds + 1) n) := by
    rcases h.distinct with hone | hnodup
    · obtain rfl : rounds = 0 := by omega
      rw [lastMeans_of_nil fun n hn => by rw [hcsv n hn]; rfl]
      simp [collected]
    · exact lastMeans_appended hnodup hcsv rounds
  rw [printedTotal_after hrounds, hmeans, sum_flatMap_awkMean, hrounds]
  rfl

end Complete

/-- **A complete series is right exactly when** nothing of an earlier one is left, and no job is
collected twice.  The script appends to files that it does not clear, so a series that was given up
counts in the next one. -/
theorem seriesRight_iff (s : Settings) (tazyu : ℕ) (calls : List Invocation) :
    SeriesRight s tazyu calls ↔ CleanStart s tazyu calls := by
  constructor
  · exact clean_of_right
  · intro h
    have hempty : CleanStart s tazyu [] := ⟨fun i hi => absurd hi List.not_mem_nil, h.distinct⟩
    have htotal := printedTotal_of_clean h
    refine ⟨htotal, fun results hexact hsum => ?_, fun results => ?_⟩
    · have hmeans : (jobNames s tazyu).map (jobMean s.testTimes results) =
          (jobNames s tazyu).map (meanIops s.testTimes results) := List.map_congr_left hexact
      rw [htotal, hmeans, hsum]
    · exact (htotal results).trans (printedTotal_of_clean hempty results).symm

/-- One disk, and two rounds. -/
def twoRounds : Settings := ⟨⟨["sdb".toList], by decide⟩, 2, by decide⟩

/-- A series that has been given up in its first round. -/
def givenUp : List Invocation := [⟨1, fun _ => [",,iops=100".toList]⟩]

/-- The result of the series that has been given up is still in the average. -/
theorem not_seriesRight_givenUp : ¬ SeriesRight twoRounds 1 givenUp := by
  intro h
  have hnothing := (clean_of_right h).nothingLeft _ List.mem_cons_self _ List.mem_cons_self
  revert hnothing
  decide +kernel

end LinuxNote.Fio
