import LinuxNote.Base.SortUnique
import LinuxNote.Base.Words
import LinuxNote.Fio.GetData
import LinuxNote.Fio.Num2str

/-!
# What is collected of a report of fio

fio prints a line with the operations per second for each direction, as a number with a unit, and
the scripts that collect the results read the number without the unit.

## Main definitions

* `ThreadStat`, `showDdirStatus`, `showThreadStatus` — the functions of `stat.c` that print the
  lines.
* `shown`, `perSecond` — the directions that have a line, and the number that is meant.

## Main results

* `iops_showThreadStatus` — one number is collected for each direction.
* `collected_right_iff` — **the numbers that are collected are those that are meant exactly when**
  all of them are below a million.
-/

namespace LinuxNote.Fio.Status

open AwkNumber ShellText CText Num2str

/-! ### The report -/

/-- The directions of the data. -/
inductive Ddir
  | read
  | write
  | trim
deriving DecidableEq

/-- `ddir_str`, with a blank behind the shorter word, so that the columns are the same. -/
def Ddir.str : Ddir → List Char
  | .read => "read ".toList
  | .write => "write".toList
  | .trim => "trim".toList

/-- What a thread has counted for a direction, with the time in milliseconds. -/
structure DdirStat where
  ioBytes : ℕ
  totalIoU : ℕ
  runtime : ℕ
  ioBytes_lt : ioBytes < 2 ^ 64
  totalIoU_lt : totalIoU < 2 ^ 64

/-- What a thread has counted, for each direction.  The base of the units is bits or bytes. -/
structure ThreadStat where
  ddir : Ddir → DdirStat
  unitBase : ℕ

/-- What it is printed with: the step of the units, and whether the directions are reported as one.
-/
structure GroupRunStats where
  kbBase : ℕ
  unifiedRwRep : Bool

/-- The other lines of a report: those before the directions, those behind the line of each, and
those behind all.  Any lines may stand there. -/
structure OtherLines where
  header : List (List Char)
  details : Ddir → List (List Char)
  rest : List (List Char)

/-- `is_power_of_2`, which is asked for the step of the units: 1024 is one, and 1000 is none. -/
def isPowerOf2 (val : ℕ) : Bool := val != 0 && val &&& (val - 1) == 0

/-- The operations per second: `1000 * total_io_u` has 64 bits. -/
def DdirStat.perSecond (st : DdirStat) : ℕ := 1000 * st.totalIoU % 2 ^ 64 / st.runtime

/-- The bytes per second: `1000 * io_bytes` has 64 bits, too. -/
def DdirStat.bandwidth (st : DdirStat) : ℕ := 1000 * st.ioBytes % 2 ^ 64 / st.runtime

/-- The line of a direction.  `getdata-fio.sh` looks for `iops`, and takes what is behind the `=`
in the third part between commas. -/
def statusLine (rs : GroupRunStats) (ts : ThreadStat) (ddir : Ddir) : Option (List Char) := do
  let i2p := isPowerOf2 rs.kbBase
  let ioP ← num2str (ts.ddir ddir).ioBytes 6 1 i2p 8
  let bwP ← num2str (ts.ddir ddir).bandwidth 6 1 i2p ts.unitBase
  let iopsP ← num2str (ts.ddir ddir).perSecond 6 1 false 0
  some ("  ".toList ++ (if rs.unifiedRwRep then "mixed".toList else ddir.str) ++ ": io=".toList ++
    ioP ++ ", bw=".toList ++ bwP ++ "/s, iops=".toList ++ iopsP ++ ", runt=".toList ++
    (decimal (ts.ddir ddir).runtime).leftpad 6 ' ' ++ "msec".toList)

/-- `show_ddir_status`, which prints nothing for a direction in which no time has passed. -/
def showDdirStatus (rs : GroupRunStats) (ts : ThreadStat) (other : OtherLines) (ddir : Ddir) :
    Option (List (List Char)) :=
  if (ts.ddir ddir).runtime = 0 then some []
  else (statusLine rs ts ddir).map (· :: other.details ddir)

/-- `if (ts->io_bytes[ddir])`, by which a direction without any bytes is left out. -/
def showIfUsed (rs : GroupRunStats) (ts : ThreadStat) (other : OtherLines) (ddir : Ddir) :
    Option (List (List Char)) :=
  if (ts.ddir ddir).ioBytes ≠ 0 then showDdirStatus rs ts other ddir else some []

/-- `show_thread_status_normal`, with the lines of the directions in the order of the source and
any others between them. -/
def showThreadStatus (rs : GroupRunStats) (ts : ThreadStat) (other : OtherLines) :
    Option (List (List Char)) := do
  let read ← showIfUsed rs ts other .read
  let write ← showIfUsed rs ts other .write
  let trim ← showIfUsed rs ts other .trim
  some (other.header ++ read ++ write ++ trim ++ other.rest)

/-- Whether there is a line for a direction: bytes have been counted, and time has passed. -/
def ThreadStat.hasLine (ts : ThreadStat) (d : Ddir) : Bool :=
  (ts.ddir d).ioBytes != 0 && (ts.ddir d).runtime != 0

/-- The directions that have a line. -/
def ThreadStat.shown (ts : ThreadStat) : List Ddir := [Ddir.read, .write, .trim].filter ts.hasLine

/-- No other line has the word in it that the scripts look for, as those that `fio` prints do not.
-/
structure OtherLines.NoIops (other : OtherLines) : Prop where
  header : ∀ l ∈ other.header, occursIn "iops".toList l = false
  details : ∀ d, ∀ l ∈ other.details d, occursIn "iops".toList l = false
  rest : ∀ l ∈ other.rest, occursIn "iops".toList l = false

/-! ### A line -/

/-- A text that has no separator in it, so that it stays whole when `awk` splits the line that it
stands in. -/
def Plain (s : List Char) : Prop := ∀ c ∈ s, c ≠ ',' ∧ c ≠ '=' ∧ isBlank c = false

instance : DecidablePred Plain := fun s => List.decidableBAll _ s

theorem Plain.append {s t : List Char} (hs : Plain s) (ht : Plain t) : Plain (s ++ t) := by
  intro c hc
  rcases List.mem_append.mp hc with hc | hc
  · exact hs c hc
  · exact ht c hc

theorem plain_decimal (n : ℕ) : Plain (decimal n) := by
  intro c hc
  have hdigit := isDigit_of_mem_decimal hc
  refine ⟨?_, ?_, isBlank_eq_false_of_isDigit hdigit⟩
  · rintro rfl
    exact absurd hdigit (by decide)
  · rintro rfl
    exact absurd hdigit (by decide)

/-- A number with a unit has no separator in it. -/
theorem plain_num2str {num : ℕ} (pow2 : Bool) (unitBase : ℕ) (h : num < 2 ^ 64) :
    ∃ s, num2str num 6 1 pow2 unitBase = some s ∧ s ≠ [] ∧ Plain s := by
  obtain ⟨k, n, fraction, letter, hletter, hprint, hshown⟩ :=
    num2str_says pow2 unitBase h (by decide : 5 ≤ 6) (by decide)
  refine ⟨_, hprint, by simp [decimal_ne_nil], (((plain_decimal n).append ?_).append ?_).append ?_⟩
  · by_cases hnone : fraction = []
    · rw [hnone]
      exact fun c hc => absurd hc List.not_mem_nil
    · obtain ⟨⟨m, rfl⟩, -⟩ := hshown.below hnone
      exact Plain.append (s := ['.']) (by decide) (plain_decimal m)
  · have hall : ∀ letter ∈ postfixes, Plain letter := by decide
    exact hall letter (List.mem_of_getElem? hletter)
  · unfold bytePostfix
    split <;> decide

theorem perSecond_lt (st : DdirStat) : st.perSecond < 2 ^ 64 :=
  Nat.lt_of_le_of_lt (Nat.div_le_self _ _) (Nat.mod_lt _ (by decide))

theorem bandwidth_lt (st : DdirStat) : st.bandwidth < 2 ^ 64 :=
  Nat.lt_of_le_of_lt (Nat.div_le_self _ _) (Nat.mod_lt _ (by decide))

/-- **The line of a direction** is found, and its third field is the number with its unit, which
has no separator in it. -/
theorem statusLine_ok (rs : GroupRunStats) (ts : ThreadStat) (d : Ddir) :
    ∃ line z, statusLine rs ts d = some line ∧
      num2str (ts.ddir d).perSecond 6 1 false 0 = some z ∧ occursIn "iops".toList line = true ∧
      field 1 (fieldBy '=' 2 (fieldBy ',' 3 line)) = z := by
  obtain ⟨x, hx, -, hxplain⟩ := plain_num2str (isPowerOf2 rs.kbBase) 8 (ts.ddir d).ioBytes_lt
  obtain ⟨y, hy, -, hyplain⟩ :=
    plain_num2str (isPowerOf2 rs.kbBase) ts.unitBase (bandwidth_lt (ts.ddir d))
  obtain ⟨z, hz, hne, hzplain⟩ := plain_num2str false 0 (perSecond_lt (ts.ddir d))
  -- the parts of the line between its commas, of which only the third one is looked at
  let name := if rs.unifiedRwRep then "mixed".toList else d.str
  let first := "  ".toList ++ name ++ ": io=".toList ++ x
  let second := " bw=".toList ++ y ++ "/s".toList
  let last := " runt=".toList ++ (decimal (ts.ddir d).runtime).leftpad 6 ' ' ++ "msec".toList
  have hline : statusLine rs ts d =
      some (first ++ ',' :: (second ++ ',' :: (" iops".toList ++ '=' :: z ++ ',' :: last))) := by
    have hbw : ", bw=".toList = ',' :: " bw=".toList := rfl
    have hiops : "/s, iops=".toList = "/s".toList ++ ',' :: (" iops".toList ++ ['=']) := rfl
    have hrunt : ", runt=".toList = ',' :: " runt=".toList := rfl
    simp only [statusLine, hx, hy, hz, Option.bind_eq_bind, Option.bind_some, first, second, last,
      hbw, hiops, hrunt, List.append_assoc, List.cons_append, List.nil_append]
    rfl
  -- no part has a comma in it, as no number that is printed has one
  have hfirst : ',' ∉ first := by
    have hname : ',' ∉ name := by
      show ',' ∉ if rs.unifiedRwRep then "mixed".toList else d.str
      split
      · decide
      · cases d <;> decide
    simp only [first, List.mem_append, not_or]
    exact ⟨⟨⟨by decide, hname⟩, by decide⟩, fun h => (hxplain _ h).1 rfl⟩
  have hsecond : ',' ∉ second := by
    simp only [second, List.mem_append, not_or]
    exact ⟨⟨by decide, fun h => (hyplain _ h).1 rfl⟩, by decide⟩
  have hthird : ',' ∉ " iops".toList ++ '=' :: z := by
    simp only [List.mem_append, List.mem_cons, not_or]
    exact ⟨by decide, by decide, fun h => (hzplain _ h).1 rfl⟩
  refine ⟨_, z, hline, hz, ?_, ?_⟩
  · rw [occursIn_iff]
    refine ⟨first ++ ',' :: second ++ [',', ' '], '=' :: z ++ ',' :: last, ?_⟩
    have hiops : " iops".toList = ' ' :: "iops".toList := rfl
    simp only [hiops, List.append_assoc, List.cons_append, List.nil_append]
  · rw [fieldBy_succ hfirst, fieldBy_succ hsecond, fieldBy_one hthird,
      fieldBy_succ (by decide), fieldBy_last fun h => (hzplain _ h).2.1 rfl]
    rw [field, words_free hne fun c hc => (hzplain c hc).2.2]
    rfl

/-! ### The report -/

/-- The number that is read from the text of a number of operations. -/
def collected (n : ℕ) : ℚ := ((num2str n 6 1 false 0).map numValue).getD 0

theorem iops_append (a b : List (List Char)) : iops (a ++ b) = iops a ++ iops b := by
  rw [iops, List.filter_append, List.map_append]
  rfl

/-- Nothing is collected of the other lines. -/
theorem iops_none {ls : List (List Char)} (h : ∀ l ∈ ls, occursIn "iops".toList l = false) :
    iops ls = [] := by
  rw [iops, List.filter_eq_nil_iff.mpr fun l hl => Bool.eq_false_iff.mp (h l hl), List.map_nil]

/-- What is printed for a direction, if it has any bytes. -/
theorem iops_showIfUsed (rs : GroupRunStats) (ts : ThreadStat) {other : OtherLines}
    (hother : other.NoIops) (d : Ddir) : ∃ lines, showIfUsed rs ts other d = some lines ∧
      iops lines = if ts.hasLine d then [collected (ts.ddir d).perSecond] else [] := by
  by_cases hbytes : (ts.ddir d).ioBytes = 0
  · have hno : ts.hasLine d = false := by simp [ThreadStat.hasLine, hbytes]
    exact ⟨[], if_neg (not_not.mpr hbytes), by rw [hno]; rfl⟩
  by_cases hruntime : (ts.ddir d).runtime = 0
  · have hno : ts.hasLine d = false := by simp [ThreadStat.hasLine, hruntime]
    refine ⟨[], ?_, by rw [hno]; rfl⟩
    rw [showIfUsed, if_pos hbytes, showDdirStatus, if_pos hruntime]
  · obtain ⟨line, z, hline, hz, hfound, hfield⟩ := statusLine_ok rs ts d
    have hyes : ts.hasLine d = true := by simp [ThreadStat.hasLine, hbytes, hruntime]
    refine ⟨line :: other.details d, ?_, ?_⟩
    · rw [showIfUsed, if_pos hbytes, showDdirStatus, if_neg hruntime, hline]
      rfl
    · have hdetails := iops_none (hother.details d)
      rw [hyes, ← List.singleton_append, iops_append, hdetails, List.append_nil, iops,
        List.filter_cons_of_pos hfound, List.filter_nil, List.map_singleton, hfield, collected, hz]
      rfl

/-- **One number is collected for each direction** that has a line, and none for another line of
the report. -/
theorem iops_showThreadStatus (rs : GroupRunStats) (ts : ThreadStat) {other : OtherLines}
    (hother : other.NoIops) : ∃ lines, showThreadStatus rs ts other = some lines ∧
      iops lines = ts.shown.map fun d => collected (ts.ddir d).perSecond := by
  obtain ⟨read, hread, hreadIops⟩ := iops_showIfUsed rs ts hother .read
  obtain ⟨write, hwrite, hwriteIops⟩ := iops_showIfUsed rs ts hother .write
  obtain ⟨trim, htrim, htrimIops⟩ := iops_showIfUsed rs ts hother .trim
  refine ⟨other.header ++ read ++ write ++ trim ++ other.rest, ?_, ?_⟩
  · simp only [showThreadStatus, hread, hwrite, htrim, Option.bind_eq_bind, Option.bind_some]
  · rw [iops_append, iops_append, iops_append, iops_append, iops_none hother.header,
      iops_none hother.rest, hreadIops, hwriteIops, htrimIops, List.nil_append, List.append_nil,
      ThreadStat.shown]
    cases hr : ts.hasLine .read <;> cases hw : ts.hasLine .write <;>
      cases ht : ts.hasLine .trim <;> simp [hr, hw, ht]

/-- A number of operations is read as it is exactly when it is below a million: else it has a
unit, which does not count. -/
theorem collected_eq_iff {n : ℕ} (h : n < 2 ^ 64) : collected n = n ↔ n < 10 ^ 6 := by
  obtain ⟨k, m, fraction, letter, hletter, hprint, hshown⟩ :=
    num2str_says false 0 h (by decide : 5 ≤ 6) (by decide)
  have hfraction : fraction = [] ∨ ∃ i, fraction = '.' :: decimal i :=
    (Classical.em (fraction = [])).imp_right fun hne => (hshown.below hne).1
  obtain ⟨-, hlt, hwhole⟩ := numValue_text hletter 0 m hfraction
  rw [collected, hprint, Option.map_some, Option.getD_some]
  constructor
  · intro heq
    by_contra hlarge
    by_cases hnone : fraction = []
    · -- the number without its unit is less
      have hm : m = n := by
        rw [hwhole hnone] at heq
        exact_mod_cast heq
      have hk : k ≠ 0 := fun hk => hlarge (hshown.fits.mp hk)
      have hunit : thousand false ≤ thousand false ^ k := Nat.le_self_pow hk _
      have hnearest : 2 * (m * thousand false ^ k) ≤ 2 * n + thousand false ^ k :=
        (hshown.nearest hnone).1
      have hthousand := two_le_thousand false
      generalize thousand false ^ k = u at *
      subst hm
      nlinarith
    · -- so it is with a fraction, as the whole text has six characters
      have hlen := (hshown.below hnone).2.2.2
      rw [List.length_append] at hlen
      have hm : m < 10 ^ 6 := (fits_iff (by decide) m).mp (by omega)
      have hle : (m : ℚ) + 1 ≤ n := by exact_mod_cast hm.trans_le (Nat.not_lt.mp hlarge)
      rw [heq] at hlt
      exact absurd hlt (not_lt.mpr hle)
  · intro hsmall
    obtain ⟨hm, hnone⟩ := hshown.exact (hshown.fits.mpr hsmall)
    rw [hwhole hnone, hm]
    rfl

/-- **The numbers that are collected are those that are meant exactly when** all of them are below
a million: from there `num2str` prints a unit, of which the script does not know, so 1500K is taken
for 1500. -/
theorem collected_right_iff (rs : GroupRunStats) (ts : ThreadStat) {other : OtherLines}
    (hother : other.NoIops) : ∃ lines, showThreadStatus rs ts other = some lines ∧
      (iops lines = (ts.shown.map fun d => ((ts.ddir d).perSecond : ℚ)) ↔
        ∀ d ∈ ts.shown, (ts.ddir d).perSecond < 10 ^ 6) := by
  obtain ⟨lines, hlines, hiops⟩ := iops_showThreadStatus rs ts hother
  refine ⟨lines, hlines, ?_⟩
  rw [hiops, List.map_inj_left]
  exact forall₂_congr fun d _ => collected_eq_iff (perSecond_lt _)

/-- A thread that has only read, a million and a half of times in a second. -/
def fastReads : ThreadStat where
  ddir
    | .read => ⟨6144000000, 1500000, 1000, by decide, by decide⟩
    | _ => ⟨0, 0, 0, by decide, by decide⟩
  unitBase := 8

/-- The other lines of the report for it. -/
def fastLines : OtherLines where
  header := ["sdb: (groupid=0, jobs=1): err= 0: pid=3021: Tue Dec 19 10:21:04 2017".toList]
  details
    | .read => [
      "    clat (usec): min=1, max=88, avg= 1.52, stdev= 0.61".toList,
      "     lat (usec): min=1, max=89, avg= 1.60, stdev= 0.62".toList,
      "    bw (MB  /s): min= 5790, max= 6012, per=100.00%, avg=5859.38, stdev=71.32".toList]
    | _ => []
  rest := [
    "    lat (usec) : 2=95.10%, 4=4.71%, 10=0.15%, 20=0.03%, 50=0.01%".toList,
    "    lat (usec) : 100=0.01%".toList,
    "  cpu          : usr=41.12%, sys=58.80%, ctx=6, majf=0, minf=26".toList,
    "  IO depths    : 1=100.0%, 2=0.0%, 4=0.0%, 8=0.0%, 16=0.0%, 32=0.0%, >=64=0.0%".toList,
    "     issued    : total=r=1500000/w=0/d=0, short=r=0/w=0/d=0".toList]

theorem collected_right_iff_fast : ∃ lines,
    showThreadStatus ⟨1024, false⟩ fastReads fastLines = some lines ∧
      (iops lines = (fastReads.shown.map fun d => ((fastReads.ddir d).perSecond : ℚ)) ↔
        ∀ d ∈ fastReads.shown, (fastReads.ddir d).perSecond < 10 ^ 6) :=
  collected_right_iff ⟨1024, false⟩ fastReads
    ⟨by decide +kernel, fun d => by cases d <;> decide +kernel, by decide +kernel⟩

-- one and a half thousand is what is collected
example : collected 1500000 = 1500 := by decide +kernel

end LinuxNote.Fio.Status
