import LinuxNote.Base.CDouble
import LinuxNote.Base.RingBuffer
import Mathlib.Algebra.BigOperators.Group.List.Basic
import Mathlib.Data.List.DropRight

/-!
# The estimate of the CPU usage

cpulimit photographs the process that it controls once in each period, keeps the last ten
screenshots in a ring, and estimates from them how much of a CPU the process uses.  The estimate is a
`float` in the source; here no number is rounded, while what a division by zero gives is kept.

## Main definitions

* `computeCpuUsage`, `Statics.reinit` — `compute_cpu_usage`, with its static variables and what
  `getjiffies` and the clock say as arguments; and the call of it that only sets the variables.
* `estimate` — the estimate from a list of screenshots.
* `Remembers` — the static variables hold the last nine screenshots of a history.

## Main results

* `computeCpuUsage_ok` — the step: the estimate is that from the last ten screenshots.
* `computeCpuUsage_right` — **every estimate is that from the last ten screenshots** since the
  variables have been set, whatever was in the ring before.
-/

namespace LinuxNote.Cpulimit

open RingBuffer CDouble

/-- `HZ`. -/
def HZ : ℤ := 100

/-- `struct timespec`. -/
structure Timespec where
  tvSec : ℤ
  tvNsec : ℤ
deriving DecidableEq

/-- `timediff`, in microseconds. -/
def timediff (ta tb : Timespec) : ℤ :=
  (ta.tvSec - tb.tvSec) * 1000000 + (ta.tvNsec.tdiv 1000 - tb.tvNsec.tdiv 1000)

/-- `struct process_screenshot`. -/
structure ProcessScreenshot where
  when : Timespec
  jiffies : ℤ
  cputime : ℤ
deriving DecidableEq

/-- `struct cpu_usage`. -/
structure CpuUsage where
  pcpu : CDouble
  workingrate : CDouble
deriving DecidableEq

/-- `MEM_ORDER`. -/
def memOrder : ℕ := 10

/-- The static variables of `compute_cpu_usage`: the ring of screenshots, with the newest one at
`front` and the oldest one at `tail`. -/
structure Statics where
  ps : ℕ → ProcessScreenshot
  front : ℤ
  tail : ℕ

/-- The variables when the program starts. -/
def Statics.zeroed : Statics := ⟨fun _ => ⟨⟨0, 0⟩, 0, 0⟩, -1, 0⟩

/-- The call of `compute_cpu_usage` without a place for the result.  It empties the ring and leaves
the old screenshots in its cells. -/
def Statics.reinit (s : Statics) : Statics := { s with front := -1, tail := 0 }

/-- The result of the first call, in which there is nothing to compare with: a usage of -1 says so.
-/
def notYet : CpuUsage := ⟨finite (-1), finite 1⟩

/-- The result from the oldest and the newest screenshot, and the time that the process has been
let run between them, without the rounding of `float`. -/
def measured (oldest newest : ProcessScreenshot) (dtwork : ℤ) : CpuUsage :=
  let dt := timediff newest.when oldest.when
  let used := newest.jiffies - oldest.jiffies
  let usage := finite (used * 1000000 / HZ) / finite dtwork
  let workingrate := finite dtwork / finite dt
  ⟨usage * workingrate, workingrate⟩

/-- `compute_cpu_usage`: the static variables after the call, and its result, unless the process
does not exist; then `front` has been moved already. -/
def computeCpuUsage (jiffies : ℤ) (when : Timespec) (lastWorkingQuantum : ℤ) (s : Statics) :
    Option (Statics × Option CpuUsage) :=
  let front := (s.front + 1) % memOrder
  if jiffies < 0 then some ({ s with front := front }, none)
  else
    let ps := Function.update s.ps front.toNat ⟨when, jiffies, lastWorkingQuantum⟩
    let size := (front - s.tail + memOrder) % memOrder + 1
    if size = 1 then some (⟨ps, front, s.tail⟩, some notYet)
    else do
      let max := ((front + 1) % memOrder).toNat
      let dtwork ← foldAround memOrder ps (fun dtwork p => dtwork + p.cputime) max memOrder
        ((s.tail + 1) % memOrder) 0
      let usage := measured (ps s.tail) (ps front.toNat) dtwork
      let tail := if size = memOrder then (s.tail + 1) % memOrder else s.tail
      some (⟨ps, front, tail⟩, some usage)

/-! ### What is estimated -/

/-- The time that the process has been let run from the first screenshot on; the slice before the
first screenshot does not count. -/
def worked (w : List ProcessScreenshot) : ℤ := (w.tail.map (·.cputime)).sum

/-- The estimate from screenshots, the oldest of which is the first one, without any ring that they
are kept in. -/
def estimate : List ProcessScreenshot → CpuUsage
  | [] => notYet
  | [_] => notYet
  | p :: q :: w => measured p ((q :: w).getLast (List.cons_ne_nil q w)) (worked (p :: q :: w))

/-- The static variables hold the last nine screenshots of a history, so that the next call has ten
to look at. -/
structure Remembers (s : Statics) (h : List ProcessScreenshot) : Prop where
  holds : Holds memOrder s.ps s.tail (h.rtake 9)
  front : (s.front + 1) % memOrder = ((s.tail + (h.rtake 9).length) % memOrder : ℕ)

theorem reinit_remembers (s : Statics) : Remembers s.reinit [] where
  holds := by
    rw [List.rtake_nil]
    exact Holds.nil (Nat.zero_lt_succ 9)
  front := by
    rw [List.rtake_nil]
    rfl

/-! ### The ring and the history -/

/-- One entry less is what is left when a full list of entries gives up its oldest one. -/
theorem rtake_succ_eq {α : Type*} (l : List α) (n : ℕ) :
    l.rtake n = if (l.rtake (n + 1)).length = n + 1 then (l.rtake (n + 1)).tail
      else l.rtake (n + 1) := by
  simp only [List.rtake, List.length_drop, List.tail_drop]
  split
  · congr 1
    omega
  · congr 1
    omega

theorem rtake_nine (h : List ProcessScreenshot) (p : ProcessScreenshot) :
    (h ++ [p]).rtake 9 = if (h.rtake 9 ++ [p]).length = memOrder then (h.rtake 9 ++ [p]).tail
      else h.rtake 9 ++ [p] := by
  rw [rtake_succ_eq, List.rtake_concat_succ]
  rfl

theorem length_rtake_le {α : Type*} (l : List α) (n : ℕ) : (l.rtake n).length ≤ n := by
  rw [List.rtake, List.length_drop]
  omega

/-- Where the newest entry is, and what follows when the oldest one is given up from a full ring. -/
theorem remembers_of_holds {h : List ProcessScreenshot} {p : ProcessScreenshot}
    {ps : ℕ → ProcessScreenshot} {tail : ℕ} (hw : Holds memOrder ps tail (h.rtake 9 ++ [p])) :
    Remembers ⟨ps, ((tail + (h.rtake 9).length) % memOrder : ℕ),
      if (h.rtake 9 ++ [p]).length = memOrder then (tail + 1) % memOrder else tail⟩ (h ++ [p]) := by
  by_cases hfull : (h.rtake 9 ++ [p]).length = memOrder
  · obtain ⟨o, w, how⟩ := List.exists_cons_of_ne_nil (l := h.rtake 9 ++ [p]) (by simp)
    have hlen : (h.rtake 9).length = w.length := by
      have := congrArg List.length how
      simpa using this
    refine ⟨?_, ?_⟩
    · rw [rtake_nine, if_pos hfull, if_pos hfull, how]
      rw [how] at hw
      exact hw.pop
    · rw [rtake_nine, if_pos hfull, if_pos hfull, how, hlen, List.tail_cons]
      push_cast
      rw [Int.emod_add_emod, Int.emod_add_emod, add_right_comm]
  · refine ⟨?_, ?_⟩
    · rw [rtake_nine, if_neg hfull, if_neg hfull]
      exact hw
    · rw [rtake_nine, if_neg hfull, if_neg hfull, List.length_append, List.length_singleton]
      push_cast
      rw [Int.emod_add_emod, add_assoc]

theorem foldl_cputime (w : List ProcessScreenshot) (dtwork : ℤ) :
    w.foldl (fun dtwork p => dtwork + p.cputime) dtwork = dtwork + (w.map (·.cputime)).sum := by
  induction w generalizing dtwork with
  | nil => simp
  | cons p w ih => rw [List.foldl_cons, ih, List.map_cons, List.sum_cons, add_assoc]

theorem estimate_concat (o : ProcessScreenshot) (w : List ProcessScreenshot)
    (p : ProcessScreenshot) :
    estimate (o :: (w ++ [p])) = measured o p ((w ++ [p]).map (·.cputime)).sum := by
  cases w with
  | nil => rfl
  | cons q w => simp [estimate, worked]

/-- **One call**: the estimate is that from the last ten screenshots, and the ring remembers the
new one in the place of the oldest. -/
theorem computeCpuUsage_ok {s : Statics} {h : List ProcessScreenshot} (hs : Remembers s h)
    (p : ProcessScreenshot) (hj : 0 ≤ p.jiffies) : ∃ s',
    computeCpuUsage p.jiffies p.when p.cputime s = some (s', some (estimate ((h ++ [p]).rtake 10))) ∧
      Remembers s' (h ++ [p]) := by
  have hlen := length_rtake_le h 9
  have hpush := hs.holds.push (Nat.lt_succ_of_le hlen) p
  have hnext := remembers_of_holds hpush
  have hsize := hpush.length_eq
  rw [List.rtake_concat_succ, computeCpuUsage, hs.front, if_neg (not_lt.mpr hj)]
  simp only [Int.toNat_natCast, hsize]
  generalize Function.update s.ps ((s.tail + (h.rtake 9).length) % memOrder) p = ps at *
  -- there is no estimate from a single screenshot
  cases hw : h.rtake 9 with
  | nil =>
    rw [hw] at hnext
    exact ⟨_, if_pos rfl, hnext⟩
  | cons o w =>
    rw [hw] at hpush hnext
    have hone : ¬ ((o :: w ++ [p]).length : ℤ) = 1 := by
      simp only [List.length_append, List.length_cons, List.length_nil]
      omega
    -- the loop goes around the buffer, from behind the oldest one to behind the newest
    have hstop : ((((s.tail + (o :: w).length) % memOrder : ℕ) + 1 : ℤ) % memOrder).toNat =
        ((s.tail + 1) % memOrder + (w ++ [p]).length) % memOrder := by
      rw [← Nat.cast_succ, ← Int.natCast_emod, Int.toNat_natCast, Nat.succ_eq_add_one,
        Nat.mod_add_mod, Nat.mod_add_mod, List.length_append, List.length_singleton,
        List.length_cons, add_right_comm]
    have hlater : Holds memOrder ps ((s.tail + 1) % memOrder) (w ++ [p]) := hpush.pop
    have hworked := hlater.foldAround_eq (fun dtwork p => dtwork + p.cputime) (by simp) hstop
      hlater.length_le 0
    have hnewest := hpush.last (w := o :: w)
    have hfull : ((o :: w ++ [p]).length : ℤ) = memOrder ↔ (o :: w ++ [p]).length = memOrder :=
      Nat.cast_inj
    refine ⟨_, ?_, hnext⟩
    rw [if_neg hone, hworked, foldl_cputime, zero_add]
    simp only [Option.bind_eq_bind, Option.bind_some, hfull, hpush.head, hnewest]
    rw [List.cons_append, estimate_concat]

/-- Calls one after the other, with what they estimate. -/
def calls : List ProcessScreenshot → Statics → Option (Statics × List CpuUsage)
  | [], s => some (s, [])
  | p :: ps, s => do
    let (s, usage) ← computeCpuUsage p.jiffies p.when p.cputime s
    let (s, usages) ← calls ps s
    some (s, usage.toList ++ usages)

/-- What calls estimate that follow a history: each of them looks at the last ten screenshots up to
its own. -/
def estimates (h ps : List ProcessScreenshot) : List CpuUsage :=
  (List.range ps.length).map fun i => estimate ((h ++ ps.take (i + 1)).rtake 10)

theorem estimates_cons (h ps : List ProcessScreenshot) (p : ProcessScreenshot) :
    estimates h (p :: ps) = estimate ((h ++ [p]).rtake 10) :: estimates (h ++ [p]) ps := by
  rw [estimates, List.length_cons, List.range_succ_eq_map, List.map_cons, List.map_map]
  simp only [List.take_succ_cons, List.take_zero, Function.comp_def, Nat.succ_eq_add_one]
  simp only [← List.append_cons, estimates]

/-- Calls that follow a history. -/
theorem calls_ok {ps : List ProcessScreenshot} {s : Statics} {h : List ProcessScreenshot}
    (hs : Remembers s h) (hps : ∀ p ∈ ps, 0 ≤ p.jiffies) : ∃ s',
    calls ps s = some (s', estimates h ps) ∧ Remembers s' (h ++ ps) := by
  induction ps generalizing s h with
  | nil => exact ⟨s, rfl, by rwa [List.append_nil]⟩
  | cons p ps ih =>
    obtain ⟨s₁, hcall, hs₁⟩ := computeCpuUsage_ok hs p (hps p List.mem_cons_self)
    obtain ⟨s₂, hcalls, hs₂⟩ := ih hs₁ fun q hq => hps q (List.mem_cons_of_mem p hq)
    refine ⟨s₂, ?_, by rwa [List.append_cons]⟩
    rw [calls, hcall, estimates_cons]
    simp only [Option.bind_eq_bind, Option.bind_some, hcalls]
    rfl

/-- **Every estimate is that from the last ten screenshots**: whatever was in the ring before, the
loop over it ends, and each call looks at the screenshots since the variables have been set.  All
of the calls find the process; after one that does not `main` sets the variables again. -/
theorem computeCpuUsage_right (s : Statics) {ps : List ProcessScreenshot}
    (hps : ∀ p ∈ ps, 0 ≤ p.jiffies) : ∃ s', calls ps s.reinit = some (s',
      (List.range ps.length).map fun i => estimate ((ps.take (i + 1)).rtake 10)) := by
  obtain ⟨s', hcalls, -⟩ := calls_ok (reinit_remembers s) hps
  exact ⟨s', hcalls⟩

/-- Twelve screenshots, a tenth of a second apart, of a process that is let run half of the time. -/
def twelveShots : List ProcessScreenshot :=
  (List.range 12).map fun i => ⟨⟨0, 100000000 * i⟩, 5 * i, 50000⟩

theorem computeCpuUsage_right_twelve : ∃ s', calls twelveShots Statics.zeroed.reinit = some (s',
    (List.range 12).map fun i => estimate ((twelveShots.take (i + 1)).rtake 10)) :=
  computeCpuUsage_right Statics.zeroed (by decide)

end LinuxNote.Cpulimit
