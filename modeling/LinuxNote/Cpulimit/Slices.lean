import LinuxNote.Cpulimit.Control
import Mathlib.Algebra.Order.BigOperators.Group.List
import Mathlib.Tactic.FieldSimp
import Mathlib.Tactic.Linarith
import Mathlib.Tactic.Positivity

/-!
# The slices of cpulimit

How long the slices are in a run of the loop, and what the process is made to do in them.  What is
done in a turn does not depend on the estimates being any good; only that no slice is negative or
too long does.

## Main definitions

* `nextSlice` — the length of a working slice, from the last screenshots.
* `dutyCycle` — what is done in a turn with a working slice of a given length.
* `TurnRight` — what is done in a turn is a duty cycle, up to where the process is lost.
* `turnsMade` — the turns that a run gets to, which ends early only if it is lazy.
* `Ordinary` — the clock goes on, and the process does not lose CPU time.

## Main results

* `run_history_eq` — what is done in each turn of any run.
* `run_history_ok` — the lengths of the slices in an ordinary run.
* `main_right` — **whatever happens to the process**, each turn is a duty cycle on which the last
  ten screenshots of the process decide, and the two slices make up the period.
-/

namespace LinuxNote.Cpulimit

open CDouble

/-- A time in microseconds. -/
def micros (t : Timespec) : ℤ := t.tvSec * 1000000 + t.tvNsec.tdiv 1000

theorem timediff_eq (ta tb : Timespec) : timediff ta tb = micros ta - micros tb := by
  rw [timediff, micros, micros]
  ring

/-- The nanoseconds of a period. -/
def wholePeriod : ℤ := period * 1000

/-- The length of a working slice from the last screenshots and the slice before it: the share of
the time that the limit leaves, by what the process has used of it so far. -/
def nextSlice (limit : ℚ) (twork : ℤ) : List ProcessScreenshot → ℤ
  | [] => ⌊limit * wholePeriod⌋
  | [_] => ⌊limit * wholePeriod⌋
  | p :: q :: w =>
    let used := ((q :: w).getLast (List.cons_ne_nil q w)).jiffies - p.jiffies
    let dtwork := worked (p :: q :: w)
    if dtwork = 0 then twork
    else if used = 0 then wholePeriod
    else ⌊min (limit * dtwork / used * 10000) wholePeriod⌋

/-- Screenshots for which the clock goes on, and no time is lost: the jiffies of the process never
get less. -/
structure Orderly (w : List ProcessScreenshot) : Prop where
  sorted : w.Pairwise fun p q => micros p.when < micros q.when ∧ p.jiffies ≤ q.jiffies
  cputime : ∀ p ∈ w, 0 ≤ p.cputime

theorem Orderly.worked_nonneg {w : List ProcessScreenshot} (h : Orderly w) : 0 ≤ worked w := by
  refine List.sum_nonneg fun n hn => ?_
  obtain ⟨p, hp, rfl⟩ := List.mem_map.mp hn
  exact h.cputime p (List.mem_of_mem_tail hp)

theorem wholePeriod_cast : (period * 1000 : ℚ) = wholePeriod := by
  rw [wholePeriod]
  push_cast
  rfl

theorem adjust_notYet {limit : ℚ} (h₀ : 0 ≤ limit) (h₁ : limit ≤ 1) (twork : ℤ) :
    adjust limit notYet twork = some ⌊limit * wholePeriod⌋ := by
  have hneg : ¬ Lt (finite 0) (finite (-1)) := by decide
  have hne : finite (-1) ≠ finite 0 := by decide
  have heq : (period * limit * 1000 : ℚ) = limit * wholePeriod := by
    rw [← wholePeriod_cast]
    ring
  have hle : limit * wholePeriod ≤ wholePeriod := mul_le_of_le_one_left (by decide) h₁
  rw [notYet, adjust, if_neg hneg, if_neg hne, if_pos rfl, min_finite, heq, wholePeriod_cast,
    min_eq_left hle, toLong_finite (mul_nonneg h₀ (by decide))]

theorem adjust_nan (limit : ℚ) (rate : CDouble) (twork : ℤ) :
    adjust limit ⟨nan, rate⟩ twork = some twork := rfl

theorem adjust_zero (limit : ℚ) (rate : CDouble) (twork : ℤ) :
    adjust limit ⟨finite 0, rate⟩ twork = some wholePeriod := by
  rw [adjust, if_neg (show ¬ Lt (finite 0) (finite 0) from lt_irrefl 0), if_pos rfl]
  rfl

theorem adjust_pos {limit : ℚ} (h₀ : 0 ≤ limit) {pcpu rate : ℚ} (hpcpu : 0 < pcpu)
    (hrate : 0 ≤ rate) (twork : ℤ) : adjust limit ⟨finite pcpu, finite rate⟩ twork =
      some ⌊min (limit * wholePeriod / pcpu * rate) wholePeriod⌋ := by
  have hslice : (period * limit * 1000 : ℚ) = limit * wholePeriod := by
    rw [← wholePeriod_cast]
    ring
  have hwhole : (0 : ℚ) ≤ wholePeriod := by decide
  have hnonneg : 0 ≤ min (limit * wholePeriod / pcpu * rate) (wholePeriod : ℚ) :=
    le_min (by positivity) hwhole
  rw [adjust, if_pos (show Lt (finite 0) (finite pcpu) from hpcpu), finite_div _ hpcpu.ne',
    finite_mul, min_finite, hslice, wholePeriod_cast, toLong_finite hnonneg]

/-- The estimate when the process has been let run, and the clock has gone on. -/
theorem measured_of_ne {o n : ProcessScreenshot} {dtwork : ℤ} (hwork : dtwork ≠ 0)
    (hwhen : timediff n.when o.when ≠ 0) : measured o n dtwork =
      ⟨finite ((n.jiffies - o.jiffies : ℤ) * 10000 / dtwork * (dtwork / timediff n.when o.when)),
        finite (dtwork / timediff n.when o.when)⟩ := by
  have hdtwork : (dtwork : ℚ) ≠ 0 := Int.cast_ne_zero.mpr hwork
  have hdt : (timediff n.when o.when : ℚ) ≠ 0 := Int.cast_ne_zero.mpr hwhen
  have hticks : ((n.jiffies - o.jiffies : ℤ) * 1000000 / HZ : ℚ) =
      (n.jiffies - o.jiffies : ℤ) * 10000 := by
    rw [HZ]
    push_cast
    ring
  simp only [measured]
  rw [finite_div _ hdtwork, finite_div _ hdt, finite_mul, hticks]

/-- The estimate when the process has not been let run. -/
theorem measured_zero (o : ProcessScreenshot) {n : ProcessScreenshot}
    (hwhen : timediff n.when o.when ≠ 0) : (measured o n 0).pcpu = nan := by
  have hdt : (timediff n.when o.when : ℚ) ≠ 0 := Int.cast_ne_zero.mpr hwhen
  simp only [measured]
  rw [finite_div _ hdt, Int.cast_zero, zero_div]
  exact div_zero_mul_zero _

/-- The estimate from the oldest and the newest screenshot. -/
theorem adjust_measured {limit : ℚ} (h₀ : 0 ≤ limit) {o n : ProcessScreenshot}
    (hwhen : micros o.when < micros n.when) (hused : o.jiffies ≤ n.jiffies) {dtwork : ℤ}
    (hwork : 0 ≤ dtwork) (twork : ℤ) :
    adjust limit (measured o n dtwork) twork =
      some (if dtwork = 0 then twork else if n.jiffies - o.jiffies = 0 then wholePeriod
        else ⌊min (limit * dtwork / (n.jiffies - o.jiffies : ℤ) * 10000) wholePeriod⌋) := by
  have hdt : 0 < timediff n.when o.when := by
    rw [timediff_eq]
    omega
  rcases hwork.eq_or_lt' with rfl | hpos
  · rw [if_pos rfl, ← adjust_nan limit (measured o n 0).workingrate twork,
      ← measured_zero o hdt.ne']
  · have hdtwork : (0 : ℚ) < dtwork := Int.cast_pos.mpr hpos
    have hdt' : (0 : ℚ) < timediff n.when o.when := Int.cast_pos.mpr hdt
    rw [measured_of_ne hpos.ne' hdt.ne', if_neg hpos.ne']
    rcases eq_or_ne (n.jiffies - o.jiffies) 0 with hzero | hne
    · rw [hzero, if_pos rfl, Int.cast_zero, zero_mul, zero_div, zero_mul, adjust_zero]
    · have hticks : (0 : ℚ) < (n.jiffies - o.jiffies : ℤ) := Int.cast_pos.mpr (by omega)
      rw [if_neg hne, adjust_pos h₀ (by positivity) (by positivity)]
      congr 3
      rw [wholePeriod, period]
      push_cast
      field_simp
      ring

/-- The slice that follows from screenshots. -/
theorem adjust_estimate {limit : ℚ} (h₀ : 0 ≤ limit) (h₁ : limit ≤ 1)
    {w : List ProcessScreenshot} (hw : Orderly w) (twork : ℤ) :
    adjust limit (estimate w) twork = some (nextSlice limit twork w) := by
  match w with
  | [] => exact adjust_notYet h₀ h₁ twork
  | [_] => exact adjust_notYet h₀ h₁ twork
  | p :: q :: w =>
    obtain ⟨hwhen, hused⟩ := List.rel_of_pairwise_cons hw.sorted
      (List.getLast_mem (List.cons_ne_nil q w))
    exact adjust_measured h₀ hwhen hused hw.worked_nonneg twork

theorem nextSlice_bounds {limit : ℚ} (h₀ : 0 ≤ limit) (h₁ : limit ≤ 1)
    {w : List ProcessScreenshot} (hw : Orderly w) {twork : ℤ} (ht : 0 ≤ twork)
    (ht' : twork ≤ wholePeriod) :
    0 ≤ nextSlice limit twork w ∧ nextSlice limit twork w ≤ wholePeriod := by
  have hwhole : (0 : ℚ) ≤ wholePeriod := by decide
  have hfirst : 0 ≤ ⌊limit * wholePeriod⌋ ∧ ⌊limit * wholePeriod⌋ ≤ wholePeriod := by
    refine ⟨Int.floor_nonneg.mpr (mul_nonneg h₀ hwhole), ?_⟩
    have hle : limit * wholePeriod ≤ wholePeriod := mul_le_of_le_one_left hwhole h₁
    exact (Int.floor_mono hle).trans_eq (Int.floor_intCast wholePeriod)
  match w with
  | [] => exact hfirst
  | [_] => exact hfirst
  | p :: q :: w =>
    obtain ⟨-, hused⟩ := List.rel_of_pairwise_cons hw.sorted
      (List.getLast_mem (List.cons_ne_nil q w))
    have hworked : (0 : ℚ) ≤ worked (p :: q :: w) := Int.cast_nonneg hw.worked_nonneg
    have hticks : (0 : ℚ) ≤ (((q :: w).getLast (List.cons_ne_nil q w)).jiffies - p.jiffies : ℤ) :=
      Int.cast_nonneg (by omega)
    rw [nextSlice]
    split_ifs
    · exact ⟨ht, ht'⟩
    · exact ⟨by decide, le_rfl⟩
    · refine ⟨Int.floor_nonneg.mpr (le_min (by positivity) hwhole), ?_⟩
      exact (Int.floor_mono (min_le_right _ _)).trans_eq (Int.floor_intCast wholePeriod)

/-! ### One turn -/

/-- What is done in a turn with a working slice of `t` nanoseconds: with a limit below one, the
sleep makes up the rest of the period. -/
def dutyCycle (limit : ℚ) (t : ℤ) : List Act :=
  (if limit < 1 ∧ 0 < limit then [Act.cont] else []) ++ [Act.work t] ++
    if limit < 1 then [Act.stop, Act.sleep (wholePeriod - t)] else []

/-- The process is there, and can be resumed and stopped where the limit asks for it; a signal that
fails says that it is gone. -/
def Turn.Survives (limit : ℚ) (e : Turn) : Prop :=
  0 ≤ e.jiffies ∧ (limit < 1 → 0 < limit → e.resumed = true) ∧ (limit < 1 → e.stopped = true)

instance (limit : ℚ) (e : Turn) : Decidable (e.Survives limit) := inferInstanceAs (Decidable (_ ∧ _))

/-- What is done in a turn with a working slice of `t` nanoseconds: nothing but the beginning of a
duty cycle, with the slice in it if the process is there and lets itself be resumed, and all of it if
the process can be stopped as well. -/
structure TurnRight (limit : ℚ) (e : Turn) (t : ℤ) (acts : List Act) : Prop where
  begins : acts <+: dutyCycle limit t
  works : 0 ≤ e.jiffies → (limit < 1 → 0 < limit → e.resumed = true) → Act.work t ∈ acts
  whole : e.Survives limit → acts = dutyCycle limit t

/-- The turns that a run gets to: a lazy program ends with the first one that the process does not
survive. -/
def turnsMade (limit : ℚ) (lazy : Bool) : List Turn → List Turn
  | [] => []
  | e :: es => if lazy = true ∧ ¬ e.Survives limit then [e] else e :: turnsMade limit lazy es

theorem slices_ok {limit : ℚ} {e : Turn} (hj : 0 ≤ e.jiffies) {cu : CpuUsage} (workingtime : ℤ)
    {twork t : ℤ} (ht : adjust limit cu twork = some t) : ∃ d,
    slices limit e cu workingtime twork = some d ∧ d.twork = t ∧ TurnRight limit e t d.acts ∧
      d.alive = decide (e.Survives limit) ∧
      (d.alive = true → d.workingtime = timediff e.endwork e.startwork) := by
  have hright {acts : List Act} (h : acts <+: dutyCycle limit t ∧
      ((limit < 1 → 0 < limit → e.resumed = true) → Act.work t ∈ acts) ∧
      (e.Survives limit → acts = dutyCycle limit t)) : TurnRight limit e t acts :=
    ⟨h.1, fun _ => h.2.1, h.2.2⟩
  by_cases hlt : limit < 1
  · by_cases hpos : 0 < limit
    · cases hresumed : e.resumed <;> cases hstopped : e.stopped <;>
        simp [slices, ht, hlt, hpos, hresumed, hstopped, hj, dutyCycle, Turn.Survives, wholePeriod,
          hright]
    · cases hstopped : e.stopped <;>
        simp [slices, ht, hlt, hpos, hstopped, hj, dutyCycle, Turn.Survives, wholePeriod, hright]
  · simp [slices, ht, hlt, hj, dutyCycle, Turn.Survives, hright]

/-- What is done when there is no process. -/
theorem turnRight_gone {limit : ℚ} {e : Turn} (hj : e.jiffies < 0) (t : ℤ) :
    TurnRight limit e t [] :=
  ⟨List.nil_prefix, fun h => absurd h (not_le.mpr hj), fun he => absurd he.1 (not_le.mpr hj)⟩

/-- **One turn**, from any variables and whatever the clock says: it gets through, and does what
belongs to the slice that it has computed. -/
theorem turn_history_eq (limit : ℚ) (e : Turn) (l : Loop (List ProcessScreenshot)) :
    ∃ acts l' t, turn history limit e l = some (acts, l', decide (e.Survives limit)) ∧
      TurnRight limit e t acts := by
  rcases lt_or_ge e.jiffies 0 with hj | hj
  · have hgone : decide (e.Survives limit) = false :=
      decide_eq_false fun he => absurd he.1 (not_le.mpr hj)
    refine ⟨[], l, 0, ?_, turnRight_gone hj 0⟩
    rw [hgone]
    exact turn_history_gone limit l hj
  · obtain ⟨usage, rate, hw⟩ :=
      exists_estimate ((l.memory ++ [e.shot l.workingtime]).rtake 10)
    obtain ⟨t, ht⟩ := exists_adjust limit usage rate l.twork
    rw [← hw] at ht
    obtain ⟨d, hd, -, hacts, halive, -⟩ := slices_ok hj l.workingtime ht
    rw [← halive]
    exact ⟨d.acts, _, t, turn_history_there hj hd, hacts⟩

/-- **A run**, whatever the clock says: it gets through, and does in each turn what it should, up
to the turn in which a lazy program ends. -/
theorem run_history_eq (limit : ℚ) (lazy : Bool) (es : List Turn)
    (l : Loop (List ProcessScreenshot)) : ∃ log, run history limit lazy es l = some log ∧
      List.Forall₂ (fun e acts => ∃ t, TurnRight limit e t acts) (turnsMade limit lazy es) log := by
  induction es generalizing l with
  | nil => exact ⟨[], rfl, List.Forall₂.nil⟩
  | cons e es ih =>
    obtain ⟨acts, l', t, hturn, hacts⟩ := turn_history_eq limit e l
    rw [run, hturn, turnsMade]
    simp only [Option.bind_eq_bind, Option.bind_some]
    by_cases he : e.Survives limit
    · obtain ⟨log, hrun, hlog⟩ := ih l'
      refine ⟨acts :: log, ?_, ?_⟩
      · rw [if_pos (decide_eq_true he), hrun]
        rfl
      · rw [if_neg fun h => h.2 he]
        exact List.Forall₂.cons ⟨t, hacts⟩ hlog
    · rw [if_neg (by simpa using he)]
      cases lazy with
      | true =>
        refine ⟨[acts], rfl, ?_⟩
        rw [if_pos ⟨rfl, he⟩]
        exact List.Forall₂.cons ⟨t, hacts⟩ List.Forall₂.nil
      | false =>
        obtain ⟨log, hrun, hlog⟩ := ih (l'.restart history)
        refine ⟨acts :: log, by simp [hrun], ?_⟩
        rw [if_neg fun h => Bool.false_ne_true h.1]
        exact List.Forall₂.cons ⟨t, hacts⟩ hlog

/-- A run in which the clock goes on from turn to turn, the process loses no CPU time while it is
there, and no working slice is too long for its counter: `compute_cpu_usage` takes its length in
microseconds as an `int`. -/
structure Ordinary (limit : ℚ) (es : List Turn) : Prop where
  clock : es.Pairwise fun e e' => micros e.when < micros e'.when
  jiffies : es.IsChain fun e e' => e.Survives limit → 0 ≤ e'.jiffies → e.jiffies ≤ e'.jiffies
  work : ∀ e ∈ es, 0 ≤ timediff e.endwork e.startwork ∧ timediff e.endwork e.startwork < 2 ^ 31

/-- The variables are such that a run can go on: the screenshots are orderly and earlier than all
that is to come, and the slice is within a period. -/
structure Ready (l : Loop (List ProcessScreenshot)) (es : List Turn) : Prop where
  orderly : Orderly l.memory
  clock : ∀ p ∈ l.memory, ∀ e ∈ es, micros p.when < micros e.when
  jiffies : ∀ p ∈ l.memory, ∀ e ∈ es.head?, 0 ≤ e.jiffies → p.jiffies ≤ e.jiffies
  workingtime : 0 ≤ toInt l.workingtime
  twork_nonneg : 0 ≤ l.twork
  twork_le : l.twork ≤ wholePeriod

theorem Ready.restart {l : Loop (List ProcessScreenshot)} {es : List Turn} (ht : 0 ≤ l.twork)
    (ht' : l.twork ≤ wholePeriod) : Ready (l.restart history) es where
  orderly := ⟨List.Pairwise.nil, fun _ hp => absurd hp List.not_mem_nil⟩
  clock _ hp := absurd hp List.not_mem_nil
  jiffies _ hp := absurd hp List.not_mem_nil
  workingtime := le_rfl
  twork_nonneg := ht
  twork_le := ht'

theorem Orderly.rtake {w : List ProcessScreenshot} (hw : Orderly w) (n : ℕ) :
    Orderly (w.rtake n) :=
  ⟨hw.sorted.drop, fun p hp => hw.cputime p (List.mem_of_mem_drop hp)⟩

/-- The screenshots with that of the next turn. -/
theorem Ready.shot {l : Loop (List ProcessScreenshot)} {e : Turn} {es : List Turn}
    (h : Ready l (e :: es)) (hj : 0 ≤ e.jiffies) :
    Orderly (l.memory ++ [e.shot l.workingtime]) where
  sorted := by
    refine List.pairwise_append.mpr ⟨h.orderly.sorted, List.pairwise_singleton _ _, ?_⟩
    intro p hp q hq
    rw [List.mem_singleton.mp hq]
    exact ⟨h.clock p hp e List.mem_cons_self, h.jiffies p hp e rfl hj⟩
  cputime p hp := by
    rcases List.mem_append.mp hp with hp | hp
    · exact h.orderly.cputime p hp
    · rw [List.mem_singleton.mp hp]
      exact h.workingtime

theorem toInt_of_lt {n : ℤ} (h₀ : 0 ≤ n) (h : n < 2 ^ 31) : toInt n = n :=
  Int.bmod_eq_of_le (by omega) (by omega)

/-- The variables after a turn that the process has survived. -/
def Loop.next (limit : ℚ) (l : Loop (List ProcessScreenshot)) (e : Turn) :
    Loop (List ProcessScreenshot) :=
  let h := l.memory ++ [e.shot l.workingtime]
  ⟨h, timediff e.endwork e.startwork, nextSlice limit l.twork (h.rtake 10)⟩

theorem Ready.next {limit : ℚ} (h₀ : 0 ≤ limit) (h₁ : limit ≤ 1)
    {l : Loop (List ProcessScreenshot)} {e : Turn} {es : List Turn} (h : Ready l (e :: es))
    (hes : Ordinary limit (e :: es)) (he : e.Survives limit) : Ready (l.next limit e) es := by
  have hshot := h.shot he.1
  obtain ⟨hzero, hlt⟩ := hes.work e List.mem_cons_self
  obtain ⟨ht, ht'⟩ := nextSlice_bounds h₀ h₁ (hshot.rtake 10) h.twork_nonneg h.twork_le
  refine ⟨hshot, ?_, ?_, ?_, ht, ht'⟩
  · intro p hp e' he'
    rcases List.mem_append.mp hp with hp | hp
    · exact h.clock p hp e' (List.mem_cons_of_mem e he')
    · rw [List.mem_singleton.mp hp]
      exact List.rel_of_pairwise_cons hes.clock he'
  · intro p hp e' he' hj
    obtain ⟨es', rfl⟩ : ∃ es', es = e' :: es' := List.head?_eq_some_iff.mp he'
    have hstep := (List.isChain_cons_cons.mp hes.jiffies).1 he hj
    rcases List.mem_append.mp hp with hp | hp
    · exact (h.jiffies p hp e rfl he.1).trans hstep
    · rw [List.mem_singleton.mp hp]
      exact hstep
  · show 0 ≤ toInt (timediff e.endwork e.startwork)
    rw [toInt_of_lt hzero hlt]
    exact hzero

/-- **One turn** of an ordinary run: its slice is no longer than the period, and if the process
survives it, the last ten screenshots have decided on it. -/
theorem turn_ok {limit : ℚ} (h₀ : 0 ≤ limit) (h₁ : limit ≤ 1)
    {l : Loop (List ProcessScreenshot)} {e : Turn} {es : List Turn} (h : Ready l (e :: es)) :
    ∃ acts l' t, turn history limit e l = some (acts, l', decide (e.Survives limit)) ∧
      0 ≤ t ∧ t ≤ wholePeriod ∧ TurnRight limit e t acts ∧
      (e.Survives limit → l' = l.next limit e ∧ t = (l.next limit e).twork) ∧
      0 ≤ l'.twork ∧ l'.twork ≤ wholePeriod := by
  rcases lt_or_ge e.jiffies 0 with hj | hj
  · have hgone : decide (e.Survives limit) = false :=
      decide_eq_false fun he => absurd he.1 (not_le.mpr hj)
    rw [hgone]
    exact ⟨[], l, 0, turn_history_gone limit l hj, le_rfl, by decide, turnRight_gone hj 0,
      fun he => absurd he.1 (not_le.mpr hj), h.twork_nonneg, h.twork_le⟩
  · have hshot := (h.shot hj).rtake 10
    obtain ⟨ht, ht'⟩ := nextSlice_bounds h₀ h₁ hshot h.twork_nonneg h.twork_le
    obtain ⟨d, hd, htwork, hacts, halive, hwork⟩ :=
      slices_ok hj l.workingtime (adjust_estimate h₀ h₁ hshot l.twork)
    rw [← halive]
    refine ⟨_, _, _, turn_history_there hj hd, ht, ht', hacts, fun he => ⟨?_, rfl⟩, ?_, ?_⟩
    · rw [Loop.next, hwork (by rw [halive]; exact decide_eq_true he), htwork]
    · rw [htwork]
      exact ht
    · rw [htwork]
      exact ht'

/-- The rest of a run that goes on from variables that it can go on from. -/
theorem Ordinary.tail {limit : ℚ} {e : Turn} {es : List Turn} (h : Ordinary limit (e :: es)) :
    Ordinary limit es :=
  ⟨h.clock.of_cons, h.jiffies.tail, fun e' he' => h.work e' (List.mem_cons_of_mem e he')⟩

/-- The slices of an ordinary run are no longer than the period, so that no sleep in it has a
negative length. -/
def SlicesFit (log : List (List Act)) : Prop :=
  ∀ acts ∈ log, ∀ t, Act.work t ∈ acts → 0 ≤ t ∧ t ≤ wholePeriod

/-- There is one working slice in a duty cycle. -/
theorem eq_of_work_mem {limit : ℚ} {t t' : ℤ} (h : Act.work t' ∈ dutyCycle limit t) : t' = t := by
  rw [dutyCycle] at h
  split_ifs at h <;> simpa using h

theorem SlicesFit.cons {limit : ℚ} {e : Turn} {t : ℤ} {acts : List Act} {log : List (List Act)}
    (hacts : TurnRight limit e t acts) (ht : 0 ≤ t) (ht' : t ≤ wholePeriod) (h : SlicesFit log) :
    SlicesFit (acts :: log) := by
  refine List.forall_mem_cons.mpr ⟨fun t' hwork => ?_, h⟩
  rw [eq_of_work_mem (hacts.begins.subset hwork)]
  exact ⟨ht, ht'⟩

/-- **The lengths of the slices**, by induction on the turns of the run: each turn leaves the
variables ready for the next. -/
theorem run_history_ok {limit : ℚ} (h₀ : 0 ≤ limit) (h₁ : limit ≤ 1) (lazy : Bool)
    {es : List Turn} {l : Loop (List ProcessScreenshot)} (h : Ready l es)
    (hes : Ordinary limit es) : ∃ log, run history limit lazy es l = some log ∧ SlicesFit log := by
  have hnil : SlicesFit [] := fun acts hacts => absurd hacts List.not_mem_nil
  induction es generalizing l with
  | nil => exact ⟨[], rfl, hnil⟩
  | cons e es ih =>
    obtain ⟨acts, l', t, hturn, ht, ht', hacts, hnext, hl, hl'⟩ := turn_ok h₀ h₁ h
    rw [run, hturn]
    simp only [Option.bind_eq_bind, Option.bind_some]
    by_cases he : e.Survives limit
    · obtain ⟨rfl, -⟩ := hnext he
      obtain ⟨log, hrun, hlog⟩ := ih (h.next h₀ h₁ hes he) hes.tail
      refine ⟨acts :: log, ?_, hlog.cons hacts ht ht'⟩
      rw [if_pos (decide_eq_true he), hrun]
      rfl
    · rw [if_neg (by simpa using he)]
      cases lazy with
      | true => exact ⟨[acts], rfl, hnil.cons hacts ht ht'⟩
      | false =>
        obtain ⟨log, hrun, hlog⟩ := ih (Ready.restart hl hl') hes.tail
        exact ⟨acts :: log, by simp [hrun], hlog.cons hacts ht ht'⟩

theorem limitOf_bounds {perclimit : ℤ} {limit : ℚ} (h : limitOf perclimit = some limit) :
    0 ≤ limit ∧ limit ≤ 1 := by
  rw [limitOf] at h
  split at h
  · cases h
  · cases h
    exact ⟨not_lt.mp fun hlt => ‹¬ _› (Or.inl hlt), not_lt.mp fun hlt => ‹¬ _› (Or.inr hlt)⟩

theorem start_same (s : Statics) : (start s).Same ⟨[], 0, 0⟩ :=
  ⟨reinit_remembers s, rfl, rfl⟩

theorem start_ready (es : List Turn) : Ready ⟨[], 0, 0⟩ es :=
  Ready.restart (l := ⟨[], 0, 0⟩) le_rfl (by decide)

/-- **Whatever happens to the process**, and how often it is lost and found again: the loop does
what it would do if it remembered all screenshots of the process, and it does in each turn that it
gets to a duty cycle, up to where the process is lost.  While the clock goes on and the process
loses no CPU time, no slice is negative or longer than the period, so that the sleep makes up the
rest of it. -/
theorem main_right {perclimit : ℤ} {limit : ℚ} (hlimit : limitOf perclimit = some limit)
    (lazy : Bool) (s : Statics) (es : List Turn) : ∃ log,
    run ring limit lazy es (start s) = some log ∧
      run history limit lazy es ⟨[], 0, 0⟩ = some log ∧
      List.Forall₂ (fun e acts => ∃ t, TurnRight limit e t acts) (turnsMade limit lazy es) log ∧
      (Ordinary limit es → SlicesFit log) := by
  obtain ⟨h₀, h₁⟩ := limitOf_bounds hlimit
  obtain ⟨log, hrun, hlog⟩ := run_history_eq limit lazy es ⟨[], 0, 0⟩
  refine ⟨log, (run_ring_eq limit lazy es (start_same s)).trans hrun, hrun, hlog, fun hes => ?_⟩
  obtain ⟨log', hrun', hslices⟩ := run_history_ok h₀ h₁ lazy (start_ready es) hes
  rw [hrun] at hrun'
  obtain rfl := Option.some.inj hrun'
  exact hslices

/-- A turn of a process that takes all of a CPU for half of each period. -/
def halfTurn (i : ℕ) : Turn where
  jiffies := 5 * i
  when := ⟨0, 100000000 * i⟩
  resumed := true
  startwork := ⟨0, 100000000 * i⟩
  endwork := ⟨0, 100000000 * i + 50000000⟩
  stopped := true

/-- A run in which the process cannot be stopped in the second turn, and is there again. -/
def lostOnce : List Turn := [halfTurn 1, { halfTurn 2 with stopped := false }, halfTurn 3]

theorem main_right_lostOnce : ∃ log,
    run ring (1 / 2) false lostOnce (start Statics.zeroed) = some log ∧
      run history (1 / 2) false lostOnce ⟨[], 0, 0⟩ = some log ∧
      List.Forall₂ (fun e acts => ∃ t, TurnRight (1 / 2) e t acts)
        (turnsMade (1 / 2) false lostOnce) log ∧ SlicesFit log := by
  have hordinary : Ordinary (1 / 2) lostOnce :=
    ⟨by decide +kernel, by decide +kernel, by decide +kernel⟩
  obtain ⟨log, hring, hhistory, hacts, hslices⟩ :=
    main_right (by decide +kernel : limitOf 50 = some (1 / 2)) false Statics.zeroed lostOnce
  exact ⟨log, hring, hhistory, hacts, hslices hordinary⟩

end LinuxNote.Cpulimit
