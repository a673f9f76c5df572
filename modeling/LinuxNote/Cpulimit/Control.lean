import LinuxNote.Cpulimit.Usage

/-!
# The loop of cpulimit

`main` divides each period between a slice in which the process is let run and one in which it is
stopped, with the estimate of its CPU usage.  The loop is modelled for any way to keep the
screenshots, so that the one of the source can be compared with one that forgets nothing.

## Main definitions

* `adjust` — the length of the working slice from an estimate.
* `Turn`, `turn`, `run` — what happens around the program in one turn of its loop, the turn, and
  the loop, with what the program does in each turn.
* `Estimator`, `ring`, `history` — what the loop keeps the screenshots in: the static variables of
  `compute_cpu_usage`, or all screenshots since the process has been found.

## Main results

* `run_ring_eq` — with the ring the loop does what it does with the whole history.
-/

namespace LinuxNote.Cpulimit

open CDouble

/-- `period`, in microseconds. -/
def period : ℤ := 100000

/-- The limit from the option, which is refused outside of its range; a `float` in the source. -/
def limitOf (perclimit : ℤ) : Option ℚ :=
  let limit : ℚ := perclimit / 100
  if limit < 0 ∨ 1 < limit then none else some limit

/-- The working slice in nanoseconds from the estimate, without the rounding of `float`.  What is
none of the three cases leaves it as it was. -/
def adjust (limit : ℚ) (cu : CpuUsage) (twork : ℤ) : Option ℤ :=
  if Lt (finite 0) cu.pcpu then
    (CDouble.min (finite (period * limit * 1000) / cu.pcpu * cu.workingrate)
      (finite (period * 1000))).toLong
  else if cu.pcpu = finite 0 then some (period * 1000)
  else if cu.pcpu = finite (-1) then
    (CDouble.min (finite (period * limit * 1000)) (finite (period * 1000))).toLong
  else some twork

/-- What happens around the program in one turn of its loop: what `getjiffies` and the clock say,
whether the process can be resumed, when its working slice starts and ends, and whether it can be
stopped. -/
structure Turn where
  jiffies : ℤ
  when : Timespec
  resumed : Bool
  startwork : Timespec
  endwork : Timespec
  stopped : Bool

/-- What the program does to the process: it resumes or stops it, or lets a time go by. -/
inductive Act
  | cont
  | work (nsec : ℤ)
  | stop
  | sleep (nsec : ℤ)
deriving DecidableEq

/-- What keeps the screenshots.  The loop is the same for the ring and for the whole history, so
the two can be compared over whole runs. -/
structure Estimator (σ : Type) where
  reinit : σ → σ
  call : ℤ → Timespec → ℤ → σ → Option (σ × Option CpuUsage)

/-- The static variables. -/
def ring : Estimator Statics := ⟨Statics.reinit, computeCpuUsage⟩

/-- All screenshots since the start, of which each estimate takes the last ten: what the ring is
meant to be. -/
def history : Estimator (List ProcessScreenshot) where
  reinit _ := []
  call jiffies when quantum h :=
    if jiffies < 0 then some (h, none)
    else
      let h := h ++ [⟨when, jiffies, quantum⟩]
      some (h, some (estimate (h.rtake 10)))

/-- The variables of the loop: what keeps the screenshots, the time of the last slice in
microseconds, and the length of the next in nanoseconds. -/
structure Loop (σ : Type) where
  memory : σ
  workingtime : ℤ
  twork : ℤ

/-- An argument that is an `int`. -/
def toInt (n : ℤ) : ℤ := n.bmod (2 ^ 32)

/-- What has been done in a turn, the two variables after it, and whether the process is still
there. -/
structure Done where
  acts : List Act
  workingtime : ℤ
  twork : ℤ
  alive : Bool

/-- The part of a turn that follows the estimate: the process is resumed, runs for its slice, and
is stopped for the rest of the period. -/
def slices (limit : ℚ) (e : Turn) (cu : CpuUsage) (workingtime twork : ℤ) : Option Done := do
  let twork ← adjust limit cu twork
  let tsleep := period * 1000 - twork
  let resumes := decide (limit < 1 ∧ 0 < limit)
  if resumes && !e.resumed then some ⟨[], workingtime, twork, false⟩
  else
    let acts := (if resumes then [Act.cont] else []) ++ [Act.work twork]
    let workingtime := timediff e.endwork e.startwork
    if limit < 1 then
      if !e.stopped then some ⟨acts, workingtime, twork, false⟩
      else some ⟨acts ++ [Act.stop, Act.sleep tsleep], workingtime, twork, true⟩
    else some ⟨acts, workingtime, twork, true⟩

section Loop

variable {σ : Type} (E : Estimator σ)

/-- The variables after the process has been found. -/
def Loop.restart (l : Loop σ) : Loop σ := { l with memory := E.reinit l.memory, workingtime := 0 }

/-- One turn: what is done, the variables after it, and whether the process is still there; without
the process, the turn ends behind the estimate. -/
def turn (limit : ℚ) (e : Turn) (l : Loop σ) : Option (List Act × Loop σ × Bool) := do
  let (memory, usage) ← E.call e.jiffies e.when (toInt l.workingtime) l.memory
  match usage with
  | none => some ([], { l with memory := memory }, false)
  | some cu =>
    let d ← slices limit e cu l.workingtime l.twork
    some (d.acts, ⟨memory, d.workingtime, d.twork⟩, d.alive)

/-- The loop, with what is done in each turn.  When the process is gone, it is waited for, or the
program ends if it is lazy. -/
def run (limit : ℚ) (lazy : Bool) : List Turn → Loop σ → Option (List (List Act))
  | [], _ => some []
  | e :: es, l => do
    let (acts, l, alive) ← turn E limit e l
    if alive then
      let log ← run limit lazy es l
      some (acts :: log)
    else if lazy then some [acts]
    else
      let log ← run limit lazy es (l.restart E)
      some (acts :: log)

end Loop

/-- The variables when the process has been found for the first time. -/
def start (s : Statics) : Loop Statics := ⟨s.reinit, 0, 0⟩

/-! ### The loop never fails -/

/-- The three cases do not convert what is no finite number. -/
theorem exists_adjust (limit : ℚ) (usage rate : CDouble) (twork : ℤ) :
    ∃ t, adjust limit ⟨usage * rate, rate⟩ twork = some t := by
  rw [adjust]
  split_ifs with hpos hzero hnot
  · exact exists_toLong_min (div_mul_ne_infinite _ hpos) _
  · exact ⟨_, rfl⟩
  · exact exists_toLong_min CDouble.noConfusion _
  · exact ⟨_, rfl⟩

theorem exists_estimate (w : List ProcessScreenshot) :
    ∃ usage rate, estimate w = ⟨usage * rate, rate⟩ := by
  match w with
  | [] => exact ⟨finite (-1), finite 1, by rw [finite_mul, mul_one]; rfl⟩
  | [_] => exact ⟨finite (-1), finite 1, by rw [finite_mul, mul_one]; rfl⟩
  | _ :: _ :: _ => exact ⟨_, _, rfl⟩

theorem exists_slices (limit : ℚ) (e : Turn) (w : List ProcessScreenshot)
    (workingtime twork : ℤ) : ∃ d, slices limit e (estimate w) workingtime twork = some d := by
  obtain ⟨usage, rate, hw⟩ := exists_estimate w
  obtain ⟨t, ht⟩ := exists_adjust limit usage rate twork
  rw [slices, hw, ht]
  simp only [Option.bind_eq_bind, Option.bind_some]
  split_ifs <;> exact ⟨_, rfl⟩

/-! ### The ring and the whole history -/

/-- The same loop with the static variables and with the whole history. -/
structure Loop.Same (l : Loop Statics) (l' : Loop (List ProcessScreenshot)) : Prop where
  memory : Remembers l.memory l'.memory
  workingtime : l.workingtime = l'.workingtime
  twork : l.twork = l'.twork

theorem turn_of_gone {σ : Type} {E : Estimator σ} (limit : ℚ) {e : Turn} {l : Loop σ} {m : σ}
    (h : E.call e.jiffies e.when (toInt l.workingtime) l.memory = some (m, none)) :
    turn E limit e l = some ([], { l with memory := m }, false) := by
  rw [turn, h]
  rfl

theorem turn_of_there {σ : Type} {E : Estimator σ} {limit : ℚ} {e : Turn} {l : Loop σ} {m : σ}
    {cu : CpuUsage} {d : Done}
    (h : E.call e.jiffies e.when (toInt l.workingtime) l.memory = some (m, some cu))
    (hd : slices limit e cu l.workingtime l.twork = some d) :
    turn E limit e l = some (d.acts, ⟨m, d.workingtime, d.twork⟩, d.alive) := by
  rw [turn, h]
  simp only [Option.bind_eq_bind, Option.bind_some, hd]

/-- The screenshot of a turn. -/
def Turn.shot (e : Turn) (workingtime : ℤ) : ProcessScreenshot :=
  ⟨e.when, e.jiffies, toInt workingtime⟩

theorem turn_history_gone (limit : ℚ) {e : Turn} (l : Loop (List ProcessScreenshot))
    (hj : e.jiffies < 0) : turn history limit e l = some ([], l, false) :=
  turn_of_gone limit (if_pos hj)

theorem turn_history_there {limit : ℚ} {e : Turn} {l : Loop (List ProcessScreenshot)} {d : Done}
    (hj : 0 ≤ e.jiffies)
    (hd : slices limit e (estimate ((l.memory ++ [e.shot l.workingtime]).rtake 10)) l.workingtime
      l.twork = some d) :
    turn history limit e l =
      some (d.acts, ⟨l.memory ++ [e.shot l.workingtime], d.workingtime, d.twork⟩, d.alive) :=
  turn_of_there (if_neg (not_lt.mpr hj)) hd

/-- One turn.  When the process is gone, only the length of the slice is needed after it. -/
theorem turn_ring_ok (limit : ℚ) (e : Turn) {l : Loop Statics}
    {l' : Loop (List ProcessScreenshot)} (h : l.Same l') : ∃ acts alive l₁ l₁',
    turn ring limit e l = some (acts, l₁, alive) ∧
      turn history limit e l' = some (acts, l₁', alive) ∧
      l₁.twork = l₁'.twork ∧ (alive = true → l₁.Same l₁') := by
  rcases lt_or_ge e.jiffies 0 with hj | hj
  · exact ⟨[], false, _, _, turn_of_gone limit (if_pos hj), turn_history_gone limit l' hj, h.twork,
      Bool.noConfusion⟩
  · obtain ⟨s, hcall, hs⟩ := computeCpuUsage_ok h.memory (e.shot l.workingtime) hj
    obtain ⟨d, hd⟩ := exists_slices limit e ((l'.memory ++ [e.shot l.workingtime]).rtake 10)
      l.workingtime l.twork
    have hd' := hd
    rw [h.workingtime, h.twork] at hd'
    rw [h.workingtime] at hs
    exact ⟨_, _, _, _, turn_of_there hcall hd, turn_history_there hj hd', rfl, fun _ => ⟨hs, rfl, rfl⟩⟩

theorem restart_same {l : Loop Statics} {l' : Loop (List ProcessScreenshot)}
    (h : l.twork = l'.twork) : (l.restart ring).Same (l'.restart history) :=
  ⟨reinit_remembers l.memory, rfl, h⟩

/-- **The ring is enough**: the loop does what it does with the whole history, in any run, by
induction on its turns. -/
theorem run_ring_eq (limit : ℚ) (lazy : Bool) (es : List Turn) {l : Loop Statics}
    {l' : Loop (List ProcessScreenshot)} (h : l.Same l') :
    run ring limit lazy es l = run history limit lazy es l' := by
  induction es generalizing l l' with
  | nil => rfl
  | cons e es ih =>
    obtain ⟨acts, alive, l₁, l₁', hturn, hturn', htwork, hsame⟩ := turn_ring_ok limit e h
    rw [run, run, hturn, hturn']
    cases alive with
    | true =>
      have heq := ih (hsame rfl)
      simp only [Option.bind_eq_bind, Option.bind_some, heq, if_true]
    | false =>
      have heq := ih (restart_same htwork)
      simp only [Option.bind_eq_bind, Option.bind_some, heq, Bool.false_eq_true, if_false]

end LinuxNote.Cpulimit
