import LinuxNote.Cpulimit.Slices

/-!
# How well the limit is kept

The kernel counts the CPU time of a process in jiffies of ten milliseconds, so that the estimate of
cpulimit is off by up to a jiffy.  This is the error that is bounded here; that of the arithmetic with
`float`, far smaller than a jiffy in the last screenshots, is left out.

## Main definitions

* `Consumes` — screenshots of a process that always takes the same share of the time in which it is
  let run.
* `shots` — the screenshots of a run in which the process survives.

## Main results

* `used_near` — the jiffies between two screenshots.
* `limit_kept` — **with `n` jiffies in the last screenshots, the next slice allows at most
  `n / (n - 1)` of the limit**, and at least `n / (n + 1)` of it, or the whole period.
-/

namespace LinuxNote.Cpulimit

/-- Screenshots of a process that takes `u` microseconds of CPU time in each microsecond in which it
is let run, and has taken `c` before the slice of the first one.  Only whole jiffies are counted. -/
def Consumes (u : ℚ) : ℚ → List ProcessScreenshot → Prop
  | _, [] => True
  | c, p :: ps =>
    p.jiffies = ⌊(c + u * p.cputime) / 10000⌋ ∧ Consumes u (c + u * p.cputime) ps

instance : ∀ u c ps, Decidable (Consumes u c ps)
  | _, _, [] => inferInstanceAs (Decidable True)
  | u, c, p :: ps =>
    have := instDecidableConsumes u (c + u * p.cputime) ps
    inferInstanceAs (Decidable (_ ∧ Consumes u (c + u * p.cputime) ps))

theorem Consumes.append {u c : ℚ} {ps qs : List ProcessScreenshot} (h : Consumes u c (ps ++ qs)) :
    Consumes u (c + u * (ps.map (·.cputime)).sum) qs := by
  induction ps generalizing c with
  | nil => simpa using h
  | cons p ps ih =>
    have hrest := ih h.2
    rwa [List.map_cons, List.sum_cons, Int.cast_add, mul_add, ← add_assoc]

theorem Consumes.jiffies_getLast {u c : ℚ} {ps : List ProcessScreenshot} (h : Consumes u c ps)
    (hne : ps ≠ []) :
    (ps.getLast hne).jiffies = ⌊(c + u * (ps.map (·.cputime)).sum) / 10000⌋ := by
  induction ps using List.reverseRecOn with
  | nil => exact absurd rfl hne
  | append_singleton ps p _ =>
    have hlast := h.append.1
    rw [List.getLast_concat, hlast, List.map_append, List.sum_append, List.map_singleton,
      List.sum_singleton, Int.cast_add, mul_add, add_assoc]

/-- Between two numbers, the difference of what is below them is less than one off. -/
theorem floor_sub_floor_near (a d : ℚ) : d - 1 < (⌊a + d⌋ - ⌊a⌋ : ℤ) ∧ (⌊a + d⌋ - ⌊a⌋ : ℤ) < d + 1 := by
  have ha := Int.floor_le a
  have ha' := Int.lt_floor_add_one a
  have hd := Int.floor_le (a + d)
  have hd' := Int.lt_floor_add_one (a + d)
  push_cast
  constructor <;> linarith

/-- The jiffies between the oldest and the newest screenshot are less than one off. -/
theorem used_near {u c : ℚ} {p q : ProcessScreenshot} {w : List ProcessScreenshot}
    (h : Consumes u c (p :: q :: w)) :
    u * worked (p :: q :: w) / 10000 - 1 <
        (((q :: w).getLast (List.cons_ne_nil q w)).jiffies - p.jiffies : ℤ) ∧
      (((q :: w).getLast (List.cons_ne_nil q w)).jiffies - p.jiffies : ℤ) <
        u * worked (p :: q :: w) / 10000 + 1 := by
  rw [h.2.jiffies_getLast (List.cons_ne_nil q w), h.1, add_div (c + u * p.cputime)]
  exact floor_sub_floor_near _ _

/-- A slice that is inversely proportional to jiffies which are less than one off. -/
theorem floor_slice_near {limit u dtwork used : ℚ} {P : ℤ} (hP : u * dtwork * 10000 =
    u * dtwork / 10000 * P) (h₀ : 0 ≤ limit * P) (hu : 0 < u) (hn : 1 < u * dtwork / 10000)
    (hlow : u * dtwork / 10000 - 1 < used) (hhigh : used < u * dtwork / 10000 + 1) :
    u * ⌊min (limit * dtwork / used * 10000) P⌋ ≤
        limit * P * (u * dtwork / 10000 / (u * dtwork / 10000 - 1)) ∧
      (⌊min (limit * dtwork / used * 10000) P⌋ = P ∨
        limit * P * (u * dtwork / 10000 / (u * dtwork / 10000 + 1)) <
          u * (⌊min (limit * dtwork / used * 10000) P⌋ + 1)) := by
  -- the slice before it is cut, as the part of the period that the limit allows
  have hslice : u * (limit * dtwork / used * 10000) = limit * P * (u * dtwork / 10000 / used) :=
    calc u * (limit * dtwork / used * 10000) = limit / used * (u * dtwork * 10000) := by ring
      _ = limit / used * (u * dtwork / 10000 * P) := by rw [hP]
      _ = limit * P * (u * dtwork / 10000 / used) := by ring
  generalize u * dtwork / 10000 = n at *
  generalize limit * dtwork / used * 10000 = x at *
  have hused : 0 < used := by linarith
  constructor
  · calc u * ⌊min x (P : ℚ)⌋ ≤ u * x :=
          mul_le_mul_of_nonneg_left ((Int.floor_le _).trans (min_le_left x _)) hu.le
      _ = limit * P * (n / used) := hslice
      _ ≤ limit * P * (n / (n - 1)) := by
          refine mul_le_mul_of_nonneg_left ?_ h₀
          exact div_le_div_of_nonneg_left (by linarith) (by linarith) hlow.le
  · rcases le_total (P : ℚ) x with hle | hle
    · rw [min_eq_right hle, Int.floor_intCast]
      exact Or.inl rfl
    · rw [min_eq_left hle]
      refine Or.inr ?_
      calc limit * P * (n / (n + 1)) ≤ limit * P * (n / used) := by
            refine mul_le_mul_of_nonneg_left ?_ h₀
            exact div_le_div_of_nonneg_left (by linarith) hused hhigh.le
        _ = u * x := hslice.symm
        _ < u * (⌊x⌋ + 1) := mul_lt_mul_of_pos_left (Int.lt_floor_add_one x) hu

/-- A slice, with the CPU time that the process takes in it. -/
theorem nextSlice_near {limit u c : ℚ} (h₀ : 0 ≤ limit) (hu : 0 < u) (twork : ℤ)
    {w : List ProcessScreenshot} (h : Consumes u c w) (hn : 1 < u * worked w / 10000) :
    u * nextSlice limit twork w ≤ limit * wholePeriod *
        (u * worked w / 10000 / (u * worked w / 10000 - 1)) ∧
      (nextSlice limit twork w = wholePeriod ∨ limit * wholePeriod *
        (u * worked w / 10000 / (u * worked w / 10000 + 1)) < u * (nextSlice limit twork w + 1)) := by
  have hnone (hzero : worked w = 0) : False := by
    rw [hzero, Int.cast_zero, mul_zero, zero_div] at hn
    exact absurd hn (by norm_num)
  match w, h with
  | [], _ => exact (hnone rfl).elim
  | [_], _ => exact (hnone rfl).elim
  | p :: q :: w, h =>
    obtain ⟨hlow, hhigh⟩ := used_near h
    have hused : ((q :: w).getLast (List.cons_ne_nil q w)).jiffies - p.jiffies ≠ 0 := by
      intro hzero
      rw [hzero, Int.cast_zero] at hlow
      linarith
    have hP : u * worked (p :: q :: w) * 10000 =
        u * worked (p :: q :: w) / 10000 * wholePeriod := by
      rw [wholePeriod, period]
      push_cast
      ring
    rw [nextSlice, if_neg hnone, if_neg hused]
    exact floor_slice_near hP (mul_nonneg h₀ (by decide)) hu hn hlow hhigh

/-- The screenshots of a run in which the process survives, each with the time of the slice before
it. -/
def shots : ℤ → List Turn → List ProcessScreenshot
  | _, [] => []
  | q, e :: es => e.shot q :: shots (timediff e.endwork e.startwork) es

/-- The working slices after a history, one for each further screenshot, each computed from the
last ten. -/
def sliceLengths (limit : ℚ) : ℤ → List ProcessScreenshot → List ProcessScreenshot → List ℤ
  | _, _, [] => []
  | t, h, p :: ps =>
    let t := nextSlice limit t ((h ++ [p]).rtake 10)
    t :: sliceLengths limit t (h ++ [p]) ps

theorem length_sliceLengths (limit : ℚ) (t : ℤ) (h ps : List ProcessScreenshot) :
    (sliceLengths limit t h ps).length = ps.length := by
  induction ps generalizing t h with
  | nil => rfl
  | cons p ps ih => rw [sliceLengths, List.length_cons, List.length_cons, ih]

theorem getElem_sliceLengths (limit : ℚ) (t : ℤ) (h ps : List ProcessScreenshot) (k : ℕ)
    (hk : k < (sliceLengths limit t h ps).length) : ∃ t',
    (sliceLengths limit t h ps)[k] = nextSlice limit t' ((h ++ ps.take (k + 1)).rtake 10) := by
  induction ps generalizing t h k with
  | nil => exact absurd hk (Nat.not_lt_zero k)
  | cons p ps ih =>
    cases k with
    | zero => exact ⟨t, rfl⟩
    | succ k =>
      obtain ⟨t', ht'⟩ := ih _ _ k (Nat.lt_of_succ_lt_succ hk)
      exact ⟨t', by rw [List.take_succ_cons, List.append_cons, ← ht']; rfl⟩

theorem run_survivors {limit : ℚ} (h₀ : 0 ≤ limit) (h₁ : limit ≤ 1) (lazy : Bool)
    {es : List Turn} {l : Loop (List ProcessScreenshot)} (h : Ready l es)
    (hes : Ordinary limit es) (hall : ∀ e ∈ es, e.Survives limit) :
    run history limit lazy es l =
      some ((sliceLengths limit l.twork l.memory (shots l.workingtime es)).map
        (dutyCycle limit)) := by
  induction es generalizing l with
  | nil => rfl
  | cons e es ih =>
    have he := hall e List.mem_cons_self
    obtain ⟨acts, l', t, hturn, -, -, hacts, hnext, -, -⟩ := turn_ok h₀ h₁ h
    obtain ⟨rfl, rfl⟩ := hnext he
    obtain rfl := hacts.whole he
    have hrest := ih (h.next h₀ h₁ hes he) hes.tail fun e' he' => hall e' (List.mem_cons_of_mem e he')
    rw [run, hturn]
    simp only [Option.bind_eq_bind, Option.bind_some, decide_eq_true he, if_true, hrest]
    rfl

theorem length_shots (q : ℤ) (es : List Turn) : (shots q es).length = es.length := by
  induction es generalizing q with
  | nil => rfl
  | cons e es ih => rw [shots, List.length_cons, List.length_cons, ih]

theorem Consumes.take {u c : ℚ} {ps : List ProcessScreenshot} (h : Consumes u c ps) (k : ℕ) :
    Consumes u c (ps.take k) := by
  induction ps generalizing c k with
  | nil => rwa [List.take_nil]
  | cons p ps ih =>
    cases k with
    | zero => exact trivial
    | succ k => exact ⟨h.1, ih h.2 k⟩

/-- The last screenshots of the first ones. -/
theorem Consumes.window {u c : ℚ} {ps : List ProcessScreenshot} (h : Consumes u c ps) (k n : ℕ) :
    ∃ c', Consumes u c' ((ps.take k).rtake n) := by
  have htake := h.take k
  rw [← List.take_append_drop ((ps.take k).length - n) (ps.take k)] at htake
  exact ⟨_, htake.append⟩

/-- **The limit is kept up to a jiffy**: while the process survives and takes the share `u` of the
time in which it is let run, the next slice allows at most `n / (n - 1)` of the limit if the process
has taken `n` jiffies between the last screenshots, and with one nanosecond more, which the
conversion to a `long` cuts off, more than `n / (n + 1)` of it, unless it is the whole period. -/
theorem limit_kept {perclimit : ℤ} {limit : ℚ} (hlimit : limitOf perclimit = some limit)
    (lazy : Bool) (s : Statics) {es : List Turn} (hes : Ordinary limit es)
    (hall : ∀ e ∈ es, e.Survives limit) {u c : ℚ} (hu : 0 < u) (hcpu : Consumes u c (shots 0 es)) :
    ∃ ts : List ℤ, run ring limit lazy es (start s) = some (ts.map (dutyCycle limit)) ∧
      ts.length = es.length ∧
      ∀ (k : ℕ) (hk : k < ts.length) (n : ℚ),
        n = u * worked (((shots 0 es).take (k + 1)).rtake 10) / 10000 → 1 < n →
        u * ts[k] ≤ limit * wholePeriod * (n / (n - 1)) ∧
          (ts[k] = wholePeriod ∨ limit * wholePeriod * (n / (n + 1)) < u * (ts[k] + 1)) := by
  obtain ⟨h₀, h₁⟩ := limitOf_bounds hlimit
  refine ⟨sliceLengths limit 0 [] (shots 0 es), ?_, ?_, ?_⟩
  · rw [run_ring_eq limit lazy es (start_same s), run_survivors h₀ h₁ lazy (start_ready es) hes hall]
  · rw [length_sliceLengths, length_shots]
  · rintro k hk n rfl hn
    obtain ⟨t', ht'⟩ := getElem_sliceLengths limit 0 [] (shots 0 es) k hk
    obtain ⟨c', hc'⟩ := hcpu.window (k + 1) 10
    rw [ht']
    exact nextSlice_near h₀ hu t' hc' hn

/-- Four turns of a process that takes all of the time in which it is let run. -/
def fourTurns : List Turn := (List.range 4).map halfTurn

theorem limit_kept_fourTurns : ∃ ts : List ℤ,
    run ring (1 / 2) false fourTurns (start Statics.zeroed) = some (ts.map (dutyCycle (1 / 2))) ∧
      ts.length = fourTurns.length ∧
      ∀ (k : ℕ) (hk : k < ts.length) (n : ℚ),
        n = 1 * worked (((shots 0 fourTurns).take (k + 1)).rtake 10) / 10000 → 1 < n →
        1 * ts[k] ≤ 1 / 2 * wholePeriod * (n / (n - 1)) ∧
          (ts[k] = wholePeriod ∨ 1 / 2 * wholePeriod * (n / (n + 1)) < 1 * (ts[k] + 1 : ℚ)) :=
  limit_kept (by decide +kernel : limitOf 50 = some (1 / 2)) false Statics.zeroed
    (⟨by decide +kernel, by decide +kernel, by decide +kernel⟩ : Ordinary (1 / 2) fourTurns)
    (by decide +kernel) one_pos (by decide +kernel : Consumes 1 0 (shots 0 fourTurns))

-- without a whole jiffy in the last screenshots, the limit does not count
example : nextSlice (1 / 100) 1000000 [⟨⟨0, 0⟩, 0, 0⟩, ⟨⟨0, 100000000⟩, 0, 1000⟩] = wholePeriod := by
  decide +kernel

end LinuxNote.Cpulimit
