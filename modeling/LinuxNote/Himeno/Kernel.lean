import LinuxNote.Himeno.Jacobi
import LinuxNote.Himeno.StartRun
import Mathlib.Data.Fintype.Basic
import Mathlib.Data.Rat.Floor
import Mathlib.Tactic.FieldSimp
import Mathlib.Tactic.FinCases
import Mathlib.Tactic.Ring

/-!
# The benchmark program

`main` of `himenoBMTxps.c` sets the arrays, rehearses with three iterations, and from the time
that they take it chooses how many are measured.  What it prints is the number of the operations
that `fflop` says an iteration has, for each second.

The arrays are over any type of numbers that has the operations of `float`.  Times and rates, which
the program computes with `double`, are exact: their rounding is left out.

## Main definitions

* `sizes` — the arrays for each size that the program is built with.
* `initmt`, `fflop`, `mflops`, `main` — the functions of the program.

## Main results

* `initmt_ok` — what the arrays hold at the start.
* `fflop_eq` — an iteration has as many operations as `fflop` says.
* `jacobi_right` — **the loops are the point-Jacobi method.**
* `mflops_right` — **what is printed are the operations that have been executed.**
-/

namespace LinuxNote.Himeno.HimenoBMTxps

open LoopNest Loop Function CFloat

/-- The arrays for each size. -/
def sizes : Size → Sizes
  | .ssmall => { MIMAX := 33, MJMAX := 33, MKMAX := 65 }
  | .small => { MIMAX := 65, MJMAX := 65, MKMAX := 129 }
  | .middle => { MIMAX := 129, MJMAX := 129, MKMAX := 257 }
  | .large => { MIMAX := 257, MJMAX := 257, MKMAX := 513 }
  | .elarge => { MIMAX := 513, MJMAX := 513, MKMAX := 1025 }

/-! ### The arrays at the start -/

section Writes

variable {d : Sizes} {F : Type*}

/-- The arrays after assignments to a cell. -/
def assigned (c : Arr → Point → F) (x : Point) (vs : List (Arr × F)) : Arr → Point → F :=
  fun A => ((vs.lookup A).map (update (c A) x)).getD (c A)

/-- Assignments to the cells of different arrays, by induction on them. -/
theorem writes_eq {x : Point} (h : d.Inside x) {vs : List (Arr × F)}
    (hnodup : (vs.map Prod.fst).Nodup) (s : State d F) :
    s.writes x vs = some { s with cells := assigned s.cells x vs } := by
  induction vs generalizing s with
  | nil => rfl
  | cons v vs ih =>
    obtain ⟨A, u⟩ := v
    obtain ⟨hnotMem, hnodup'⟩ := List.nodup_cons.mp hnodup
    have hrest : vs.lookup A = none := by
      rw [List.lookup_eq_none_iff]
      intro w hw
      rw [bne_iff_ne]
      intro hA
      exact hnotMem (List.mem_map.mpr ⟨w, hw, hA.symm⟩)
    have hcells : assigned (update s.cells A (update (s.cells A) x u)) x vs =
        assigned s.cells x ((A, u) :: vs) := by
      funext B
      by_cases hB : B = A
      · subst hB
        rw [assigned, assigned, hrest, update_self, List.lookup_cons_self]
        rfl
      · rw [assigned, assigned, update_of_ne hB, List.lookup_cons,
          (beq_eq_false_iff_ne).mpr hB]
    rw [State.writes, List.foldlM_cons, State.write_eq h]
    show State.writes _ x vs = _
    rw [ih hnodup', hcells]

/-- The arrays after a nest that assigns to all arrays but one. -/
def filled (c : Arr → Point → F) (xs : List Point) (v : Arr → Point → F) : Arr → Point → F :=
  fun A => if A = .wrk2 then c A else overwrite (c A) xs (v A)

theorem filled_nil (c v : Arr → Point → F) : filled c [] v = c := by
  funext A
  rw [filled, overwrite_nil, ite_self]

/-- One more cell of each. -/
theorem assigned_filled {x : Point} {vs : List (Arr × F)} {v : Arr → Point → F}
    (hlookup : ∀ A, vs.lookup A = if A = .wrk2 then none else some (v A x))
    (c : Arr → Point → F) (xs : List Point) :
    assigned (filled c xs v) x vs = filled c (xs ++ [x]) v := by
  funext A
  rw [assigned, hlookup, filled, filled]
  by_cases hA : A = .wrk2
  · rw [if_pos hA, if_pos hA, if_pos hA]
    rfl
  · rw [if_neg hA, if_neg hA, if_neg hA, Option.map_some, Option.getD_some, update_overwrite]

/-- The state after such a nest. -/
def State.fill (s : State d F) (xs : List Point) (v : Arr → Point → F) : State d F where
  __ := s
  cells := filled s.cells xs v

theorem fill_cells (s : State d F) (xs : List Point) (v : Arr → Point → F) {A : Arr}
    (hA : A ≠ .wrk2) : (s.fill xs v).cells A = overwrite (s.cells A) xs (v A) := if_neg hA

/-- **A nest that assigns** to all arrays but one, to the same cell of each: no assignment reads
what another has written, so the arrays hold what was assigned and the rest is as before. -/
theorem assignNest_eq {vs : Point → List (Arr × F)} (hnodup : ∀ x, ((vs x).map Prod.fst).Nodup)
    {v : Arr → Point → F}
    (hlookup : ∀ x A, (vs x).lookup A = if A = .wrk2 then none else some (v A x))
    {hi : Point} (hinside : ∀ x ∈ points 0 hi, d.Inside x) (s : State d F)
    {body : State d F → Point → Option (State d F)}
    (hbody : ∀ t x, t.imax = s.imax → body t x = t.writes x (vs x)) :
    nest 0 hi body s = some (s.fill (points 0 hi) v) := by
  have hnil : s = s.fill [] v := by rw [State.fill, filled_nil]
  have hstep (xs : List Point) (x : Point) (hx : x ∈ points 0 hi) :
      body (s.fill xs v) x = some (s.fill (xs ++ [x]) v) := by
    rw [hbody (s.fill xs v) x rfl, writes_eq (hinside x hx) (hnodup x), State.fill, State.fill,
      assigned_filled (hlookup x)]
  obtain ⟨t, hrun, ht⟩ := foldlM_ok (f := body) (s := s)
    (fun xs t => t = s.fill xs v) (points 0 hi) hnil fun xs x hx t ht => ⟨_, ht ▸ hstep xs x hx, rfl⟩
  rw [nest_eq_foldlM, ← ht]
  exact hrun

end Writes

section Initmt

variable {d : Sizes} {F : Type*} [Div F] [CFloat F]

/-- The state when `main` calls `initmt`: static arrays of zeros, the limits from the sizes, and
the relaxation factor. -/
def State.start (d : Sizes) (F : Type*) [CFloat F] : State d F where
  cells := fun _ _ => ofDouble 0
  imax := d.MIMAX - 1
  jmax := d.MJMAX - 1
  kmax := d.MKMAX - 1
  omega := ofDouble 0.8
  flops := 0

local instance neZero_three : NeZero 3 := ⟨Nat.succ_ne_zero 2⟩

local instance neZero_four : NeZero 4 := ⟨Nat.succ_ne_zero 3⟩

/-- The assignments of the first nest of `initmt`. -/
def zeros : List (Arr × F) :=
  [(.a 0, ofDouble 0.0), (.a 1, ofDouble 0.0), (.a 2, ofDouble 0.0), (.a 3, ofDouble 0.0),
    (.b 0, ofDouble 0.0), (.b 1, ofDouble 0.0), (.b 2, ofDouble 0.0),
    (.c 0, ofDouble 0.0), (.c 1, ofDouble 0.0), (.c 2, ofDouble 0.0),
    (.p, ofDouble 0.0), (.wrk1, ofDouble 0.0), (.bnd, ofDouble 0.0)]

/-- The assignments of the second nest. -/
def coefficients (imax i : ℕ) : List (Arr × F) :=
  [(.a 0, ofDouble 1.0), (.a 1, ofDouble 1.0), (.a 2, ofDouble 1.0), (.a 3, ofDouble (1.0 / 6.0)),
    (.b 0, ofDouble 0.0), (.b 1, ofDouble 0.0), (.b 2, ofDouble 0.0),
    (.c 0, ofDouble 1.0), (.c 1, ofDouble 1.0), (.c 2, ofDouble 1.0),
    (.p, ofInt (i * i) / ofInt (((imax : ℤ) - 1) * (imax - 1))), (.wrk1, ofDouble 0.0),
    (.bnd, ofDouble 1.0)]

/-- `initmt`. -/
def initmt (s : State d F) : Option (State d F) := do
  let s ← nest 0 (d.MIMAX, d.MJMAX, d.MKMAX) (fun s x => s.writes x zeros) s
  nest 0 (s.imax, s.jmax, s.kmax) (fun s x => s.writes x (coefficients s.imax x.1)) s

/-- What `initmt` assigns up to the limits. -/
def coefficient (imax : ℕ) : Arr → Point → F
  | .a n, _ => if n = 3 then ofDouble (1.0 / 6.0) else ofDouble 1.0
  | .b _, _ => ofDouble 0.0
  | .c _, _ => ofDouble 1.0
  | .p, x => ofInt (x.1 * x.1) / ofInt (((imax : ℤ) - 1) * (imax - 1))
  | .bnd, _ => ofDouble 1.0
  | .wrk1, _ => ofDouble 0.0
  | .wrk2, _ => ofDouble 0.0

omit [Div F] in
theorem lookup_zeros (A : Arr) :
    (zeros : List (Arr × F)).lookup A = if A = .wrk2 then none else some (ofDouble 0.0) := by
  rcases A with n | n | n | _ | _ | _ | _
  · fin_cases n <;> rfl
  · fin_cases n <;> rfl
  · fin_cases n <;> rfl
  all_goals rfl

theorem lookup_coefficients (imax : ℕ) (x : Point) (A : Arr) :
    (coefficients imax x.1 : List (Arr × F)).lookup A =
      if A = .wrk2 then none else some (coefficient imax A x) := by
  rcases A with n | n | n | _ | _ | _ | _
  · fin_cases n <;> rfl
  · fin_cases n <;> rfl
  · fin_cases n <;> rfl
  all_goals rfl

omit [Div F] in
theorem start_limits : (State.start d F).Limits := ⟨rfl, rfl, rfl⟩

/-- The state after `initmt`. -/
def State.initialized (s : State d F) : State d F :=
  (s.fill (points 0 (d.MIMAX, d.MJMAX, d.MKMAX)) fun _ _ => ofDouble 0.0).fill
    (points 0 (s.imax, s.jmax, s.kmax)) (coefficient s.imax)

omit [Div F] [CFloat F] in
theorem inside_of_mem_sizes {x : Point} (h : x ∈ points 0 (d.MIMAX, d.MJMAX, d.MKMAX)) :
    d.Inside x := by
  obtain ⟨i, j, k⟩ := x
  obtain ⟨⟨-, hi⟩, ⟨-, hj⟩, -, hk⟩ := mem_points.mp h
  exact ⟨hi, hj, hk⟩

omit [Div F] [CFloat F] in
theorem State.Limits.inside {s : State d F} (hs : s.Limits) {x : Point}
    (h : x ∈ points 0 (s.imax, s.jmax, s.kmax)) : d.Inside x := by
  obtain ⟨i, j, k⟩ := x
  obtain ⟨⟨-, hi⟩, ⟨-, hj⟩, -, hk⟩ := mem_points.mp h
  simp only [hs.imax, hs.jmax, hs.kmax] at hi hj hk
  exact ⟨Nat.lt_of_lt_pred hi, Nat.lt_of_lt_pred hj, Nat.lt_of_lt_pred hk⟩

/-- **The initialization** goes through. -/
theorem initmt_eq {s : State d F} (hs : s.Limits) : initmt s = some s.initialized := by
  let zeroed := s.fill (points 0 (d.MIMAX, d.MJMAX, d.MKMAX)) fun _ _ => ofDouble 0.0
  have hfirst : nest 0 (d.MIMAX, d.MJMAX, d.MKMAX) (fun s x => s.writes x zeros) s = some zeroed :=
    assignNest_eq (fun _ => by simp [zeros]) (fun _ => lookup_zeros)
      (fun _ => inside_of_mem_sizes) s (fun _ _ _ => rfl)
  have hsecond : nest 0 (zeroed.imax, zeroed.jmax, zeroed.kmax)
      (fun s x => s.writes x (coefficients s.imax x.1)) zeroed = some s.initialized :=
    assignNest_eq (fun _ => by simp [coefficients]) (lookup_coefficients s.imax)
      (fun _ => hs.inside) zeroed fun t x ht => by rw [ht]; rfl
  rw [initmt, hfirst, Option.bind_eq_bind, Option.bind_some, hsecond]

/-- **What the arrays hold** after the initialization: the coefficients up to the limits, and zeros
in the planes behind them. -/
theorem initialized_cells (s : State d F) {A : Arr} (hA : A ≠ .wrk2) {x : Point}
    (h : d.Inside x) : s.initialized.cells A x =
      overwrite (fun _ => ofDouble 0.0) (points 0 (s.imax, s.jmax, s.kmax))
        (coefficient s.imax A) x := by
  have hx : x ∈ points 0 (d.MIMAX, d.MJMAX, d.MKMAX) :=
    mem_points.mpr ⟨⟨Nat.zero_le _, h.1⟩, ⟨Nat.zero_le _, h.2.1⟩, Nat.zero_le _, h.2.2⟩
  rw [State.initialized, fill_cells _ _ _ hA, fill_cells s _ _ hA]
  by_cases hlimits : x ∈ points 0 (s.imax, s.jmax, s.kmax)
  · rw [overwrite_of_mem hlimits, overwrite_of_mem hlimits]
  · rw [overwrite_of_notMem hlimits, overwrite_of_notMem hlimits, overwrite_of_mem hx]

end Initmt

/-! ### What is printed -/

/-- `fflop`. -/
def fflop (mx my mz : ℤ) : ℚ :=
  ((mz - 2 : ℤ) : ℚ) * ((my - 2 : ℤ) : ℚ) * ((mx - 2 : ℤ) : ℚ) * 34.0

/-- `mflops`, without the rounding of `double`: the operations of so many iterations over the time
of one call, in millions. -/
def mflops (nn : ℤ) (cpu flop : ℚ) : ℚ := flop / cpu * 1e-6 * nn

/-- `target`, in seconds. -/
def target : ℚ := 60.0

section Right

variable {d : Sizes} {F : Type*} [Add F] [Sub F] [Mul F] [CFloat F]

omit [Add F] [Sub F] [Mul F] [CFloat F] in
/-- **An iteration has as many operations** as `fflop` says, which is 34 for each cell that it
updates. -/
theorem fflop_eq {s : State d F} (hs : s.Limits) :
    fflop s.imax s.jmax s.kmax = (34 * s.interior.length : ℕ) := by
  have hi : ((s.imax - 1 - 1 : ℕ) : ℤ) = s.imax - 2 := by
    have := hs.imax
    have := d.le_MIMAX
    omega
  have hj : ((s.jmax - 1 - 1 : ℕ) : ℤ) = s.jmax - 2 := by
    have := hs.jmax
    have := d.le_MJMAX
    omega
  have hk : ((s.kmax - 1 - 1 : ℕ) : ℤ) = s.kmax - 2 := by
    have := hs.kmax
    have := d.le_MKMAX
    omega
  have h34 : (34.0 : ℚ) = 34 := by norm_num
  rw [fflop, State.interior, length_points, ← hi, ← hj, ← hk, h34]
  push_cast
  ring

/-- **The loops are the point-Jacobi method**: from any state with the limits of `main`, no access
is outside of the arrays, the pressure is that after as many simultaneous updates, nothing else but
the working area has changed, and the residual is that of the last update.  The operations that the
loops have executed are those that `fflop` promises for each of them, on which the printed rate
rests. -/
theorem jacobi_right {s : State d F} (hs : s.Limits) (nn : ℕ) : ∃ t,
    jacobi nn s = some (t, gosaAfter s nn) ∧ t.cells .p = (sweep s)^[nn] (s.cells .p) ∧
      (∀ A, A ≠ .p → A ≠ .wrk2 → t.cells A = s.cells A) ∧
      t.flops = s.flops + nn * (34 * s.interior.length) ∧
      (t.flops : ℚ) = s.flops + nn * fflop s.imax s.jmax s.kmax := by
  refine ⟨State.next^[nn] s, jacobi_eq hs nn, iterate_p s nn, (iterate_same s nn).cells,
    iterate_flops s nn, ?_⟩
  rw [iterate_flops, fflop_eq hs]
  push_cast
  ring

/-- Exact arithmetic. -/
instance : CFloat ℚ := ⟨id, Int.cast⟩

/-- The start with the small arrays. -/
def smallStart : State (sizes .small) ℚ := (State.start (sizes .small) ℚ).initialized

theorem jacobi_right_small : ∃ t,
    jacobi 3 smallStart = some (t, gosaAfter smallStart 3) ∧
      t.cells .p = (sweep smallStart)^[3] (smallStart.cells .p) ∧
      (∀ A, A ≠ .p → A ≠ .wrk2 → t.cells A = smallStart.cells A) ∧
      t.flops = smallStart.flops + 3 * (34 * smallStart.interior.length) ∧
      (t.flops : ℚ) = smallStart.flops +
        (3 : ℕ) * fflop smallStart.imax smallStart.jmax smallStart.kmax :=
  jacobi_right ⟨rfl, rfl, rfl⟩ 3

end Right

section Main

variable {d : Sizes} {F : Type*} [Add F] [Sub F] [Mul F] [Div F] [CFloat F]

/-- What `main` has printed at its end, and the states that it has gone through. -/
structure Printed (d : Sizes) (F : Type*) where
  initialized : State d F
  rehearsed : State d F
  rehearsal : ℚ
  nn : ℕ
  measured : State d F
  gosa : Option F
  mflops : ℚ
  score : ℚ

/-- `main`, where the calls of `jacobi` take so many seconds: a rehearsal of three iterations, and
then as many as should take a minute. -/
def main (d : Sizes) (F : Type*) [Add F] [Sub F] [Mul F] [Div F] [CFloat F] (cpu₁ cpu₂ : ℚ) :
    Option (Printed d F) := do
  let initialized ← initmt (State.start d F)
  let (rehearsed, _) ← jacobi 3 initialized
  let flop := fflop initialized.imax initialized.jmax initialized.kmax
  -- `(int)` cuts off
  let nn := ⌊target / (cpu₁ / 3.0)⌋₊
  let (measured, gosa) ← jacobi nn rehearsed
  some ⟨initialized, rehearsed, mflops 3 cpu₁ flop, nn, measured, gosa, mflops nn cpu₂ flop,
    mflops nn cpu₂ flop / 82⟩

omit [Add F] [Sub F] [Mul F] in
theorem initialized_limits (d : Sizes) (F : Type*) [Div F] [CFloat F] :
    (State.start d F).initialized.Limits := ⟨rfl, rfl, rfl⟩

/-- **The program** goes through. -/
theorem main_eq (d : Sizes) (F : Type*) [Add F] [Sub F] [Mul F] [Div F] [CFloat F]
    (cpu₁ cpu₂ : ℚ) :
    let s := (State.start d F).initialized
    let flop := fflop s.imax s.jmax s.kmax
    let nn := ⌊target / (cpu₁ / 3.0)⌋₊
    main d F cpu₁ cpu₂ = some ⟨s, State.next^[3] s, mflops 3 cpu₁ flop, nn,
      State.next^[nn] (State.next^[3] s), gosaAfter (State.next^[3] s) nn,
      mflops nn cpu₂ flop, mflops nn cpu₂ flop / 82⟩ := by
  intro s flop nn
  have hlim : s.Limits := initialized_limits d F
  have hinit : initmt (State.start d F) = some s := initmt_eq start_limits
  have hrehearsed := jacobi_eq hlim 3
  have hmeasured := jacobi_eq ((iterate_same s 3).limits hlim) nn
  simp only [main, hinit, hrehearsed, hmeasured, Option.bind_eq_bind, Option.bind_some, nn, flop]

theorem mflops_mul (nn : ℤ) {cpu : ℚ} (h : cpu ≠ 0) (flop : ℚ) :
    mflops nn cpu flop * cpu * 10 ^ 6 = nn * flop := by
  have hmillion : (1e-6 : ℚ) * 10 ^ 6 = 1 := by norm_num
  calc flop / cpu * 1e-6 * nn * cpu * 10 ^ 6 = (1e-6 * 10 ^ 6) * (nn * (flop / cpu * cpu)) := by ring
    _ = nn * flop := by rw [hmillion, one_mul, div_mul_cancel₀ flop h]

/-- The clock counts microseconds, and with one of them the number of iterations still is an
`int`. -/
theorem nn_lt {cpu₁ : ℚ} (h : 10⁻¹ ^ 6 ≤ cpu₁) : ⌊target / (cpu₁ / 3.0)⌋₊ < 2 ^ 31 := by
  have hpos : 0 < cpu₁ := lt_of_lt_of_le (by norm_num) h
  have hthree : (0 : ℚ) < cpu₁ / 3.0 := by positivity
  rw [Nat.floor_lt (div_nonneg (by norm_num [target]) hthree.le), div_lt_iff₀ hthree, target]
  norm_num at h ⊢
  linarith

/-- **What is printed are the operations that have been executed**, for each second and in
millions: in the rehearsal, which decides how many iterations are measured, and in the measurement.
The measurement goes on with the pressure that the rehearsal has left. -/
theorem mflops_right (d : Sizes) (F : Type*) [Add F] [Sub F] [Mul F] [Div F] [CFloat F]
    {cpu₁ cpu₂ : ℚ} (h₁ : 0 < cpu₁) (h₂ : 0 < cpu₂) : ∃ r, main d F cpu₁ cpu₂ = some r ∧
      r.rehearsal * cpu₁ * 10 ^ 6 = (r.rehearsed.flops - r.initialized.flops : ℤ) ∧
      r.mflops * cpu₂ * 10 ^ 6 = (r.measured.flops - r.rehearsed.flops : ℤ) ∧
      r.measured.cells .p = (sweep r.initialized)^[r.nn + 3] (r.initialized.cells .p) ∧
      (10⁻¹ ^ 6 ≤ cpu₁ → r.nn < 2 ^ 31) := by
  have h₀ := initialized_limits d F
  refine ⟨_, main_eq d F cpu₁ cpu₂, ?_, ?_, ?_, nn_lt⟩
  · rw [mflops_mul 3 h₁.ne', fflop_eq h₀, iterate_flops]
    push_cast
    ring
  · rw [mflops_mul _ h₂.ne', fflop_eq h₀, iterate_flops, (iterate_same _ 3).interior]
    push_cast
    ring
  · rw [← iterate_add_apply, iterate_p]

theorem mflops_right_small : ∃ r, main (sizes .small) ℚ 3 60 = some r ∧
    r.rehearsal * 3 * 10 ^ 6 = (r.rehearsed.flops - r.initialized.flops : ℤ) ∧
    r.mflops * 60 * 10 ^ 6 = (r.measured.flops - r.rehearsed.flops : ℤ) ∧
    r.measured.cells .p = (sweep r.initialized)^[r.nn + 3] (r.initialized.cells .p) ∧
    ((10 : ℚ)⁻¹ ^ 6 ≤ 3 → r.nn < 2 ^ 31) :=
  mflops_right (sizes .small) ℚ (by decide) (by decide)

end Main

end LinuxNote.Himeno.HimenoBMTxps
