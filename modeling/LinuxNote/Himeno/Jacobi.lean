import LinuxNote.Base.LoopNest
import Mathlib.Data.Rat.Init
import Mathlib.Logic.Function.Iterate

/-!
# The kernel of the benchmark

`jacobi` of `himenoBMTxps.c` relaxes a pressure by the point-Jacobi method.  Of the arithmetic of
`float` nothing is assumed: what is shown here holds of the numbers as they are rounded.

## Main definitions

* `Arr`, `State` — the arrays and the static variables.
* `relaxCell`, `copyCell`, `iteration`, `jacobi` — the function.
* `sweep`, `gosaOf` — one iteration as a simultaneous update, and its residual.

## Main results

* `relaxCell_eq` — what is done for a cell, and by how many operations.
* `iteration_eq`, `next_p` — an iteration is a simultaneous update.
* `jacobi_eq`, `iterate_p`, `iterate_flops` — what all iterations do.
-/

namespace LinuxNote.Himeno.HimenoBMTxps

open LoopNest LoopNest.Eval Loop Function

/-- The conversions to `float`: of a constant of type `double`, and of an `int`.  The
arithmetic is that of any type that has it, so the results hold for exact numbers and for
rounded ones. -/
class CFloat (F : Type*) where
  ofDouble : ℚ → F
  ofInt : ℤ → F

open CFloat

/-- The sizes of the arrays, which are constants of the compilation.  There is an inner
cell from three on. -/
structure Sizes where
  MIMAX : ℕ
  MJMAX : ℕ
  MKMAX : ℕ
  le_MIMAX : 3 ≤ MIMAX := by decide
  le_MJMAX : 3 ≤ MJMAX := by decide
  le_MKMAX : 3 ≤ MKMAX := by decide

/-- A cell of the arrays.  All arrays have the same three sizes. -/
def Sizes.Inside (d : Sizes) (x : Point) : Prop :=
  x.1 < d.MIMAX ∧ x.2.1 < d.MJMAX ∧ x.2.2 < d.MKMAX

instance (d : Sizes) (x : Point) : Decidable (d.Inside x) := by
  unfold Sizes.Inside
  infer_instance

/-- The arrays, of which `a`, `b` and `c` are several: one for each coefficient. -/
inductive Arr
  | a (n : Fin 4)
  | b (n : Fin 3)
  | c (n : Fin 3)
  | p
  | bnd
  | wrk1
  | wrk2
deriving DecidableEq

/-- The static variables, and the number of the operations that `jacobi` has executed,
which the source does not count but computes with `fflop`. -/
structure State (d : Sizes) (F : Type*) where
  cells : Arr → Point → F
  imax : ℕ
  jmax : ℕ
  kmax : ℕ
  omega : F
  flops : ℕ

/-! ### The memory -/

section Memory

variable {d : Sizes} {F : Type*}

/-- A cell in an expression; outside of the arrays there is nothing to read, and the
evaluation has no result. -/
def State.cell (s : State d F) (A : Arr) (x : Point) : Eval F :=
  if d.Inside x then val (s.cells A x) else ⟨none⟩

/-- An assignment to a cell; outside of the arrays it is undefined, and there is no state
after it. -/
def State.write (s : State d F) (A : Arr) (x : Point) (v : F) : Option (State d F) :=
  if d.Inside x then some { s with cells := update s.cells A (update (s.cells A) x v) } else none

/-- Assignments to the cells of different arrays, at the same point and in the order of
the source. -/
def State.writes (s : State d F) (x : Point) (vs : List (Arr × F)) : Option (State d F) :=
  vs.foldlM (fun s v => s.write v.1 x v.2) s

theorem State.cell_eq {s : State d F} {x : Point} (h : d.Inside x) (A : Arr) :
    s.cell A x = .done (s.cells A x) 0 := if_pos h

theorem State.write_eq {s : State d F} {x : Point} (h : d.Inside x) (A : Arr) (v : F) :
    s.write A x v = some { s with cells := update s.cells A (update (s.cells A) x v) } :=
  if_pos h

/-- The limits are those that `main` sets, one less than the sizes of the arrays, so that
the neighbours of an inner cell are inside. -/
structure State.Limits (s : State d F) : Prop where
  imax : s.imax = d.MIMAX - 1
  jmax : s.jmax = d.MJMAX - 1
  kmax : s.kmax = d.MKMAX - 1

/-- The cells that an iteration updates, in the order of its loops: none of them is at
the boundary. -/
def State.interior (s : State d F) : List Point := points 1 (s.imax - 1, s.jmax - 1, s.kmax - 1)

theorem mem_interior {s : State d F} {i j k : ℕ} : (i, j, k) ∈ s.interior ↔
    (1 ≤ i ∧ i < s.imax - 1) ∧ (1 ≤ j ∧ j < s.jmax - 1) ∧ (1 ≤ k ∧ k < s.kmax - 1) := mem_points

/-- A cell that is updated has all its neighbours in the arrays. -/
theorem inside_of_mem_interior {s : State d F} (hs : s.Limits) {i j k : ℕ}
    (h : (i, j, k) ∈ s.interior) {i' j' k' : ℕ} (hi : i' ≤ i + 1) (hj : j' ≤ j + 1)
    (hk : k' ≤ k + 1) : d.Inside (i', j', k') := by
  have hi' := hs.imax
  have hj' := hs.jmax
  have hk' := hs.kmax
  obtain ⟨⟨-, hi₂⟩, ⟨-, hj₂⟩, -, hk₂⟩ := mem_interior.mp h
  refine ⟨?_, ?_, ?_⟩ <;> simp only <;> omega

theorem inside_self {s : State d F} (hs : s.Limits) {x : Point} (h : x ∈ s.interior) :
    d.Inside x :=
  inside_of_mem_interior hs h (Nat.le_succ _) (Nat.le_succ _) (Nat.le_succ _)

/-- Two states with the same coefficients and variables: an iteration changes the
pressure and one of the work arrays, and nothing else. -/
structure State.Same (s t : State d F) : Prop where
  cells : ∀ A, A ≠ .p → A ≠ .wrk2 → t.cells A = s.cells A
  imax : t.imax = s.imax
  jmax : t.jmax = s.jmax
  kmax : t.kmax = s.kmax
  omega : t.omega = s.omega

theorem State.Same.limits {s t : State d F} (h : s.Same t) (hs : s.Limits) : t.Limits :=
  ⟨h.imax.trans hs.imax, h.jmax.trans hs.jmax, h.kmax.trans hs.kmax⟩

theorem State.Same.interior {s t : State d F} (h : s.Same t) : t.interior = s.interior := by
  rw [State.interior, State.interior, h.imax, h.jmax, h.kmax]

end Memory

/-! ### The second nest of `jacobi` -/

section Copy

variable {d : Sizes} {F : Type*}

/-- The body of the nest. -/
def copyCell (s : State d F) (x : Point) : Option (State d F) := do
  let (new, _) ← (s.cell .wrk2 x).run
  s.write .p x new

/-- The state after some cells have been copied from the work array to the pressure: the
invariant of the second nest. -/
def State.copied (s : State d F) (xs : List Point) : State d F where
  __ := s
  cells := update s.cells .p (overwrite (s.cells .p) xs (s.cells .wrk2))

theorem copied_cells (s : State d F) (xs : List Point) {A : Arr} (h : A ≠ .p) :
    (s.copied xs).cells A = s.cells A :=
  update_of_ne h _ s.cells

/-- One more cell is copied. -/
theorem copyCell_copied {s : State d F} (xs : List Point) {x : Point} (h : d.Inside x) :
    copyCell (s.copied xs) x = some (s.copied (xs ++ [x])) := by
  have hwrk2 : (s.copied xs).cells .wrk2 = s.cells .wrk2 := copied_cells s xs (by decide)
  simp only [copyCell, State.cell_eq h, run_done, Option.bind_eq_bind, Option.bind_some,
    State.write_eq h, hwrk2]
  have hcells : update (s.copied xs).cells .p (update ((s.copied xs).cells .p) x
      (s.cells .wrk2 x)) = (s.copied (xs ++ [x])).cells := by
    simp only [State.copied, update_self, update_idem]
    rw [update_overwrite (s.cells .p) xs (s.cells .wrk2)]
  rw [hcells]
  rfl

/-- The nest. -/
theorem copyNest_eq {s : State d F} (hs : s.Limits) :
    nest 1 (s.imax - 1, s.jmax - 1, s.kmax - 1) copyCell s = some (s.copied s.interior) := by
  obtain ⟨t, hrun, ht⟩ := foldlM_ok (f := copyCell) (s := s)
    (fun xs t => t = s.copied xs) s.interior (by simp [State.copied])
    fun xs x hx t ht => ⟨_, ht ▸ copyCell_copied xs (inside_self hs hx), rfl⟩
  rw [nest_eq_foldlM, ← ht]
  exact hrun

end Copy

/-! ### A cell -/

section Cell

variable {d : Sizes} {F : Type*} [Add F] [Sub F] [Mul F]

/-- The expression `s0` over the cells of the arrays. -/
def s0 {R : Type*} [Add R] [Sub R] [Mul R] (v : Arr → Point → R) : Point → R
  | (i, j, k) =>
    v (.a 0) (i, j, k) * v .p (i + 1, j, k)
      + v (.a 1) (i, j, k) * v .p (i, j + 1, k)
      + v (.a 2) (i, j, k) * v .p (i, j, k + 1)
      + v (.b 0) (i, j, k) * (v .p (i + 1, j + 1, k) - v .p (i + 1, j - 1, k)
        - v .p (i - 1, j + 1, k) + v .p (i - 1, j - 1, k))
      + v (.b 1) (i, j, k) * (v .p (i, j + 1, k + 1) - v .p (i, j - 1, k + 1)
        - v .p (i, j + 1, k - 1) + v .p (i, j - 1, k - 1))
      + v (.b 2) (i, j, k) * (v .p (i + 1, j, k + 1) - v .p (i - 1, j, k + 1)
        - v .p (i + 1, j, k - 1) + v .p (i - 1, j, k - 1))
      + v (.c 0) (i, j, k) * v .p (i - 1, j, k)
      + v (.c 1) (i, j, k) * v .p (i, j - 1, k)
      + v (.c 2) (i, j, k) * v .p (i, j, k - 1)
      + v .wrk1 (i, j, k)

/-- The correction `ss` of a cell: what is missing for its equation, where `bnd` says
that the cell takes part. -/
def ss {R : Type*} [Add R] [Sub R] [Mul R] (v : Arr → Point → R) (x : Point) : R :=
  (s0 v x * v (.a 3) x - v .p x) * v .bnd x

/-- The body of the first nest of `jacobi`. -/
def relaxCell (t : State d F × F) (x : Point) : Option (State d F × F) := do
  let (s, gosa) := t
  let (s0, n₁) ← (s0 s.cell x).run
  let (ss, n₂) ← ((val s0 * s.cell (.a 3) x - s.cell .p x) * s.cell .bnd x).run
  let (gosa, n₃) ← (val gosa + val ss * val ss).run
  let (new, n₄) ← (s.cell .p x + val s.omega * val ss).run
  let s ← s.write .wrk2 x new
  some ({ s with flops := s.flops + (n₁ + n₂ + n₃ + n₄) }, gosa)

/-- The corrections for a pressure, with the coefficients of a state, which an iteration
does not change. -/
def State.correction (s : State d F) (p : Point → F) : Point → F := ss (update s.cells .p p)

/-- **An iteration as a simultaneous update** of the pressure: all new values are
computed from the old ones, as the working area keeps them apart. -/
def sweep (s : State d F) (p : Point → F) : Point → F :=
  overwrite p s.interior fun x => p x + s.omega * s.correction p x

/-- **The expression of a cell** stays in the arrays and takes 27 operations. -/
theorem s0_cell {s : State d F} (hs : s.Limits) {x : Point} (h : x ∈ s.interior) :
    s0 s.cell x = .done (s0 s.cells x) 27 := by
  obtain ⟨i, j, k⟩ := x
  have hcell {i' j' k' : ℕ} (A : Arr) (hi : i' ≤ i + 1) (hj : j' ≤ j + 1) (hk : k' ≤ k + 1) :
      s.cell A (i', j', k') = .done (s.cells A (i', j', k')) 0 :=
    State.cell_eq (inside_of_mem_interior hs h hi hj hk) A
  simp (disch := omega) only [s0, hcell, done_add, done_sub, done_mul]

/-- **The body of the first nest**: it stays in the arrays, and takes 34 operations,
which is the number that `fflop` counts for a cell. -/
theorem relaxCell_eq {s : State d F} (hs : s.Limits) (gosa : F) {x : Point}
    (h : x ∈ s.interior) :
    relaxCell (s, gosa) x = some
      ({ s with
          cells := update s.cells .wrk2 (update (s.cells .wrk2) x
            (s.cells .p x + s.omega * ss s.cells x))
          flops := s.flops + 34 },
        gosa + ss s.cells x * ss s.cells x) := by
  have hx : d.Inside x := inside_self hs h
  simp only [relaxCell, s0_cell hs h, State.cell_eq hx, val, done_add, done_sub, done_mul, run_done,
    Option.bind_eq_bind, Option.bind_some, State.write_eq hx, ss]

/-- The correction does not depend on the array that is written. -/
theorem ss_update_wrk2 (c : Arr → Point → F) (g : Point → F) :
    ss (update c .wrk2 g) = ss c := by
  funext ⟨i, j, k⟩
  simp [ss, s0]

/-- The state after some cells have been relaxed: the invariant of the first nest, in
which the pressure is still the old one. -/
def State.relaxed (s : State d F) (xs : List Point) : State d F where
  __ := s
  cells := update s.cells .wrk2
    (overwrite (s.cells .wrk2) xs fun x => s.cells .p x + s.omega * ss s.cells x)
  flops := s.flops + 34 * xs.length

theorem relaxed_cells (s : State d F) (xs : List Point) {A : Arr} (h : A ≠ .wrk2) :
    (s.relaxed xs).cells A = s.cells A :=
  update_of_ne h _ s.cells

/-- The state after an iteration: all inner cells have been relaxed from the old pressure
at once. -/
def State.next (s : State d F) : State d F := (s.relaxed s.interior).copied s.interior

/-- **One iteration** is a simultaneous update of the pressure: the first nest reads the
pressure only, and the second one copies what it has written. -/
theorem next_p (s : State d F) : s.next.cells .p = sweep s (s.cells .p) := by
  have hcorr : s.correction (s.cells .p) = ss s.cells := by rw [State.correction, update_eq_self]
  funext x
  simp only [State.next, State.copied, State.relaxed, update_self, sweep, hcorr]
  rw [update_of_ne (by decide)]
  by_cases hx : x ∈ s.interior
  · rw [overwrite_of_mem hx, overwrite_of_mem hx, overwrite_of_mem hx]
  · rw [overwrite_of_notMem hx, overwrite_of_notMem hx]

/-- The coefficients and the variables stay. -/
theorem next_cells (s : State d F) {A : Arr} (hp : A ≠ .p) (hwrk2 : A ≠ .wrk2) :
    s.next.cells A = s.cells A := by
  rw [State.next, copied_cells _ _ hp, relaxed_cells s _ hwrk2]

/-! ### Iterations -/

theorem State.Same.correction {s t : State d F} (h : s.Same t) (p : Point → F) :
    t.correction p = s.correction p := by
  have hcells (A : Arr) (hwrk2 : A ≠ .wrk2) : update t.cells .p p A = update s.cells .p p A := by
    by_cases hp : A = .p
    · subst hp
      rw [update_self, update_self]
    · rw [update_of_ne hp, update_of_ne hp, h.cells A hp hwrk2]
  funext ⟨i, j, k⟩
  simp (disch := decide) only [State.correction, ss, s0, hcells]

theorem State.Same.sweep {s t : State d F} (h : s.Same t) : sweep t = sweep s := by
  funext p
  rw [HimenoBMTxps.sweep, HimenoBMTxps.sweep, h.interior, h.omega, h.correction]

theorem next_same (s : State d F) : s.Same s.next :=
  ⟨fun _ hp hwrk2 => next_cells s hp hwrk2, rfl, rfl, rfl, rfl⟩

theorem iterate_same (s : State d F) (n : ℕ) : s.Same (State.next^[n] s) := by
  induction n with
  | zero => exact ⟨fun _ _ _ => rfl, rfl, rfl, rfl, rfl⟩
  | succ n ih =>
    have hnext := next_same (State.next^[n] s)
    rw [iterate_succ_apply']
    exact ⟨fun A hp hwrk2 => (hnext.cells A hp hwrk2).trans (ih.cells A hp hwrk2),
      hnext.imax.trans ih.imax, hnext.jmax.trans ih.jmax, hnext.kmax.trans ih.kmax,
      hnext.omega.trans ih.omega⟩

/-- The pressure after some iterations. -/
theorem iterate_p (s : State d F) (n : ℕ) :
    (State.next^[n] s).cells .p = (sweep s)^[n] (s.cells .p) := by
  induction n with
  | zero => rfl
  | succ n ih => rw [iterate_succ_apply', iterate_succ_apply', next_p, (iterate_same s n).sweep, ih]

/-- The operations of some iterations. -/
theorem iterate_flops (s : State d F) (n : ℕ) :
    (State.next^[n] s).flops = s.flops + n * (34 * s.interior.length) := by
  induction n with
  | zero => rw [iterate_zero_apply, Nat.zero_mul, Nat.add_zero]
  | succ n ih =>
    rw [iterate_succ_apply']
    show (State.next^[n] s).flops + 34 * (State.next^[n] s).interior.length = _
    rw [ih, (iterate_same s n).interior, Nat.succ_mul n, Nat.add_assoc]

end Cell

/-! ### The function -/

section Jacobi

variable {d : Sizes} {F : Type*} [Add F] [Sub F] [Mul F] [CFloat F]

/-- One iteration of `jacobi`: the state and `gosa`. -/
def iteration (s : State d F) : Option (State d F × F) := do
  let (s, gosa) ← nest 1 (s.imax - 1, s.jmax - 1, s.kmax - 1) relaxCell (s, ofDouble 0.0)
  let s ← nest 1 (s.imax - 1, s.jmax - 1, s.kmax - 1) copyCell s
  some (s, gosa)

/-- `jacobi`: so many iterations, each of which starts `gosa` afresh.  Without an
iteration, what is returned has not been given a value. -/
def jacobi (nn : ℕ) (s : State d F) : Option (State d F × Option F) :=
  forRange (fun t _ => (iteration t.1).map fun r => (r.1, some r.2)) nn (s, none)

/-- The sum of the squares of the corrections, in the order of the loops. -/
def gosaOf (s : State d F) (p : Point → F) : F :=
  s.interior.foldl (fun gosa x => gosa + s.correction p x * s.correction p x) (ofDouble 0.0)

/-- The residual of some cells. -/
def State.residual (s : State d F) (xs : List Point) : F :=
  xs.foldl (fun gosa x => gosa + ss s.cells x * ss s.cells x) (ofDouble 0.0)

/-- One more cell is relaxed. -/
theorem relaxCell_relaxed {s : State d F} (hs : s.Limits) (xs : List Point) {x : Point}
    (h : x ∈ s.interior) :
    relaxCell (s.relaxed xs, s.residual xs) x =
      some (s.relaxed (xs ++ [x]), s.residual (xs ++ [x])) := by
  have hlim : (s.relaxed xs).Limits := ⟨hs.imax, hs.jmax, hs.kmax⟩
  have hcorr : ss (s.relaxed xs).cells = ss s.cells := ss_update_wrk2 s.cells _
  have hp : (s.relaxed xs).cells .p = s.cells .p := relaxed_cells s xs (by decide)
  rw [relaxCell_eq hlim _ h, hcorr, hp]
  have hcells : update (s.relaxed xs).cells .wrk2 (update ((s.relaxed xs).cells .wrk2) x
      (s.cells .p x + (s.relaxed xs).omega * ss s.cells x)) = (s.relaxed (xs ++ [x])).cells := by
    simp only [State.relaxed, update_self, update_idem]
    rw [update_overwrite (s.cells .wrk2) xs fun x => s.cells .p x + s.omega * ss s.cells x]
  have hflops : (s.relaxed xs).flops + 34 = (s.relaxed (xs ++ [x])).flops := by
    simp only [State.relaxed, List.length_append, List.length_singleton]
    omega
  have hgosa : s.residual xs + ss s.cells x * ss s.cells x = s.residual (xs ++ [x]) := by
    rw [State.residual, State.residual, List.foldl_append]
    rfl
  rw [hcells, hflops, hgosa]
  rfl

/-- The first nest. -/
theorem relaxNest_eq {s : State d F} (hs : s.Limits) :
    nest 1 (s.imax - 1, s.jmax - 1, s.kmax - 1) relaxCell (s, ofDouble 0.0) =
      some (s.relaxed s.interior, s.residual s.interior) := by
  obtain ⟨t, hrun, ht⟩ := foldlM_ok (f := relaxCell) (s := (s, ofDouble 0.0))
    (fun xs t => t = (s.relaxed xs, s.residual xs)) s.interior (by simp [State.relaxed, State.residual])
    fun xs x hx t ht => ⟨_, ht ▸ relaxCell_relaxed hs xs hx, rfl⟩
  rw [nest_eq_foldlM, ← ht]
  exact hrun

/-- **One iteration** goes through. -/
theorem iteration_eq {s : State d F} (hs : s.Limits) :
    iteration s = some (s.next, gosaOf s (s.cells .p)) := by
  have hcorr : s.correction (s.cells .p) = ss s.cells := by rw [State.correction, update_eq_self]
  have hlim : (s.relaxed s.interior).Limits := ⟨hs.imax, hs.jmax, hs.kmax⟩
  have hcopy := copyNest_eq hlim
  simp only [iteration, relaxNest_eq hs, hcopy, Option.bind_eq_bind, Option.bind_some, gosaOf,
    hcorr]
  rfl

theorem State.Same.gosaOf {s t : State d F} (h : s.Same t) : gosaOf t = gosaOf s := by
  funext p
  rw [HimenoBMTxps.gosaOf, HimenoBMTxps.gosaOf, h.interior, h.correction]

/-- What `jacobi` returns. -/
def gosaAfter (s : State d F) : ℕ → Option F
  | 0 => none
  | n + 1 => some (gosaOf s ((sweep s)^[n] (s.cells .p)))

/-- **All iterations** go through. -/
theorem jacobi_eq {s : State d F} (hs : s.Limits) (nn : ℕ) :
    jacobi nn s = some (State.next^[nn] s, gosaAfter s nn) := by
  rw [jacobi]
  induction nn with
  | zero => rfl
  | succ n ih =>
    have hsame := iterate_same s n
    rw [forRange_succ, ih, Option.bind_some, iteration_eq (hsame.limits hs), Option.map_some,
      iterate_succ_apply', gosaAfter, hsame.gosaOf, iterate_p]

end Jacobi

end LinuxNote.Himeno.HimenoBMTxps
