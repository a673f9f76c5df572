import LinuxNote.Base.Relaxation
import LinuxNote.Himeno.Kernel

/-!
# What the kernel computes

With exact arithmetic, an iteration moves the pressure of each inner cell by four fifths of the
way to the mean of its six neighbours: with the coefficients that `initmt` sets, this is the
relaxation of Laplace's equation.  The pressure that it starts from is `i²/(imax-1)²`, which lies
below its means, so it grows.

## Main definitions

* `net` — the inner cells and their neighbours.
* `Solves` — the discrete Laplace equation with the boundary that `initmt` sets.

## Main results

* `sweep_initialized` — an iteration is a relaxation.
* `grows` — **the pressure grows and stays below one.**
* `converges` — **it converges to the solution**, and `gosa` to zero.
-/

namespace LinuxNote.Himeno.HimenoBMTxps

open LoopNest Relaxation Function Filter Topology CFloat

/-- Exact arithmetic with real numbers. -/
noncomputable instance : CFloat ℝ := ⟨Rat.cast, Int.cast⟩

variable {d : Sizes}

/-- The state after `initmt`. -/
noncomputable def init (d : Sizes) : State d ℝ := (State.start d ℝ).initialized

/-- The neighbours of a cell. -/
def neighbours : Point → List Point
  | (i, j, k) => [(i + 1, j, k), (i, j + 1, k), (i, j, k + 1), (i - 1, j, k), (i, j - 1, k),
      (i, j, k - 1)]

/-- The inner cells with their six neighbours: from each, the boundary is reached by going down
along the first index, so there is no part of the grid that the boundary does not determine. -/
noncomputable def net (d : Sizes) : Net Point where
  interior := (init d).interior
  neighbours := neighbours
  rank := Prod.fst
  descends := by
    rintro ⟨i, j, k⟩ h
    obtain ⟨⟨hi, -⟩, -, -⟩ := mem_interior.mp h
    exact ⟨(i - 1, j, k), by simp [neighbours], Nat.sub_lt hi Nat.one_pos⟩

/-- The pressure solves the discrete Laplace equation, with the values on the boundary that
`initmt` sets: each inner cell has the mean of its neighbours. -/
def Solves (d : Sizes) (u : Point → ℝ) : Prop :=
  (net d).Harmonic u ∧ ∀ x ∉ (init d).interior, u x = (init d).cells .p x

/-! ### An iteration is a relaxation -/

/-- The coefficients of an inner cell. -/
theorem init_cells {x : Point} (h : x ∈ (init d).interior) {A : Arr} (hA : A ≠ .wrk2) :
    (init d).cells A x = coefficient (d.MIMAX - 1) A x := by
  obtain ⟨i, j, k⟩ := x
  obtain ⟨⟨-, hi⟩, ⟨-, hj⟩, -, hk⟩ := mem_interior.mp h
  have hmem : (i, j, k) ∈ points 0 ((init d).imax, (init d).jmax, (init d).kmax) :=
    mem_points.mpr ⟨⟨Nat.zero_le _, Nat.lt_of_lt_pred hi⟩, ⟨Nat.zero_le _, Nat.lt_of_lt_pred hj⟩,
      Nat.zero_le _, Nat.lt_of_lt_pred hk⟩
  rw [init, initialized_cells _ hA (inside_self (initialized_limits d ℝ) h)]
  exact overwrite_of_mem hmem

/-- The correction of an inner cell is what is missing to the mean. -/
theorem correction_init {x : Point} (h : x ∈ (init d).interior) (p : Point → ℝ) :
    (init d).correction p x = mean (net d) p x - p x := by
  have hcell {A : Arr} (hp : A ≠ .p) (hA : A ≠ .wrk2) :
      update (init d).cells .p p A x = coefficient (d.MIMAX - 1) A x := by
    rw [update_of_ne hp, init_cells h hA]
  obtain ⟨i, j, k⟩ := x
  simp (disch := decide) only [State.correction, ss, s0, hcell, update_self]
  simp only [coefficient, mean, net, neighbours, ofDouble, Fin.isValue, Fin.reduceEq, reduceIte]
  norm_num
  ring

/-- **An iteration is a relaxation** of the inner cells by four fifths, with the coefficients that
`initmt` sets: the mixed ones are zero, and the others make the mean of six neighbours. -/
theorem sweep_init (p : Point → ℝ) : sweep (init d) p = relax (net d) (4 / 5) p := by
  have homega : (init d).omega = 4 / 5 := by
    show ((0.8 : ℚ) : ℝ) = 4 / 5
    norm_num
  funext x
  rw [sweep, relax]
  by_cases hx : x ∈ (init d).interior
  · rw [overwrite_of_mem hx, if_pos (show x ∈ (net d).interior from hx), homega,
      correction_init hx]
  · rw [overwrite_of_notMem hx, if_neg (show x ∉ (net d).interior from hx)]

/-! ### The pressure at the start -/

/-- The cells up to the limits. -/
def limits (d : Sizes) : List Point := points 0 (d.MIMAX - 1, d.MJMAX - 1, d.MKMAX - 1)

theorem mem_limits {i j k : ℕ} : (i, j, k) ∈ limits d ↔
    i < d.MIMAX - 1 ∧ j < d.MJMAX - 1 ∧ k < d.MKMAX - 1 := by
  rw [limits, mem_points]
  simp only [Nat.zero_le, true_and]

/-- **The pressure at the start**: up to the limits it is a parabola along the first index, and
zero behind them. -/
theorem init_p (x : Point) : (init d).cells .p x =
    overwrite (fun _ => (0 : ℝ)) (limits d) (fun x => ((x.1 : ℝ) / (d.MIMAX - 2)) ^ 2) x := by
  have hsize : (((d.MIMAX - 1 : ℕ) : ℤ) - 1 : ℤ) = d.MIMAX - 2 := by
    have := d.le_MIMAX
    omega
  rw [init, State.initialized, fill_cells _ _ _ (by decide), fill_cells _ _ _ (by decide)]
  by_cases hx : x ∈ limits d
  · rw [overwrite_of_mem hx]
    refine (overwrite_of_mem hx).trans ?_
    show ((x.1 * x.1 : ℤ) : ℝ) / ((((d.MIMAX - 1 : ℕ) : ℤ) - 1) * (((d.MIMAX - 1 : ℕ) : ℤ) - 1) : ℤ) = _
    rw [hsize]
    push_cast
    rw [div_pow, sq, sq]
  · rw [overwrite_of_notMem hx]
    refine (overwrite_of_notMem hx).trans ?_
    by_cases hsizes : x ∈ points 0 (d.MIMAX, d.MJMAX, d.MKMAX)
    · rw [overwrite_of_mem hsizes]
      show ((0.0 : ℚ) : ℝ) = 0
      norm_num
    · rw [overwrite_of_notMem hsizes]
      exact Rat.cast_zero

/-- It is nowhere more than one. -/
theorem init_p_le : (init d).cells .p ≤ fun _ => 1 := by
  rintro ⟨i, j, k⟩
  have hpos : (0 : ℝ) < d.MIMAX - 2 := by
    have : (3 : ℝ) ≤ d.MIMAX := by exact_mod_cast d.le_MIMAX
    linarith
  rw [init_p]
  by_cases hx : (i, j, k) ∈ limits d
  · obtain ⟨hi, -⟩ := mem_limits.mp hx
    have hle : (i : ℝ) ≤ d.MIMAX - 2 := by
      have : ((i + 2 : ℕ) : ℝ) ≤ d.MIMAX := by exact_mod_cast (by omega : i + 2 ≤ d.MIMAX)
      push_cast at this
      linarith
    rw [overwrite_of_mem hx]
    exact pow_le_one₀ (div_nonneg (Nat.cast_nonneg i) hpos.le) ((div_le_one hpos).mpr hle)
  · rw [overwrite_of_notMem hx]
    exact zero_le_one

/-- **It lies below its means**, as the parabola is convex; so the first relaxation raises it, and
then every one does. -/
theorem init_p_le_mean {x : Point} (h : x ∈ (net d).interior) :
    (init d).cells .p x ≤ mean (net d) ((init d).cells .p) x := by
  obtain ⟨i, j, k⟩ := x
  obtain ⟨⟨hi₁, hi⟩, ⟨hj₁, hj⟩, hk₁, hk⟩ := mem_interior.mp h
  have hp {i' j' k' : ℕ} (hi' : i' ≤ i + 1) (hj' : j' ≤ j + 1) (hk' : k' ≤ k + 1) :
      (init d).cells .p (i', j', k') = ((i' : ℝ) / (d.MIMAX - 2)) ^ 2 := by
    rw [init_p]
    exact overwrite_of_mem (mem_limits.mpr ⟨Nat.lt_of_le_of_lt hi' (Nat.add_lt_of_lt_sub hi),
      Nat.lt_of_le_of_lt hj' (Nat.add_lt_of_lt_sub hj),
      Nat.lt_of_le_of_lt hk' (Nat.add_lt_of_lt_sub hk)⟩)
  have hsub : ((i - 1 : ℕ) : ℝ) = i - 1 := by push_cast [hi₁]; rfl
  have hsq : 0 < ((d.MIMAX : ℝ) - 2) ^ 2 := by
    have : (3 : ℝ) ≤ d.MIMAX := by exact_mod_cast d.le_MIMAX
    exact pow_pos (by linarith) 2
  simp (disch := omega) only [mean, net, neighbours, List.map_cons, List.map_nil, hp, hsub]
  simp only [List.sum_cons, List.sum_nil, List.length_cons, List.length_nil, div_pow]
  push_cast
  calc (i : ℝ) ^ 2 / (d.MIMAX - 2) ^ 2 ≤ (i ^ 2 + 1 / 3) / (d.MIMAX - 2) ^ 2 :=
        div_le_div_of_nonneg_right (by linarith) hsq.le
    _ = _ := by ring

/-! ### All iterations -/

/-- The pressure after some iterations. -/
noncomputable def pressure (d : Sizes) (nn : ℕ) : Point → ℝ :=
  (relax (net d) (4 / 5))^[nn] ((init d).cells .p)

theorem sweep_iterate (nn : ℕ) : (sweep (init d))^[nn] ((init d).cells .p) = pressure d nn := by
  rw [pressure, show sweep (init d) = relax (net d) (4 / 5) from funext sweep_init]

/-- What `jacobi` leaves in the array and returns. -/
theorem jacobi_init (nn : ℕ) : ∃ t, jacobi (nn + 1) (init d) =
    some (t, some (gosaOf (init d) (pressure d nn))) ∧ t.cells .p = pressure d (nn + 1) := by
  refine ⟨_, ?_, (iterate_p (init d) (nn + 1)).trans (sweep_iterate (nn + 1))⟩
  have hlim : (init d).Limits := initialized_limits d ℝ
  rw [jacobi_eq hlim, gosaAfter, sweep_iterate]

/-- **The pressure grows and stays below one**, and on the boundary nothing changes: a relaxation
keeps the order of two pressures, and one is a solution with larger values on the boundary. -/
theorem grows (d : Sizes) (nn : ℕ) : ∃ t t' gosa gosa',
    jacobi (nn + 1) (init d) = some (t, some gosa) ∧
      jacobi (nn + 2) (init d) = some (t', some gosa') ∧
      (init d).cells .p ≤ t.cells .p ∧ t.cells .p ≤ t'.cells .p ∧ (t'.cells .p ≤ fun _ => 1) ∧
      ∀ x ∉ (init d).interior, t.cells .p x = (init d).cells .p x := by
  obtain ⟨t, hrun, ht⟩ := jacobi_init (d := d) nn
  obtain ⟨t', hrun', ht'⟩ := jacobi_init (d := d) (nn + 1)
  have hmono : Monotone (pressure d) :=
    monotone_iterate_relax (by norm_num) (by norm_num) fun _ hx => init_p_le_mean hx
  refine ⟨t, t', _, _, hrun, hrun', ?_, ?_, ?_, fun x hx => ?_⟩
  · rw [ht]
    exact hmono (Nat.zero_le _)
  · rw [ht, ht']
    exact hmono (Nat.le_succ _)
  · rw [ht']
    exact iterate_relax_le (by norm_num) (by norm_num) init_p_le _
  · rw [ht]
    exact iterate_relax_of_notMem (N := net d) hx _ _

/-- A loop that adds. -/
theorem foldl_add (f : Point → ℝ) (xs : List Point) (gosa : ℝ) :
    xs.foldl (fun gosa x => gosa + f x) gosa = gosa + (xs.map f).sum := by
  induction xs generalizing gosa with
  | nil => simp
  | cons x xs ih => rw [List.foldl_cons, ih, List.map_cons, List.sum_cons, add_assoc]

/-- The residual is the sum of the squares of what is missing to the means. -/
theorem gosaOf_eq_sum (p : Point → ℝ) : gosaOf (init d) p =
    ((init d).interior.map fun x => (mean (net d) p x - p x) * (mean (net d) p x - p x)).sum := by
  have hzero : (ofDouble 0.0 : ℝ) = 0 := by
    show ((0.0 : ℚ) : ℝ) = 0
    norm_num
  rw [gosaOf, foldl_add, hzero, zero_add]
  exact congrArg List.sum (List.map_congr_left fun x hx => by rw [correction_init hx])

/-- The residual of a solution is zero. -/
theorem gosaOf_eq_zero {u : Point → ℝ} (h : (net d).Harmonic u) : gosaOf (init d) u = 0 := by
  rw [gosaOf_eq_sum]
  refine List.sum_eq_zero fun g hg => ?_
  obtain ⟨x, hx, rfl⟩ := List.mem_map.mp hg
  rw [h x hx, sub_self, mul_zero]

theorem continuous_gosaOf : Continuous (gosaOf (init d)) := by
  rw [funext gosaOf_eq_sum]
  refine continuous_list_sum _ fun x _ => ?_
  have hmissing := (continuous_mean (net d) x).sub (continuous_apply x)
  exact hmissing.mul hmissing

/-- **The pressure converges to the one solution** of the equation, and `gosa` to zero.  So the
residual that the program prints goes to zero for a reason, and what it computes does not depend on
where it stops. -/
theorem converges (d : Sizes) : ∃ (u : Point → ℝ) (p : ℕ → Point → ℝ) (gosa : ℕ → ℝ),
    (∀ nn, ∃ t, jacobi (nn + 1) (init d) = some (t, some (gosa nn)) ∧ t.cells .p = p nn) ∧
      Solves d u ∧ (∀ v, Solves d v → v = u) ∧
      Tendsto p atTop (𝓝 u) ∧ Tendsto gosa atTop (𝓝 0) := by
  obtain ⟨u, hlim, hharmonic, hboundary⟩ := exists_tendsto_relax (N := net d) (ω := 4 / 5)
    (by norm_num) (by norm_num) init_p_le fun _ hx => init_p_le_mean hx
  refine ⟨u, fun nn => pressure d (nn + 1), fun nn => gosaOf (init d) (pressure d nn), jacobi_init,
    ⟨hharmonic, hboundary⟩, fun v hv => ?_, hlim.comp (tendsto_add_atTop_nat 1), ?_⟩
  · exact hv.1.eq_of_eqOn hharmonic fun x hx => (hv.2 x hx).trans (hboundary x hx).symm
  · have hgosa := (continuous_gosaOf (d := d)).continuousAt.tendsto.comp hlim
    rw [gosaOf_eq_zero hharmonic] at hgosa
    exact hgosa

end LinuxNote.Himeno.HimenoBMTxps
