import Mathlib.Algebra.BigOperators.Group.List.Basic
import Mathlib.Algebra.Order.BigOperators.Group.List
import Mathlib.Algebra.Order.Field.Basic
import Mathlib.Dynamics.FixedPoints.Topology
import Mathlib.Order.Iterate
import Mathlib.Topology.Algebra.Monoid
import Mathlib.Topology.Instances.Real.Lemmas
import Mathlib.Topology.Order.MonotoneConvergence

/-!
# Relaxation on a net

A function on the points of a net is relaxed at some of them, all at once: each goes a part of the
way to the mean of its neighbours.  This keeps the order of functions, so it keeps bounds; and a
function that lies below its means grows up to the one function with the same values on the
boundary that is equal to its means.

## Main definitions

* `Net` — the points that are relaxed, and the neighbours of each.
* `mean`, `relax` — the mean of the neighbours, and one relaxation.
* `Net.Harmonic` — to be equal to the mean.

## Main results

* `relax_mono` — relaxation keeps the order.
* `Harmonic.eq_of_eqOn` — **the maximum principle**: a harmonic function is given by its boundary.
* `exists_tendsto_relax` — **relaxation from below converges** to a harmonic function.
-/

namespace Relaxation

open Function Filter Topology

/-- The points that are relaxed, and the neighbours of each; from each of them there is a way to
the boundary along which the rank gets smaller, so that a function without a value above the
boundary's has none above it anywhere. -/
structure Net (α : Type*) where
  interior : List α
  neighbours : α → List α
  rank : α → ℕ
  descends : ∀ x ∈ interior, ∃ y ∈ neighbours x, rank y < rank x

section Field

variable {α K : Type*} [Field K] {N : Net α}

/-- The mean of the neighbours, each of them with the same weight. -/
def mean (N : Net α) (p : α → K) (x : α) : K :=
  ((N.neighbours x).map p).sum / (N.neighbours x).length

/-- One relaxation: all points go towards the mean of their neighbours at once, by the factor `ω`
of the difference. -/
def relax [DecidableEq α] (N : Net α) (ω : K) (p : α → K) : α → K :=
  fun x => if x ∈ N.interior then p x + ω * (mean N p x - p x) else p x

/-- To be equal to the mean at all points that are relaxed. -/
def Net.Harmonic (N : Net α) (p : α → K) : Prop := ∀ x ∈ N.interior, mean N p x = p x

theorem Net.length_pos {x : α} (h : x ∈ N.interior) : 0 < (N.neighbours x).length := by
  obtain ⟨y, hy, -⟩ := N.descends x h
  exact List.length_pos_of_mem hy

theorem mean_sub (u v : α → K) (x : α) : mean N (u - v) x = mean N u x - mean N v x := by
  have hsum (l : List α) : (l.map (u - v)).sum = (l.map u).sum - (l.map v).sum := by
    induction l with
    | nil => simp
    | cons y l ih => simp only [List.map_cons, List.sum_cons, ih, Pi.sub_apply]; ring
  rw [mean, mean, mean, hsum, sub_div]

variable [DecidableEq α] {ω : K}

/-- The boundary stays. -/
theorem iterate_relax_of_notMem {x : α} (h : x ∉ N.interior) (p : α → K) (n : ℕ) :
    (relax N ω)^[n] p x = p x := by
  induction n with
  | zero => rfl
  | succ n ih => rw [iterate_succ_apply', relax, if_neg h, ih]

theorem harmonic_of_relax_eq (h0 : ω ≠ 0) {p : α → K} (h : relax N ω p = p) : N.Harmonic p := by
  intro x hx
  have hfix := congrFun h x
  rw [relax, if_pos hx] at hfix
  have hzero : ω * (mean N p x - p x) = 0 := add_eq_left.mp hfix
  exact sub_eq_zero.mp ((mul_eq_zero.mp hzero).resolve_left h0)

end Field

section Order

variable {α K : Type*} [Field K] [LinearOrder K] [IsStrictOrderedRing K] {N : Net α}

theorem mean_mono {p q : α → K} (h : p ≤ q) (x : α) : mean N p x ≤ mean N q x :=
  div_le_div_of_nonneg_right (List.sum_le_sum fun y _ => h y) (Nat.cast_nonneg _)

theorem mean_const {x : α} (h : x ∈ N.interior) (c : K) : mean N (fun _ => c) x = c := by
  have hpos : ((N.neighbours x).length : K) ≠ 0 := Nat.cast_ne_zero.mpr (Net.length_pos h).ne'
  rw [mean, List.map_const', List.sum_replicate, nsmul_eq_mul, mul_div_cancel_left₀ c hpos]

section Relax

variable [DecidableEq α] {ω : K}

/-- **Relaxation keeps the order**, as all weights are at least zero when `ω` is between zero and
one. -/
theorem relax_mono (h0 : 0 ≤ ω) (h1 : ω ≤ 1) : Monotone (relax N ω) := by
  intro p q h x
  have hmean := mean_mono (N := N) h x
  have hx := h x
  rw [relax, relax]
  split
  · calc p x + ω * (mean N p x - p x) = (1 - ω) * p x + ω * mean N p x := by ring
      _ ≤ (1 - ω) * q x + ω * mean N q x :=
        add_le_add (mul_le_mul_of_nonneg_left hx (sub_nonneg.mpr h1))
          (mul_le_mul_of_nonneg_left hmean h0)
      _ = q x + ω * (mean N q x - q x) := by ring
  · exact hx

theorem relax_const (c : K) : relax N ω (fun _ => c) = fun _ => c := by
  funext x
  rw [relax]
  split
  · next h => rw [mean_const h, sub_self, mul_zero, add_zero]
  · rfl

/-- Relaxation keeps an upper bound. -/
theorem iterate_relax_le (h0 : 0 ≤ ω) (h1 : ω ≤ 1) {p : α → K} {c : K} (h : p ≤ fun _ => c)
    (n : ℕ) : (relax N ω)^[n] p ≤ fun _ => c := by
  rw [← iterate_fixed (relax_const c) n]
  exact (relax_mono h0 h1).iterate n h

/-- What lies below its means grows. -/
theorem le_relax (h0 : 0 ≤ ω) {p : α → K} (h : ∀ x ∈ N.interior, p x ≤ mean N p x) :
    p ≤ relax N ω p := by
  intro x
  rw [relax]
  split
  · next hx => exact le_add_of_nonneg_right (mul_nonneg h0 (sub_nonneg.mpr (h x hx)))
  · exact le_refl _

/-- **Relaxation from below grows** with every step: by the order, it is enough that the first step
does not go down anywhere. -/
theorem monotone_iterate_relax (h0 : 0 ≤ ω) (h1 : ω ≤ 1) {p : α → K}
    (h : ∀ x ∈ N.interior, p x ≤ mean N p x) : Monotone fun n => (relax N ω)^[n] p :=
  (relax_mono h0 h1).monotone_iterate_of_le_map (le_relax h0 h)

end Relax

/-! ### The maximum principle -/

/-- Numbers below a bound whose sum is as large as can be are equal to it. -/
theorem eq_of_sum_eq {l : List α} {w : α → K} {M : K} (hle : ∀ y ∈ l, w y ≤ M)
    (hsum : (l.map w).sum = l.length * M) : ∀ y ∈ l, w y = M := by
  induction l with
  | nil => intro y hy; cases hy
  | cons z l ih =>
    have hz := hle z List.mem_cons_self
    have hl : ∀ y ∈ l, w y ≤ M := fun y hy => hle y (List.mem_cons_of_mem z hy)
    have hrest : (l.map w).sum ≤ l.length * M := by
      have := List.sum_le_card_nsmul (l.map w) M (by simpa using hl)
      simpa using this
    rw [List.map_cons, List.sum_cons, List.length_cons, Nat.cast_succ, add_mul, one_mul] at hsum
    intro y hy
    rcases List.mem_cons.mp hy with rfl | hy
    · linarith
    · exact ih hl (by linarith) y hy

/-- A harmonic function that is zero on the boundary is nowhere positive: where it is largest, so
it is at a neighbour that is nearer to the boundary. -/
theorem Net.Harmonic.le_zero {w : α → K} (h : N.Harmonic w) (hzero : ∀ x ∉ N.interior, w x = 0)
    (x : α) : w x ≤ 0 := by
  classical
  by_contra hpos
  have hx : x ∈ N.interior := by
    by_contra hx
    exact hpos (hzero x hx).le
  obtain ⟨m, hm, hmax⟩ := N.interior.toFinset.exists_max_image w ⟨x, List.mem_toFinset.mpr hx⟩
  have hle (y : α) : w y ≤ w m := by
    by_cases hy : y ∈ N.interior
    · exact hmax y (List.mem_toFinset.mpr hy)
    · rw [hzero y hy]
      exact (not_le.mp hpos).le.trans (hmax x (List.mem_toFinset.mpr hx))
  have hmpos : 0 < w m := (not_le.mp hpos).trans_le (hle x)
  -- by induction on the rank, no point of the interior reaches the maximum
  have hnone : ∀ n, ∀ y ∈ N.interior, N.rank y = n → w y ≠ w m := by
    intro n
    induction n using Nat.strong_induction_on with
    | _ n ih =>
      rintro y hy rfl heq
      obtain ⟨z, hz, hrank⟩ := N.descends y hy
      have hlen : ((N.neighbours y).length : K) ≠ 0 :=
        Nat.cast_ne_zero.mpr (Net.length_pos hy).ne'
      have hsum : ((N.neighbours y).map w).sum = (N.neighbours y).length * w m := by
        rw [← heq, ← h y hy, mean, mul_div_cancel₀ _ hlen]
      have hzmax := eq_of_sum_eq (fun y _ => hle y) hsum z hz
      by_cases hzint : z ∈ N.interior
      · exact ih _ hrank z hzint rfl hzmax
      · rw [hzero z hzint] at hzmax
        exact hmpos.ne hzmax
  exact hnone _ m (List.mem_toFinset.mp hm) rfl rfl

/-- **The maximum principle**: two harmonic functions that agree on the boundary are equal. -/
theorem Net.Harmonic.eq_of_eqOn {u v : α → K} (hu : N.Harmonic u) (hv : N.Harmonic v)
    (h : ∀ x ∉ N.interior, u x = v x) : u = v := by
  have hle {u v : α → K} (hu : N.Harmonic u) (hv : N.Harmonic v)
      (h : ∀ x ∉ N.interior, u x = v x) : u ≤ v := by
    have hsub : N.Harmonic (u - v) := fun x hx => by rw [mean_sub, hu x hx, hv x hx]; rfl
    intro x
    exact sub_nonpos.mp (hsub.le_zero (fun y hy => sub_eq_zero.mpr (h y hy)) x)
  exact le_antisymm (hle hu hv h) (hle hv hu fun x hx => (h x hx).symm)

end Order

/-! ### Convergence -/

section Limit

variable {α : Type*} {N : Net α} {ω : ℝ}

theorem continuous_mean (N : Net α) (x : α) : Continuous fun p : α → ℝ => mean N p x := by
  unfold mean
  refine Continuous.div_const ?_ _
  exact continuous_list_sum _ fun y _ => continuous_apply y

variable [DecidableEq α]

theorem continuous_relax (N : Net α) (ω : ℝ) : Continuous (relax N ω) := by
  refine continuous_pi fun x => ?_
  by_cases hx : x ∈ N.interior
  · simp only [relax, if_pos hx]
    exact (continuous_apply x).add
      (continuous_const.mul ((continuous_mean N x).sub (continuous_apply x)))
  · simp only [relax, if_neg hx]
    exact continuous_apply x

/-- **Relaxation from below converges** to a harmonic function with the same boundary. -/
theorem exists_tendsto_relax (h0 : 0 < ω) (h1 : ω ≤ 1) {p : α → ℝ} {c : ℝ} (hc : p ≤ fun _ => c)
    (h : ∀ x ∈ N.interior, p x ≤ mean N p x) : ∃ u,
      Tendsto (fun n => (relax N ω)^[n] p) atTop (𝓝 u) ∧ N.Harmonic u ∧
        ∀ x ∉ N.interior, u x = p x := by
  have hmono := monotone_iterate_relax h0.le h1 h
  let u : α → ℝ := fun x => ⨆ n, (relax N ω)^[n] p x
  have hlim : Tendsto (fun n => (relax N ω)^[n] p) atTop (𝓝 u) := by
    refine tendsto_pi_nhds.mpr fun x => ?_
    refine tendsto_atTop_ciSup (fun m n hmn => hmono hmn x) ⟨c, ?_⟩
    rintro _ ⟨n, rfl⟩
    exact iterate_relax_le h0.le h1 hc n x
  have hfix : relax N ω u = u := isFixedPt_of_tendsto_iterate hlim (continuous_relax N ω).continuousAt
  refine ⟨u, hlim, harmonic_of_relax_eq h0.ne' hfix, fun x hx => ?_⟩
  have hboundary : Tendsto (fun n => (relax N ω)^[n] p x) atTop (𝓝 (p x)) := by
    simp only [iterate_relax_of_notMem hx]
    exact tendsto_const_nhds
  exact tendsto_nhds_unique ((tendsto_pi_nhds.mp hlim) x) hboundary

end Limit

end Relaxation
