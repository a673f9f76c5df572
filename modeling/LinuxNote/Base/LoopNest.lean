import LinuxNote.Base.Loop
import Mathlib.Algebra.Ring.Nat

/-!
# Loop nests over arrays of three dimensions

The three nested loops of a sweep over a grid as one loop over the list of its points, with the
rule for it: an invariant that is indexed by the points done.  An expression of the body reads
cells, and may be outside; its value comes with the number of the arithmetical operations that it
takes.

## Main definitions

* `forBetween`, `nest` — one loop, and three of them.
* `points` — the points of a nest in their order.
* `overwrite` — an array after the cells of some points have been written.
* `Eval` — the evaluation of an expression, with its operations counted.

## Main results

* `nest_eq_foldlM` — a nest is a loop over its points.
* `foldlM_ok` — the rule for a loop over a list.
* `length_points`, `mem_points` — how many points there are, and which.
-/

namespace LoopNest

variable {σ α : Type*}

/-- A cell of an array of three dimensions, by its indices from the outer loop to the inner one. -/
abbrev Point := ℕ × ℕ × ℕ

/-! ### Loops -/

/-- `for (i = lo; i < hi; i++) f`, where the body may fault.  There is no turn when `hi` is not
greater. -/
def forBetween (lo hi : ℕ) (f : σ → ℕ → Option σ) (s : σ) : Option σ :=
  (List.range' lo (hi - lo)).foldlM f s

/-- Three nested loops that start at the same index. -/
def nest (lo : ℕ) (hi : Point) (f : σ → Point → Option σ) (s : σ) : Option σ :=
  forBetween lo hi.1 (fun s i => forBetween lo hi.2.1 (fun s j =>
    forBetween lo hi.2.2 (fun s k => f s (i, j, k)) s) s) s

/-- The points of a nest in the order in which it gets to them. -/
def points (lo : ℕ) (hi : Point) : List Point :=
  (List.range' lo (hi.1 - lo)).flatMap fun i => (List.range' lo (hi.2.1 - lo)).flatMap fun j =>
    (List.range' lo (hi.2.2 - lo)).map fun k => (i, j, k)

/-- A loop over a list whose body is a loop. -/
theorem foldlM_flatMap {β : Type*} (f : σ → β → Option σ) (g : α → List β) (xs : List α)
    (s : σ) : (xs.flatMap g).foldlM f s = xs.foldlM (fun s x => (g x).foldlM f s) s := by
  induction xs generalizing s with
  | nil => rfl
  | cons x xs ih =>
    rw [List.flatMap_cons, List.foldlM_append, List.foldlM_cons]
    exact bind_congr fun t => ih t

/-- **A nest is a loop over its points.** -/
theorem nest_eq_foldlM (lo : ℕ) (hi : Point) (f : σ → Point → Option σ) (s : σ) :
    nest lo hi f s = (points lo hi).foldlM f s := by
  simp only [nest, forBetween, points, foldlM_flatMap, List.foldlM_map]

theorem mem_points {lo : ℕ} {hi : Point} {i j k : ℕ} :
    (i, j, k) ∈ points lo hi ↔
      (lo ≤ i ∧ i < hi.1) ∧ (lo ≤ j ∧ j < hi.2.1) ∧ (lo ≤ k ∧ k < hi.2.2) := by
  have hrange (n x : ℕ) : x ∈ List.range' lo (n - lo) ↔ lo ≤ x ∧ x < n := by
    rw [List.mem_range'_1]
    omega
  simp only [points, List.mem_flatMap, List.mem_map, hrange, Prod.mk.injEq]
  constructor
  · rintro ⟨i, hi, j, hj, k, hk, rfl, rfl, rfl⟩
    exact ⟨hi, hj, hk⟩
  · rintro ⟨hi, hj, hk⟩
    exact ⟨i, hi, j, hj, k, hk, rfl, rfl, rfl⟩

theorem length_points (lo : ℕ) (hi : Point) :
    (points lo hi).length = (hi.1 - lo) * ((hi.2.1 - lo) * (hi.2.2 - lo)) := by
  simp [points, List.length_flatMap]

/-- **Loop rule** over a list: an invariant that is indexed by the elements done. -/
theorem foldlM_ok {f : σ → α → Option σ} (P : List α → σ → Prop) (xs : List α) {s : σ}
    (h0 : P [] s)
    (hstep : ∀ ys, ∀ x ∈ xs, ∀ t, P ys t → ∃ t', f t x = some t' ∧ P (ys ++ [x]) t') :
    ∃ t, xs.foldlM f s = some t ∧ P xs t := by
  induction xs using List.reverseRecOn with
  | nil => exact ⟨s, rfl, h0⟩
  | append_singleton xs x ih =>
    obtain ⟨t, hrun, hP⟩ := ih fun ys y hy => hstep ys y (List.mem_append_left [x] hy)
    obtain ⟨t', hf, hP'⟩ := hstep xs x (List.mem_append_right xs (List.mem_singleton_self x)) t hP
    refine ⟨t', ?_, hP'⟩
    rw [List.foldlM_append, hrun]
    show [x].foldlM f t = some t'
    rw [List.foldlM_cons, hf]
    rfl

/-! ### Writing cells -/

section Overwrite

variable [DecidableEq α] {β : Type*}

/-- The cells of some points are written, and all others are as they were. -/
def overwrite (g : α → β) (xs : List α) (v : α → β) : α → β :=
  fun x => if x ∈ xs then v x else g x

@[simp] theorem overwrite_nil (g v : α → β) : overwrite g [] v = g :=
  funext fun _ => if_neg List.not_mem_nil

theorem overwrite_of_mem {g v : α → β} {xs : List α} {x : α} (h : x ∈ xs) :
    overwrite g xs v x = v x := if_pos h

theorem overwrite_of_notMem {g v : α → β} {xs : List α} {x : α} (h : x ∉ xs) :
    overwrite g xs v x = g x := if_neg h

/-- One more point. -/
theorem update_overwrite (g : α → β) (xs : List α) (v : α → β) (x : α) :
    Function.update (overwrite g xs v) x (v x) = overwrite g (xs ++ [x]) v := by
  funext y
  by_cases hy : y = x
  · subst hy
    rw [Function.update_self, overwrite_of_mem (by simp)]
  · rw [Function.update_of_ne hy]
    simp [overwrite, hy]

end Overwrite

/-! ### Expressions -/

/-- What the evaluation of an expression gives, if it stays inside of the arrays: its value and
the number of the operations. -/
structure Eval (F : Type*) where
  run : Option (F × ℕ)

namespace Eval

variable {F : Type*}

/-- A value that is got by so many operations.  An access outside of the arrays has no value at
all. -/
def done (x : F) (n : ℕ) : Eval F := ⟨some (x, n)⟩

/-- A variable or a constant. -/
def val (x : F) : Eval F := done x 0

/-- Both operands, and one operation more. -/
def binary (op : F → F → F) (x y : Eval F) : Eval F :=
  ⟨do
    let (a, m) ← x.run
    let (b, n) ← y.run
    some (op a b, m + n + 1)⟩

instance [Add F] : Add (Eval F) := ⟨binary (· + ·)⟩
instance [Sub F] : Sub (Eval F) := ⟨binary (· - ·)⟩
instance [Mul F] : Mul (Eval F) := ⟨binary (· * ·)⟩

@[simp] theorem run_done (x : F) (n : ℕ) : (done x n).run = some (x, n) := rfl

@[simp] theorem done_add [Add F] (x y : F) (m n : ℕ) :
    done x m + done y n = done (x + y) (m + n + 1) := rfl

@[simp] theorem done_sub [Sub F] (x y : F) (m n : ℕ) :
    done x m - done y n = done (x - y) (m + n + 1) := rfl

@[simp] theorem done_mul [Mul F] (x y : F) (m n : ℕ) :
    done x m * done y n = done (x * y) (m + n + 1) := rfl

end Eval

end LoopNest
