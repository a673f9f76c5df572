import Mathlib.Data.List.Range

/-!
# Counted loops

The loops `for (i = 0; i < n; i++)` of a C program as folds over `List.range`,
with the rules the proofs about them apply: peel the last iteration, and carry
an invariant indexed by the number of iterations done.  A body that reads or
writes an array may fault, so there are two forms.

* `forRange` — the body may fault; `forRange_ok` is the rule for total
  correctness, `forRange_inv` the one for runs that are known to complete.
* `forEach` — the body never faults; `forEach_inv`.

Loops over the words of a list are `List.foldl`; `foldl_append` is the rule for those whose
iterations print independently of each other.
-/

namespace Loop

variable {σ : Type*}

/-! ### Bodies that may fault -/

/-- `for (i = 0; i < n; i++) f`, on a state a step may fault on. -/
def forRange (f : σ → ℕ → Option σ) (n : ℕ) (s : σ) : Option σ := (List.range n).foldlM f s

@[simp] theorem forRange_zero (f : σ → ℕ → Option σ) (s : σ) : forRange f 0 s = some s := rfl

/-- Peel the last iteration. -/
theorem forRange_succ (f : σ → ℕ → Option σ) (n : ℕ) (s : σ) :
    forRange f (n + 1) s = (forRange f n s).bind fun t => f t n := by
  unfold forRange
  rw [List.range_succ, List.foldlM_append]
  cases (List.range n).foldlM f s with
  | none => rfl
  | some t =>
    change (List.foldlM f t [n]) = f t n
    rw [List.foldlM_cons]
    cases f t n <;> rfl

/-- **Loop rule, total correctness**: if every step goes through and preserves
`P`, the loop goes through and ends in `P n`. -/
theorem forRange_ok {f : σ → ℕ → Option σ} (P : ℕ → σ → Prop) {n : ℕ} {s : σ} (h0 : P 0 s)
    (hstep : ∀ i < n, ∀ t, P i t → ∃ t', f t i = some t' ∧ P (i + 1) t') :
    ∃ t, forRange f n s = some t ∧ P n t := by
  induction n with
  | zero => exact ⟨s, rfl, h0⟩
  | succ n ih =>
    obtain ⟨t, ht, hP⟩ := ih fun i hi => hstep i (by omega)
    obtain ⟨t', ht', hP'⟩ := hstep n (by omega) t hP
    exact ⟨t', by rw [forRange_succ, ht, Option.bind_some, ht'], hP'⟩

/-- **Loop rule, partial correctness**: a loop that completes ends in `P n`, if
every step that completes preserves `P`. -/
theorem forRange_inv {f : σ → ℕ → Option σ} (P : ℕ → σ → Prop) {n : ℕ} {s : σ} (h0 : P 0 s)
    (hstep : ∀ i < n, ∀ t t', P i t → f t i = some t' → P (i + 1) t') :
    ∀ t, forRange f n s = some t → P n t := by
  induction n with
  | zero => intro t ht; cases ht; exact h0
  | succ n ih =>
    intro t' ht'
    rw [forRange_succ, Option.bind_eq_some_iff] at ht'
    obtain ⟨t, ht, hf⟩ := ht'
    exact hstep n (by omega) t t' (ih (fun i hi => hstep i (by omega)) t ht) hf

/-- A loop that completes has completed every shorter one. -/
theorem forRange_prefix {f : σ → ℕ → Option σ} {n : ℕ} {s t : σ}
    (h : forRange f n s = some t) : ∀ i < n, ∃ u v, forRange f i s = some u ∧ f u i = some v := by
  induction n generalizing t with
  | zero => intro i hi; omega
  | succ n ih =>
    rw [forRange_succ, Option.bind_eq_some_iff] at h
    obtain ⟨u, hu, hf⟩ := h
    intro i hi
    rcases Nat.lt_or_ge i n with hlt | hge
    · exact ih hu i hlt
    · have hin : i = n := by omega
      subst hin
      exact ⟨u, t, hu, hf⟩

/-! ### Bodies that never fault -/

/-- `for (i = 0; i < n; i++) f`. -/
def forEach (f : σ → ℕ → σ) (n : ℕ) (s : σ) : σ := (List.range n).foldl f s

/-- Peel the last iteration. -/
theorem forEach_succ (f : σ → ℕ → σ) (n : ℕ) (s : σ) :
    forEach f (n + 1) s = f (forEach f n s) n := by
  simp [forEach, List.range_succ]

/-- **Loop rule**: what every step preserves holds at the end. -/
theorem forEach_inv {f : σ → ℕ → σ} (P : ℕ → σ → Prop) {n : ℕ} {s : σ} (h0 : P 0 s)
    (hstep : ∀ i < n, ∀ t, P i t → P (i + 1) (f t i)) : P n (forEach f n s) := by
  induction n with
  | zero => exact h0
  | succ n ih =>
    rw [forEach_succ]
    exact hstep n (by omega) _ (ih fun i hi => hstep i (by omega))

/-! ### Loops that print -/

/-- **Loop rule**: if every iteration keeps an invariant and prints what belongs to its
element, the loop prints what belongs to all elements. -/
theorem foldl_append {α ο : Type*} {f : σ → α → σ} (I : σ → Prop) (out : σ → List ο)
    (g : α → List ο) (xs : List α)
    (hstep : ∀ x ∈ xs, ∀ s, I s → I (f s x) ∧ out (f s x) = out s ++ g x) {s : σ} (hs : I s) :
    I (xs.foldl f s) ∧ out (xs.foldl f s) = out s ++ xs.flatMap g := by
  induction xs generalizing s with
  | nil => exact ⟨hs, by simp⟩
  | cons x xs ih =>
    obtain ⟨hI, hout⟩ := hstep x List.mem_cons_self s hs
    obtain ⟨hI', hout'⟩ := ih (fun y hy => hstep y (List.mem_cons_of_mem x hy)) hI
    refine ⟨hI', ?_⟩
    rw [List.foldl_cons, hout', hout, List.flatMap_cons, List.append_assoc]

/-- A loop over a list that is not empty ends with the iteration of its last element. -/
theorem foldl_eq_last {α : Type*} (f : σ → α → σ) {xs : List α} (h : xs ≠ []) (d : α)
    (s : σ) : ∃ t, xs.foldl f s = f t (xs.getLastD d) := by
  refine ⟨xs.dropLast.foldl f s, ?_⟩
  conv_lhs => rw [← List.dropLast_append_getLast h]
  rw [List.foldl_append, List.getLastD_eq_getLast?, List.getLast?_eq_some_getLast h]
  rfl

end Loop
