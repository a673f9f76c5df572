import Mathlib.Data.Int.ModEq
import Mathlib.Data.List.Basic
import Mathlib.Logic.Function.Basic

/-!
# Ring buffers

A queue in an array of fixed size: it starts at a cell `tail` and goes on from the last cell of the
array to the first one.

## Main definitions

* `Holds N slots tail w` — the `N` cells `slots` hold the queue `w`, the oldest entry of which is in
  the cell `tail`.
* `foldAround N slots f stop` — a loop over the cells, up to the one before `stop`, whose condition
  is checked after the body.

## Main results

* `Holds.push`, `Holds.pop` — the next cell is written, and the oldest entry is given up.
* `Holds.last`, `Holds.length_eq` — the newest entry and the number of entries, from two indices.
* `Holds.foldAround_eq` — the loop goes through the entries in their order and ends.
-/

namespace RingBuffer

variable {α β : Type*} {N tail : ℕ} {slots : ℕ → α} {w : List α} {a : α}

/-- The `N` cells hold the queue `w` from the cell `tail` on. -/
structure Holds (N : ℕ) (slots : ℕ → α) (tail : ℕ) (w : List α) : Prop where
  tail_lt : tail < N
  length_le : w.length ≤ N
  get : ∀ (k : ℕ) (hk : k < w.length), slots ((tail + k) % N) = w[k]

/-- Less than `N` steps apart, two cells differ. -/
theorem add_mod_inj {k l : ℕ} (hk : k < N) (hl : l < N) (h : (tail + k) % N = (tail + l) % N) :
    k = l := by
  have hmod : k ≡ l [MOD N] := Nat.ModEq.add_left_cancel' tail h
  exact hmod.eq_of_lt_of_lt hk hl

theorem Holds.nil (h : tail < N) : Holds N slots tail [] :=
  ⟨h, Nat.zero_le N, fun _ hk => absurd hk (Nat.not_lt_zero _)⟩

/-- A new entry goes to the cell after the last one. -/
theorem Holds.push (h : Holds N slots tail w) (hw : w.length < N) (a : α) :
    Holds N (Function.update slots ((tail + w.length) % N) a) tail (w ++ [a]) where
  tail_lt := h.tail_lt
  length_le := by
    rw [List.length_append, List.length_singleton]
    exact hw
  get k hk := by
    rw [List.length_append, List.length_singleton] at hk
    rcases Nat.lt_or_eq_of_le (Nat.le_of_lt_succ hk) with hlt | rfl
    · have hne : (tail + k) % N ≠ (tail + w.length) % N := fun heq =>
        hlt.ne (add_mod_inj (hlt.trans hw) hw heq)
      rw [Function.update_of_ne hne, h.get k hlt, List.getElem_append_left hlt]
    · simp

/-- The oldest entry is given up by going on to the next cell. -/
theorem Holds.pop (h : Holds N slots tail (a :: w)) : Holds N slots ((tail + 1) % N) w where
  tail_lt := Nat.mod_lt _ (Nat.zero_lt_of_lt h.tail_lt)
  length_le := (Nat.le_succ _).trans h.length_le
  get k hk := by
    have hget := h.get (k + 1) (Nat.succ_lt_succ hk)
    rw [Nat.mod_add_mod, Nat.add_assoc, Nat.add_comm 1 k, hget, List.getElem_cons_succ]

/-- The oldest entry. -/
theorem Holds.head (h : Holds N slots tail (a :: w)) : slots tail = a := by
  have hget := h.get 0 (Nat.succ_pos _)
  rwa [Nat.add_zero, Nat.mod_eq_of_lt h.tail_lt] at hget

/-- The newest entry. -/
theorem Holds.last (h : Holds N slots tail (w ++ [a])) : slots ((tail + w.length) % N) = a := by
  have hget := h.get w.length (by simp)
  rwa [List.getElem_concat_length rfl] at hget

/-- The number of entries, from the cells of the newest and the oldest one. -/
theorem Holds.length_eq (h : Holds N slots tail (w ++ [a])) :
    (((tail + w.length) % N : ℕ) - (tail : ℤ) + N) % N + 1 = ((w ++ [a]).length : ℤ) := by
  have hw := h.length_le
  rw [List.length_append, List.length_singleton] at hw ⊢
  have hdvd : (((tail + w.length) % N : ℕ) - (tail : ℤ) + N) % N = (w.length : ℤ) % N := by
    push_cast
    rw [Int.add_emod_right, Int.emod_sub_emod, add_sub_cancel_left]
  rw [hdvd, Int.emod_eq_of_lt (Int.natCast_nonneg _) (by omega)]
  push_cast
  rfl

/-- The loop that starts in the cell `i` and ends after the one before `stop`, with at most as many
steps as the first number says. -/
def foldAround (N : ℕ) (slots : ℕ → α) (f : β → α → β) (stop : ℕ) : ℕ → ℕ → β → Option β
  | 0, _, _ => none
  | fuel + 1, i, b =>
    let b := f b (slots i)
    let i := (i + 1) % N
    if i ≠ stop then foldAround N slots f stop fuel i b else some b

/-- The loop ends, after it has gone through the entries in their order. -/
theorem Holds.foldAround_eq (f : β → α → β) {stop fuel : ℕ} (h : Holds N slots tail w)
    (hw : w ≠ []) (hstop : stop = (tail + w.length) % N) (hfuel : w.length ≤ fuel) (b : β) :
    foldAround N slots f stop fuel tail b = some (w.foldl f b) := by
  induction w generalizing tail fuel b with
  | nil => exact absurd rfl hw
  | cons a w ih =>
    cases fuel with
    | zero => exact absurd hfuel (Nat.not_succ_le_zero _)
    | succ fuel =>
      have hnext : stop = ((tail + 1) % N + w.length) % N := by
        rw [hstop, Nat.mod_add_mod, List.length_cons, Nat.add_assoc, Nat.add_comm 1]
      rw [foldAround, h.head]
      rcases eq_or_ne w [] with rfl | hne
      · have heq : (tail + 1) % N = stop := by simpa using hstop.symm
        simp [heq]
      · have hlast : (tail + 1) % N ≠ stop := by
          intro heq
          have hlen : w.length < N := h.length_le
          have hpos := List.length_pos_of_ne_nil hne
          rw [hnext] at heq
          have hsame : ((tail + 1) % N + 0) % N = ((tail + 1) % N + w.length) % N := by
            rw [← heq, Nat.add_zero, Nat.mod_mod]
          have hzero := add_mod_inj (Nat.zero_lt_of_lt hlen) hlen hsame
          omega
        rw [if_pos hlast]
        exact ih h.pop hne hnext (Nat.le_of_succ_le_succ hfuel) _

end RingBuffer
