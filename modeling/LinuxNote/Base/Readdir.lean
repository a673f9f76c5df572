import Mathlib.Data.List.Basic

/-!
# Directory streams

A directory stream is a position in one fixed listing: `readdir` returns the
entry at the position and advances, `telldir` reports the position and `seekdir`
restores one.  A program walks a stream with

    while ((de = readdir(dir)) != NULL) { … }

whose body may `continue` or `break`; that loop is `whileReaddir`.

* `whileReaddir_cons_next`, `whileReaddir_cons_stop` — one turn of the loop.
* `whileReaddir_of_first` — a state that only the first turn tells apart from another.
-/

namespace Readdir

variable {α σ : Type*}

/-- How a loop body ends: with the next entry (also `continue`), or out of the
loop (`break`). -/
inductive Flow (σ : Type*)
  | next (s : σ)
  | stop (s : σ)

/-- `while ((de = readdir(dir)) != NULL) body`, for a stream at position `pos`
with `rest` still ahead.  The body is told the position `telldir` reports once
the entry has been read. -/
def whileReaddir (body : ℕ → α → σ → Flow σ) : ℕ → List α → σ → σ
  | _, [], s => s
  | pos, de :: rest, s =>
    match body (pos + 1) de s with
    | .next s' => whileReaddir body (pos + 1) rest s'
    | .stop s' => s'

@[simp] theorem whileReaddir_nil (body : ℕ → α → σ → Flow σ) (pos : ℕ) (s : σ) :
    whileReaddir body pos [] s = s := rfl

theorem whileReaddir_cons_next {body : ℕ → α → σ → Flow σ} {pos : ℕ} {de : α} {s s' : σ}
    (h : body (pos + 1) de s = .next s') (rest : List α) :
    whileReaddir body pos (de :: rest) s = whileReaddir body (pos + 1) rest s' := by
  rw [whileReaddir, h]

theorem whileReaddir_cons_stop {body : ℕ → α → σ → Flow σ} {pos : ℕ} {de : α} {s s' : σ}
    (h : body (pos + 1) de s = .stop s') (rest : List α) :
    whileReaddir body pos (de :: rest) s = s' := by
  rw [whileReaddir, h]

/-- Two states that the body does the same with on the first entry, whatever it is,
give the same walk over a listing that has one. -/
theorem whileReaddir_of_first {body : ℕ → α → σ → Flow σ} {pos : ℕ} {rest : List α}
    (hrest : rest ≠ []) {s t : σ} (h : ∀ de, body (pos + 1) de s = body (pos + 1) de t) :
    whileReaddir body pos rest s = whileReaddir body pos rest t := by
  obtain ⟨de, rest, rfl⟩ := List.exists_cons_of_ne_nil hrest
  rw [whileReaddir, whileReaddir, h de]

end Readdir
