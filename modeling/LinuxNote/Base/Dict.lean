import Mathlib.Data.List.Basic

/-!
# Dictionaries

A dictionary as a list of its entries, in the order in which the keys came.

## Main definitions

* `get`, `set` — the value of a key, and the dictionary with another one.
* `setAll` — the dictionary after some changes.

## Main results

* `get_set_self`, `get_set_of_ne` — what is found after a change.
* `countP_set` — a change takes away what was counted of the old value, and adds what is of the new
  one.
-/

namespace Dict

variable {κ α : Type*} [DecidableEq κ]

/-- The value of a key.  A key is there once at most when the dictionary was made with
`set`. -/
def get (k : κ) : List (κ × α) → Option α
  | [] => none
  | (k', v) :: d => if k' = k then some v else get k d

/-- The dictionary with a value of a key.  A key that is there stays in its place, and a
new one is the last. -/
def set (k : κ) (v : α) : List (κ × α) → List (κ × α)
  | [] => [(k, v)]
  | (k', v') :: d => if k' = k then (k, v) :: d else (k', v') :: set k v d

@[simp] theorem get_set_self (k : κ) (v : α) (d : List (κ × α)) : get k (set k v d) = some v := by
  induction d with
  | nil => rw [set, get, if_pos rfl]
  | cons entry d ih =>
    rw [set]
    split
    · rw [get, if_pos rfl]
    · next hk => rw [get, if_neg hk, ih]

theorem get_set_of_ne {k k' : κ} (h : k' ≠ k) (v : α) (d : List (κ × α)) :
    get k' (set k v d) = get k' d := by
  induction d with
  | nil => simp only [set, get, if_neg (Ne.symm h)]
  | cons entry d ih =>
    rw [set]
    split
    · next hk => rw [get, get, if_neg (Ne.symm h), hk, if_neg (Ne.symm h)]
    · rw [get, get, ih]

theorem mem_of_get {k : κ} {v : α} {d : List (κ × α)} (h : get k d = some v) : (k, v) ∈ d := by
  induction d with
  | nil => rw [get] at h; nomatch h
  | cons entry d ih =>
    rw [get] at h
    split at h
    · next hk =>
      rw [← hk, ← Option.some.inj h]
      exact List.mem_cons_self
    · exact List.mem_cons_of_mem _ (ih h)

theorem mem_set {k : κ} {v : α} {d : List (κ × α)} {entry : κ × α} (h : entry ∈ set k v d) :
    entry = (k, v) ∨ entry ∈ d := by
  induction d with
  | nil => exact Or.inl (List.mem_singleton.mp h)
  | cons entry' d ih =>
    rw [set] at h
    split at h
    · rcases List.mem_cons.mp h with heq | hmem
      · exact Or.inl heq
      · exact Or.inr (List.mem_cons_of_mem _ hmem)
    · rcases List.mem_cons.mp h with heq | hmem
      · exact Or.inr (heq ▸ List.mem_cons_self)
      · exact (ih hmem).imp_right (List.mem_cons_of_mem _)

/-- The keys after a change. -/
theorem map_fst_set (k : κ) (v : α) (d : List (κ × α)) :
    (set k v d).map Prod.fst = if k ∈ d.map Prod.fst then d.map Prod.fst
      else d.map Prod.fst ++ [k] := by
  induction d with
  | nil => rfl
  | cons entry d ih =>
    rw [set]
    by_cases hk : entry.1 = k
    · rw [if_pos hk, if_pos (by rw [List.map_cons, hk]; exact List.mem_cons_self), List.map_cons,
        List.map_cons, hk]
    · rw [if_neg hk, List.map_cons, ih, List.map_cons]
      by_cases hmem : k ∈ d.map Prod.fst
      · rw [if_pos hmem, if_pos (List.mem_cons_of_mem _ hmem)]
      · rw [if_neg hmem, if_neg (by
          rw [List.mem_cons, not_or]
          exact ⟨Ne.symm hk, hmem⟩), List.cons_append]

theorem nodup_set {k : κ} {d : List (κ × α)} (h : (d.map Prod.fst).Nodup) (v : α) :
    ((set k v d).map Prod.fst).Nodup := by
  rw [map_fst_set]
  split
  · exact h
  · next hk =>
    refine List.nodup_append.mpr ⟨h, by simp, fun a ha b hb => ?_⟩
    rw [List.mem_singleton.mp hb]
    rintro rfl
    exact hk ha

/-- The entries are found under their keys. -/
theorem get_of_mem {d : List (κ × α)} (hnodup : (d.map Prod.fst).Nodup) {k : κ} {v : α}
    (h : (k, v) ∈ d) : get k d = some v := by
  induction d with
  | nil => nomatch h
  | cons entry d ih =>
    obtain ⟨hentry, hnodup⟩ := List.nodup_cons.mp hnodup
    rcases List.mem_cons.mp h with rfl | hmem
    · rw [get, if_pos rfl]
    · have hne : entry.1 ≠ k := by
        rintro rfl
        exact hentry (List.mem_map.mpr ⟨_, hmem, rfl⟩)
      rw [get, if_neg hne, ih hnodup hmem]

/-- How many values are counted after a change. -/
theorem countP_set (p : α → Bool) (k : κ) (v : α) (d : List (κ × α)) :
    (set k v d).countP (fun entry => p entry.2) + (if (get k d).any p then 1 else 0) =
      d.countP (fun entry => p entry.2) + (if p v then 1 else 0) := by
  induction d with
  | nil => simp only [set, get, List.countP_singleton, List.countP_nil, Option.any_none,
      Bool.false_eq_true, if_false, Nat.add_zero, Nat.zero_add]
  | cons entry d ih =>
    rw [set, get]
    split
    · simp only [List.countP_cons, Option.any_some]
      omega
    · simp only [List.countP_cons]
      omega

/-! ### Changes one after the other -/

/-- The dictionary after some changes, of which the last one for a key counts. -/
def setAll (ops : List (κ × α)) (d : List (κ × α)) : List (κ × α) :=
  ops.foldl (fun d op => set op.1 op.2 d) d

theorem get_setAll_of_not_mem {ops : List (κ × α)} {k : κ} (h : k ∉ ops.map Prod.fst)
    (d : List (κ × α)) : get k (setAll ops d) = get k d := by
  induction ops generalizing d with
  | nil => rfl
  | cons op ops ih =>
    rw [List.map_cons, List.mem_cons, not_or] at h
    rw [setAll, List.foldl_cons, ← setAll, ih h.2, get_set_of_ne h.1]

/-- What is found after changes of different keys. -/
theorem get_setAll_of_mem {ops : List (κ × α)} (hnodup : (ops.map Prod.fst).Nodup) {k : κ} {v : α}
    (h : (k, v) ∈ ops) (d : List (κ × α)) : get k (setAll ops d) = some v := by
  induction ops generalizing d with
  | nil => nomatch h
  | cons op ops ih =>
    obtain ⟨hop, hnodup⟩ := List.nodup_cons.mp hnodup
    rw [setAll, List.foldl_cons, ← setAll]
    rcases List.mem_cons.mp h with rfl | hmem
    · rw [get_setAll_of_not_mem hop, get_set_self]
    · exact ih hnodup hmem _

end Dict
