import LinuxNote.Base.Loop
import LinuxNote.PerfEvent

/-!
# Reading a group into a table

The collectors read a whole group into `tmp_values` and copy it into the table of
a CPU, one slot further down because the first word is the number of members:

    read(group_fd[i], tmp_values, sizeof(tmp_values));
    for (j = 0; j < n; j++)
        value[j] = tmp_values[j+1];

* `readInto` — what the read leaves in the buffer.
* `copyCounters` — the copy; it faults on an index outside either table.
* `counterWord` — the `j`-th counter the read delivered, if it did.
* `copyCounters_readInto` — the copy after a read into a cleared buffer;
  `copyCounters_eq_none` — when the copy faults.
-/

namespace LinuxNote

/-- A buffer after `read(fd, buf, sizeof(buf))`: a failed read leaves it alone, and a
short one leaves what is behind. -/
def readInto (buf : List ℤ) : Option (List ℤ) → List ℤ
  | none => buf
  | some words => words.take buf.length ++ buf.drop words.length

/-- The body `value[j] = tmp_values[j+1]`. -/
def copyCounter {n : ℕ} (tmp : List ℤ) (value : Vector ℤ n) (j : ℕ) : Option (Vector ℤ n) :=
  match tmp[j + 1]? with
  | none => none
  | some x => if h : j < n then some (value.set j x h) else none

/-- The loop over the first `k` slots. -/
def copyCounters {n : ℕ} (tmp : List ℤ) (k : ℕ) (value : Vector ℤ n) : Option (Vector ℤ n) :=
  Loop.forRange (copyCounter tmp) k value

/-- The `j`-th counter a read into a buffer of `size` words delivered; the first word of
a group is the number of its counters. -/
def counterWord (size : ℕ) (r : Option (List ℤ)) (j : ℕ) : Option ℤ :=
  ((r.getD []).take size)[j + 1]?

/-- The words of a group that fits the buffer: the `j`-th counter is that of its
`j`-th event. -/
theorem counterWord_groupWords {size : ℕ} {cs : List ℤ} (h : cs.length < size)
    (count : ℤ → ℕ → ℤ) (cpu j : ℕ) :
    counterWord size (groupWords count size cpu cs) j = cs[j]?.map fun e => count e cpu := by
  have hlen : ((cs.length : ℤ) :: cs.map fun e => count e cpu).length ≤ size := by
    rw [List.length_cons, List.length_map]
    exact h
  rw [groupWords, if_pos (Nat.succ_le_of_lt h), counterWord, Option.getD_some,
    List.take_of_length_le hlen, List.getElem?_cons_succ, List.getElem?_map]

theorem copyCounter_of_lt {n : ℕ} {tmp : List ℤ} {value : Vector ℤ n} {j : ℕ} {x : ℤ}
    (hx : tmp[j + 1]? = some x) (hj : j < n) :
    copyCounter tmp value j = some (value.set j x hj) := by
  rw [copyCounter, hx]
  simp [hj]

/-- The copy stays inside both tables and moves the words down by one. -/
theorem copyCounters_ok {n k : ℕ} {tmp : List ℤ} (value : Vector ℤ n) (htmp : k = 0 ∨ k < tmp.length)
    (hk : k ≤ n) :
    ∃ v, copyCounters tmp k value = some v ∧ ∀ j < k, v[j]? = tmp[j + 1]? := by
  refine Loop.forRange_ok (fun i v => ∀ j < i, v[j]? = tmp[j + 1]?) (by intro j hj; omega) ?_
  intro i hi v hv
  have hlt : i + 1 < tmp.length := by omega
  refine ⟨_, copyCounter_of_lt (List.getElem?_eq_getElem hlt) (by omega), ?_⟩
  intro j hj
  rw [Vector.getElem?_set, List.getElem?_eq_getElem (by omega)]
  split
  · next hij => subst hij; rfl
  · next hij => rw [hv j (by omega), List.getElem?_eq_getElem (by omega)]

/-- The copy faults when a slot is missing in either table. -/
theorem copyCounters_eq_none {n k : ℕ} {tmp : List ℤ} (value : Vector ℤ n) (hk : 0 < k)
    (h : tmp.length ≤ k ∨ n < k) : copyCounters tmp k value = none := by
  by_contra hne
  obtain ⟨v, hv⟩ := Option.ne_none_iff_exists'.mp hne
  -- the last iteration reads slot `k` of the buffer and writes slot `k - 1` of the table
  obtain ⟨u, w, -, hlast⟩ := Loop.forRange_prefix hv (k - 1) (by omega)
  have hsub : k - 1 + 1 = k := by omega
  rw [copyCounter, hsub] at hlast
  rcases h with h | h
  · rw [List.getElem?_eq_none h] at hlast
    simp at hlast
  · cases hx : tmp[k]? with
    | none => rw [hx] at hlast; simp at hlast
    | some x => rw [hx] at hlast; simp only [dif_neg (show ¬ k - 1 < n by omega)] at hlast; simp at hlast

theorem length_readInto (buf : List ℤ) (r : Option (List ℤ)) :
    (readInto buf r).length = buf.length := by
  cases r with
  | none => rfl
  | some words =>
    rw [readInto, List.length_append, List.length_take, List.length_drop]
    omega

/-- A cleared buffer after a read: the words delivered, then zeros. -/
theorem getElem?_readInto_zeros {size j : ℕ} (r : Option (List ℤ)) (hj : j < size) :
    (readInto (List.replicate size 0) r)[j]? = some ((((r.getD []).take size)[j]?).getD 0) := by
  cases r with
  | none => simp [readInto, hj]
  | some words =>
    rw [readInto, List.length_replicate, Option.getD_some, List.getElem?_append]
    split
    · next hlt =>
      rw [List.getElem?_eq_getElem hlt]
      rfl
    · next hge =>
      have hnone : (words.take size)[j]? = none := List.getElem?_eq_none (by omega)
      rw [hnone]
      simp only [List.length_take] at hge ⊢
      rw [List.drop_replicate, List.getElem?_replicate, if_pos (by omega)]
      rfl

/-- **A read into a cleared buffer and the copy**: every slot holds the counter
the read delivered for it, or `0`. -/
theorem copyCounters_readInto {n k size : ℕ} (r : Option (List ℤ)) (value : Vector ℤ n)
    (hsize : k = 0 ∨ k < size) (hk : k ≤ n) :
    ∃ v, copyCounters (readInto (List.replicate size 0) r) k value = some v ∧
      ∀ j < k, v[j]? = some ((counterWord size r j).getD 0) := by
  have hlen : (readInto (List.replicate size 0) r).length = size := by
    rw [length_readInto, List.length_replicate]
  obtain ⟨v, hv, hval⟩ := copyCounters_ok value (hlen.symm ▸ hsize) hk
  refine ⟨v, hv, fun j hj => ?_⟩
  rw [hval j hj, getElem?_readInto_zeros r (by omega)]
  rfl

end LinuxNote
