import LinuxNote.Base.Loop
import Mathlib.Tactic.Ring

/-!
# Chains of sectors

A file in sectors of one size, and a table with the next sector of each one, in which the sectors of
a stream are found one after the other.

## Main definitions

* `sector` — a sector of a file.
* `follow` — the sectors of a chain, until a mark for its end.
* `put`, `fill` — a write to a table, which is refused outside of it, and a loop of writes to
  neighbouring entries.

## Main results

* `flatMap_sector` — neighbouring sectors are one piece of the file.
* `follow_run` — a chain of neighbouring sectors is followed.
* `fill_ok` — what a loop of writes leaves in the table.
-/

namespace SectorChain

/-! ### Sectors -/

section Sectors

variable {α : Type*} (size : ℕ) (file : List α)

/-- What starts at a sector, up to the end of the file. -/
def fromSector (k : ℕ) : List α := file.drop (size * k)

/-- A sector, which is shorter than the others where the file ends. -/
def sector (k : ℕ) : List α := (fromSector size file k).take size

theorem drop_fromSector (k : ℕ) :
    (fromSector size file k).drop size = fromSector size file (k + 1) := by
  rw [fromSector, fromSector, List.drop_drop, Nat.mul_succ]

/-- Neighbouring sectors are one piece of the file. -/
theorem flatMap_sector (s n : ℕ) :
    (List.range' s n).flatMap (sector size file) = (fromSector size file s).take (size * n) := by
  induction n generalizing s with
  | zero => simp
  | succ n ih =>
    rw [List.range'_succ, List.flatMap_cons, ih, sector, ← drop_fromSector, ← List.take_add]
    congr 1
    ring

end Sectors

/-! ### Chains -/

/-- The sectors from one to the end of its chain, with at most as many steps as the first number
says. -/
def follow (table : List ℤ) (last : ℤ) : ℕ → ℤ → Option (List ℕ)
  | 0, _ => none
  | fuel + 1, sid =>
    if sid = last then some []
    else if sid < 0 then none
    else do
      let next ← table[sid.toNat]?
      let rest ← follow table last fuel next
      some (sid.toNat :: rest)

/-- A chain of neighbouring sectors is followed. -/
theorem follow_run {table : List ℤ} {last : ℤ} (hlast : last < 0) {s n fuel : ℕ}
    (hnext : ∀ i < n, table[s + i]? = some ((s + i : ℕ) + 1 : ℤ))
    (hend : table[s + n]? = some last) (hfuel : n + 2 ≤ fuel) :
    follow table last fuel s = some (List.range' s (n + 1)) := by
  induction n generalizing s fuel with
  | zero =>
    obtain ⟨fuel, rfl⟩ : ∃ k, fuel = k + 2 := ⟨fuel - 2, by omega⟩
    rw [add_zero] at hend
    rw [follow, if_neg (by omega), if_neg (by omega), Int.toNat_natCast, hend,
      Option.bind_eq_bind, Option.bind_some, follow, if_pos rfl]
    rfl
  | succ n ih =>
    obtain ⟨fuel, rfl⟩ : ∃ k, fuel = k + 1 := ⟨fuel - 1, by omega⟩
    have hrest : follow table last fuel ((s + 1 : ℕ) : ℤ) = some (List.range' (s + 1) (n + 1)) := by
      refine ih (fun i hi => ?_) ?_ (by omega)
      · rw [show s + 1 + i = s + (i + 1) by omega]
        exact hnext (i + 1) (by omega)
      · rw [show s + 1 + n = s + (n + 1) by omega]
        exact hend
    have hfirst := hnext 0 (by omega)
    rw [add_zero] at hfirst
    rw [follow, if_neg (by omega), if_neg (by omega), Int.toNat_natCast, hfirst,
      Option.bind_eq_bind, Option.bind_some, ← Nat.cast_succ, hrest]
    rfl

/-! ### Writes -/

/-- A write to a table, which is an error outside of it, as with a list of Python. -/
def put (table : List ℤ) (i : ℕ) (v : ℤ) : Option (List ℤ) :=
  if i < table.length then some (table.set i v) else none

/-- A loop that takes neighbouring sectors and writes their entries. -/
def fill (value : ℕ → ℤ) (s n : ℕ) (table : List ℤ) : Option (List ℤ × List ℕ) :=
  Loop.forRange (fun st i => (put st.1 (s + i) (value (s + i))).map fun table =>
    (table, st.2 ++ [s + i])) n (table, [])

/-- What a loop of writes leaves in the table, and the sectors that it has taken. -/
theorem fill_ok (value : ℕ → ℤ) {s n : ℕ} {table : List ℤ} (hlen : s + n ≤ table.length) :
    ∃ table', fill value s n table = some (table', List.range' s n) ∧
      table'.length = table.length ∧
        ∀ k, table'[k]? = if s ≤ k ∧ k < s + n then some (value k) else table[k]? := by
  have hloop : ∃ st, fill value s n table = some st ∧ st.2 = List.range' s n ∧
      st.1.length = table.length ∧
        ∀ k, st.1[k]? = if s ≤ k ∧ k < s + n then some (value k) else table[k]? := by
    refine Loop.forRange_ok (fun i (st : List ℤ × List ℕ) => st.2 = List.range' s i ∧
      st.1.length = table.length ∧
        ∀ k, st.1[k]? = if s ≤ k ∧ k < s + i then some (value k) else table[k]?)
      ⟨rfl, rfl, fun k => by rw [if_neg (by omega)]⟩ ?_
    rintro i hi ⟨table', sects⟩ ⟨hsects, hlength, hget⟩
    dsimp only at hsects hlength hget
    have hbound : s + i < table'.length := by omega
    refine ⟨(table'.set (s + i) (value (s + i)), sects ++ [s + i]), by simp [put, hbound], ?_, ?_,
      ?_⟩
    · rw [hsects, ← List.range'_append_1, List.range'_one]
    · simpa using hlength
    · intro k
      dsimp only
      rw [List.getElem?_set]
      by_cases hk : s + i = k
      · rw [if_pos hk, if_pos hbound, if_pos (by omega), hk]
      · rw [if_neg hk, hget]
        exact if_congr (by omega) rfl rfl
  obtain ⟨⟨table', sects⟩, hrun, rfl, hlength, hget⟩ := hloop
  exact ⟨table', hrun, hlength, hget⟩

end SectorChain
