import Mathlib.Algebra.Order.Ring.Nat
import Mathlib.Data.List.Basic
import Mathlib.Tactic.Ring

/-!
# Packed integers

Integers in a fixed number of bytes, the lowest byte first, as `struct.pack` writes them.

## Main definitions

* `le`, `ofLe` — the bytes of a number, and the number of bytes.
* `Item`, `pack` — an item of a format, and the packed items, which are refused when one of them
  does not fit.
* `readU`, `readI` — the number at the start of bytes, with the bytes after it.

## Main results

* `pack_of_fits` — what fits is packed.
* `readU_le`, `readI_leI` — what has been packed is read.
-/

namespace StructPack

/-- The lowest `k` bytes of a number, the least significant one first.  A number that needs more is
cut. -/
def le : ℕ → ℕ → List UInt8
  | 0, _ => []
  | k + 1, n => UInt8.ofNat n :: le k (n / 256)

/-- The number that bytes stand for, the least significant one first. -/
def ofLe : List UInt8 → ℕ
  | [] => 0
  | b :: bs => b.toNat + 256 * ofLe bs

/-- A signed number in `k` bytes, by its residue: a negative one has the highest bit. -/
def leI (k : ℕ) (n : ℤ) : List UInt8 := le k (n % 256 ^ k).toNat

@[simp] theorem length_le (k n : ℕ) : (le k n).length = k := by
  induction k generalizing n with
  | zero => rfl
  | succ k ih => rw [le, List.length_cons, ih]

@[simp] theorem length_leI (k : ℕ) (n : ℤ) : (leI k n).length = k := length_le k _

theorem ofLe_le {k n : ℕ} (h : n < 256 ^ k) : ofLe (le k n) = n := by
  induction k generalizing n with
  | zero =>
    rw [pow_zero] at h
    rw [le, ofLe]
    omega
  | succ k ih =>
    have hrest : n / 256 < 256 ^ k := Nat.div_lt_of_lt_mul (by rwa [pow_succ'] at h)
    rw [le, ofLe, ih hrest, UInt8.toNat_ofNat']
    omega

/-! ### Writing -/

/-- An item of a format: unsigned numbers of one, two and four bytes, a signed one of four, and
bytes. -/
inductive Item
  | B (n : ℕ)
  | H (n : ℕ)
  | L (n : ℕ)
  | l (n : ℤ)
  | s (bytes : List UInt8)

/-- The bytes of an item, by the letter of its format and without any padding, as after `<`. -/
def Item.bytes : Item → List UInt8
  | B n => le 1 n
  | H n => le 2 n
  | L n => le 4 n
  | l n => leI 4 n
  | s bytes => bytes

/-- The item can be packed: its number is in the range of its format. -/
def Item.Fits : Item → Prop
  | B n => n < 2 ^ 8
  | H n => n < 2 ^ 16
  | L n => n < 2 ^ 32
  | l n => -2 ^ 31 ≤ n ∧ n < 2 ^ 31
  | s _ => True

instance : DecidablePred Item.Fits
  | .B n => inferInstanceAs (Decidable (n < 2 ^ 8))
  | .H n => inferInstanceAs (Decidable (n < 2 ^ 16))
  | .L n => inferInstanceAs (Decidable (n < 2 ^ 32))
  | .l n => inferInstanceAs (Decidable (-2 ^ 31 ≤ n ∧ n < 2 ^ 31))
  | .s _ => inferInstanceAs (Decidable True)

/-- The packed items, or an error: `struct.error` is raised for a number out of range, and nothing
is packed. -/
def pack (fs : List Item) : Option (List UInt8) :=
  if ∀ f ∈ fs, f.Fits then some (fs.flatMap Item.bytes) else none

theorem pack_of_fits {fs : List Item} (h : ∀ f ∈ fs, f.Fits) :
    pack fs = some (fs.flatMap Item.bytes) :=
  if_pos h

/-! ### Reading -/

/-- The unsigned number at the start, with the bytes behind it. -/
def readU (k : ℕ) (bs : List UInt8) : Option (ℕ × List UInt8) :=
  if bs.length < k then none else some (ofLe (bs.take k), bs.drop k)

/-- The signed number at the start, with the bytes behind it: the upper half of the numbers is
negative. -/
def readI (k : ℕ) (bs : List UInt8) : Option (ℤ × List UInt8) :=
  (readU k bs).map fun r => ((r.1 : ℤ).bmod (256 ^ k), r.2)

theorem readU_le {k n : ℕ} (h : n < 256 ^ k) (rest : List UInt8) :
    readU k (le k n ++ rest) = some (n, rest) := by
  have hlen : ¬ (le k n ++ rest).length < k := by
    rw [List.length_append, length_le]
    omega
  rw [readU, if_neg hlen, List.take_left' (length_le k n), List.drop_left' (length_le k n),
    ofLe_le h]

theorem readU_two {n : ℕ} (h : n < 2 ^ 16) (rest : List UInt8) :
    readU 2 (le 2 n ++ rest) = some (n, rest) :=
  readU_le (by omega) rest

theorem readU_four {n : ℕ} (h : n < 2 ^ 32) (rest : List UInt8) :
    readU 4 (le 4 n ++ rest) = some (n, rest) :=
  readU_le (by omega) rest

theorem readU_eight {n : ℕ} (h : n < 2 ^ 64) (rest : List UInt8) :
    readU 8 (le 8 n ++ rest) = some (n, rest) :=
  readU_le (by omega) rest

theorem readI_leI {n : ℤ} (h : -2 ^ 31 ≤ n ∧ n < 2 ^ 31) (rest : List UInt8) :
    readI 4 (leI 4 n ++ rest) = some (n, rest) := by
  have hlt : (n % 256 ^ 4).toNat < 256 ^ 4 := by omega
  have hcast : ((n % 256 ^ 4).toNat : ℤ) = n % 256 ^ 4 := by omega
  rw [readI, leI, readU_le hlt, Option.map_some, hcast, Int.bmod_def]
  congr 2
  push_cast
  omega

/-! ### Arrays -/

/-- Signed numbers of four bytes. -/
def leIs (ns : List ℤ) : List UInt8 := ns.flatMap (leI 4)

/-- As many signed numbers at the start. -/
def readIs : ℕ → List UInt8 → Option (List ℤ)
  | 0, _ => some []
  | k + 1, bs => do
    let (n, bs) ← readI 4 bs
    let ns ← readIs k bs
    some (n :: ns)

theorem length_leIs (ns : List ℤ) : (leIs ns).length = 4 * ns.length := by
  induction ns with
  | nil => rfl
  | cons n ns ih =>
    rw [leIs, List.flatMap_cons, List.length_append, length_leI, ← leIs, ih, List.length_cons]
    omega

theorem drop_leIs (ns : List ℤ) (k : ℕ) (rest : List UInt8) (hk : k ≤ ns.length) :
    (leIs ns ++ rest).drop (4 * k) = leIs (ns.drop k) ++ rest := by
  have hsplit : leIs ns = leIs (ns.take k) ++ leIs (ns.drop k) := by
    rw [leIs, leIs, leIs, ← List.flatMap_append, List.take_append_drop]
  rw [hsplit, List.append_assoc]
  exact List.drop_left' (by rw [length_leIs, List.length_take_of_le hk])

theorem readIs_leIs {ns : List ℤ} (h : ∀ n ∈ ns, -2 ^ 31 ≤ n ∧ n < 2 ^ 31) (rest : List UInt8) :
    readIs ns.length (leIs ns ++ rest) = some ns := by
  induction ns with
  | nil => rfl
  | cons n ns ih =>
    rw [List.length_cons, leIs, List.flatMap_cons, List.append_assoc, readIs,
      readI_leI (h n List.mem_cons_self), Option.bind_eq_bind, Option.bind_some]
    dsimp only
    rw [← leIs, ih fun n' hn' => h n' (List.mem_cons_of_mem n hn')]
    rfl

/-- Some of the packed numbers. -/
theorem readIs_slice {ns : List ℤ} (h : ∀ n ∈ ns, -2 ^ 31 ≤ n ∧ n < 2 ^ 31) {k m : ℕ}
    (hkm : k + m ≤ ns.length) (rest : List UInt8) :
    readIs m ((leIs ns ++ rest).drop (4 * k)) = some ((ns.drop k).take m) := by
  have hsplit : leIs (ns.drop k) ++ rest =
      leIs ((ns.drop k).take m) ++ (leIs ((ns.drop k).drop m) ++ rest) := by
    rw [← List.append_assoc, leIs, leIs, leIs, ← List.flatMap_append, List.take_append_drop]
  have hlen : ((ns.drop k).take m).length = m :=
    List.length_take_of_le (by rw [List.length_drop]; omega)
  have hbounds : ∀ n ∈ (ns.drop k).take m, -2 ^ 31 ≤ n ∧ n < 2 ^ 31 := fun n hn =>
    h n (List.mem_of_mem_drop (List.mem_of_mem_take hn))
  have hread := readIs_leIs hbounds (leIs ((ns.drop k).drop m) ++ rest)
  rw [hlen] at hread
  rw [drop_leIs ns k rest (by omega), hsplit, hread]

/-- Packed numbers of four bytes. -/
theorem pack_longs {ns : List ℤ} (h : ∀ n ∈ ns, -2 ^ 31 ≤ n ∧ n < 2 ^ 31) :
    pack (ns.map .l) = some (leIs ns) := by
  rw [pack_of_fits, List.flatMap_map]
  · rfl
  · intro f hf
    obtain ⟨n, hn, rfl⟩ := List.mem_map.mp hf
    exact h n hn

end StructPack
