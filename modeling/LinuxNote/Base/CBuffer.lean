import LinuxNote.Base.CText

/-!
# Buffers of characters

A `char` array of a fixed size and the string in it.  A read or a write outside of the array
faults, and so does reading a string that does not end in it.

* `CString` — a string, which has no NUL in it.
* `Buffer`, `read`, `write`, `writes` — the array.
* `str`, `Holds` — the string from the start of the array to the first NUL.
* `strcpy`, `strncpy` — the functions of the C library.
* `writes_ok` — what is written, if there is room.
* `str_eq_some_iff`, `Holds.truncate`, `Holds.append` — the string after cutting it and after
  writing behind it.
-/

namespace CBuffer

/-- A string: the characters before the terminating NUL, none of which is a NUL itself. -/
structure CString where
  chars : List Char
  nul_notMem : '\x00' ∉ chars

/-- `char buf[size]`, with the bytes that were never written, too. -/
structure Buffer (size : ℕ) where
  bytes : List Char
  length_bytes : bytes.length = size

namespace Buffer

variable {size : ℕ}

/-- `buf[i]`, which faults outside of the array. -/
def read (b : Buffer size) (i : ℕ) : Option Char := b.bytes[i]?

/-- `buf[i] = c`, which faults outside of the array, as a write there could change
anything. -/
def write (b : Buffer size) (i : ℕ) (c : Char) : Option (Buffer size) :=
  if i < size then some ⟨b.bytes.set i c, by rw [List.length_set, b.length_bytes]⟩ else none

/-- Writing characters one behind the other; the first one outside of the array is a
fault. -/
def writes (b : Buffer size) (i : ℕ) : List Char → Option (Buffer size)
  | [] => some b
  | c :: s => (b.write i c).bind fun b => b.writes (i + 1) s

/-- `strcpy(buf + i, s)`, which writes the NUL behind the string, too. -/
def strcpy (b : Buffer size) (i : ℕ) (s : List Char) : Option (Buffer size) :=
  b.writes i (s ++ ['\x00'])

/-- `strncpy(buf, s, n)`, which fills up with NULs and writes none if there is no room. -/
def strncpy (b : Buffer size) (s : List Char) (n : ℕ) : Option (Buffer size) :=
  b.writes 0 (s.take n ++ List.replicate (n - s.length) '\x00')

/-- The string in the array, up to the first NUL.  Without a NUL the string goes on
outside. -/
def str (b : Buffer size) : Option (List Char) :=
  if '\x00' ∈ b.bytes then some (b.bytes.takeWhile fun c => c != '\x00') else none

/-- The array holds the string, and a NUL behind it.  What comes after the NUL does not
matter. -/
def Holds (b : Buffer size) (s : List Char) : Prop :=
  '\x00' ∉ s ∧ ∃ rest, b.bytes = s ++ '\x00' :: rest

/-! ### Writing -/

theorem write_of_lt (b : Buffer size) {i : ℕ} (h : i < size) (c : Char) :
    ∃ b', b.write i c = some b' ∧ b'.bytes = b.bytes.set i c :=
  ⟨_, if_pos h, rfl⟩

/-- **What is written**, if there is room. -/
theorem writes_ok (b : Buffer size) {i : ℕ} {s : List Char} (h : i + s.length ≤ size) :
    ∃ b', b.writes i s = some b' ∧
      b'.bytes = b.bytes.take i ++ s ++ b.bytes.drop (i + s.length) := by
  induction s generalizing b i with
  | nil =>
    refine ⟨b, rfl, ?_⟩
    rw [List.append_nil, List.length_nil, Nat.add_zero, List.take_append_drop]
  | cons c s ih =>
    rw [List.length_cons] at h
    obtain ⟨b₁, hwrite, hbytes⟩ := b.write_of_lt (i := i) (by omega) c
    obtain ⟨b₂, hwrites, hrest⟩ := ih b₁ (i := i + 1) (by omega)
    refine ⟨b₂, by rw [writes, hwrite, Option.bind_some, hwrites], ?_⟩
    have hi : i < b.bytes.length := by
      rw [b.length_bytes]
      omega
    have htake : b₁.bytes.take (i + 1) = b.bytes.take i ++ [c] := by
      rw [hbytes, List.take_succ_eq_append_getElem (by rwa [List.length_set]),
        List.take_set_of_le (Nat.le_refl i), List.getElem_set_self]
    have hdrop : b₁.bytes.drop (i + 1 + s.length) = b.bytes.drop (i + 1 + s.length) := by
      rw [hbytes, List.drop_set_of_lt (by omega)]
    rw [hrest, htake, hdrop, List.length_cons, Nat.add_right_comm i 1, Nat.add_assoc i,
      List.append_assoc, List.append_assoc, List.append_assoc]
    rfl

/-! ### The string -/

theorem Holds.str_eq {b : Buffer size} {s : List Char} (h : b.Holds s) : b.str = some s := by
  obtain ⟨hs, rest, hbytes⟩ := h
  rw [str, hbytes, if_pos (List.mem_append_right s List.mem_cons_self),
    CText.takeWhile_ne_append hs]

/-- A string that can be read ends in the array. -/
theorem str_eq_some_iff {b : Buffer size} {s : List Char} : b.str = some s ↔ b.Holds s := by
  refine ⟨fun h => ?_, Holds.str_eq⟩
  rw [str] at h
  split at h
  · next hmem =>
    obtain ⟨t, rest, hbytes, ht⟩ := List.eq_append_cons_of_mem hmem
    rw [hbytes, CText.takeWhile_ne_append ht, Option.some.injEq] at h
    subst h
    exact ⟨ht, rest, hbytes⟩
  · exact absurd h (Option.some_ne_none s).symm

theorem Holds.length_lt {b : Buffer size} {s : List Char} (h : b.Holds s) : s.length < size := by
  obtain ⟨-, rest, hbytes⟩ := h
  rw [← b.length_bytes, hbytes, List.length_append, List.length_cons]
  omega

/-- The characters of the string. -/
theorem Holds.read_of_lt {b : Buffer size} {s : List Char} (h : b.Holds s) {i : ℕ}
    (hi : i < s.length) : b.read i = some s[i] ∧ s[i] ≠ '\x00' := by
  obtain ⟨hs, rest, hbytes⟩ := h
  refine ⟨?_, fun hnul => hs (hnul ▸ List.getElem_mem hi)⟩
  rw [read, hbytes, List.getElem?_append_left hi, List.getElem?_eq_getElem hi]

/-- The NUL behind the string. -/
theorem Holds.read_length {b : Buffer size} {s : List Char} (h : b.Holds s) :
    b.read s.length = some '\x00' := by
  obtain ⟨-, rest, hbytes⟩ := h
  rw [read, hbytes, List.getElem?_append_right (Nat.le_refl _), Nat.sub_self,
    List.getElem?_cons_zero]

/-- A string that is shorter than the array is copied with its NUL. -/
theorem strncpy_holds (b : Buffer size) {s : List Char} (hs : '\x00' ∉ s) (h : s.length < size) :
    ∃ b', b.strncpy s size = some b' ∧ b'.Holds s := by
  obtain ⟨n, hn⟩ := Nat.exists_eq_add_of_lt h
  have hsub : size - s.length = n + 1 := by omega
  have htake : s.take size = s := List.take_of_length_le (Nat.le_of_lt h)
  obtain ⟨b', hwrites, hbytes⟩ :=
    b.writes_ok (i := 0) (s := s.take size ++ List.replicate (size - s.length) '\x00')
      (by rw [htake, List.length_append, List.length_replicate]; omega)
  rw [htake, hsub, List.replicate_succ, List.take_zero, List.nil_append, List.append_assoc,
    List.cons_append] at hbytes
  exact ⟨b', hwrites, hs, _, hbytes⟩

/-- Cutting the string. -/
theorem Holds.truncate {b : Buffer size} {s : List Char} {c : Char} {t : List Char}
    (h : b.Holds (s ++ c :: t)) : ∃ b', b.write s.length '\x00' = some b' ∧ b'.Holds s := by
  have hlt : s.length < size := by
    have := h.length_lt
    rw [List.length_append, List.length_cons] at this
    omega
  obtain ⟨hs, rest, hbytes⟩ := h
  obtain ⟨b', hwrite, hbytes'⟩ := b.write_of_lt hlt '\x00'
  refine ⟨b', hwrite, fun hmem => hs (List.mem_append_left _ hmem), t ++ '\x00' :: rest, ?_⟩
  rw [hbytes', hbytes, List.append_assoc, List.cons_append,
    List.set_append_right _ _ (Nat.le_refl _), Nat.sub_self, List.set_cons_zero]

/-- Writing a character and a string behind the string, if there is room for them. -/
theorem Holds.append {b : Buffer size} {s : List Char} (h : b.Holds s) {c : Char}
    (hc : c ≠ '\x00') (t : CString) (hroom : s.length + t.chars.length + 2 ≤ size) :
    ∃ b₁ b₂, b.write s.length c = some b₁ ∧ b₁.strcpy (s.length + 1) t.chars = some b₂ ∧
      b₂.Holds (s ++ c :: t.chars) := by
  obtain ⟨hs, rest, hbytes⟩ := h
  have hlength : s.length + 1 + (t.chars ++ ['\x00']).length ≤ size := by
    rw [List.length_append, List.length_singleton]
    omega
  obtain ⟨b', hwrites, hbytes'⟩ :=
    b.writes_ok (i := s.length) (s := c :: (t.chars ++ ['\x00']))
      (by rw [List.length_cons]; omega)
  rw [writes, Option.bind_eq_some_iff] at hwrites
  obtain ⟨b₁, hwrite, hstrcpy⟩ := hwrites
  refine ⟨b₁, b', hwrite, hstrcpy, fun hmem => ?_,
    b.bytes.drop (s.length + (t.chars.length + 2)), ?_⟩
  · rcases List.mem_append.mp hmem with hmem | hmem
    · exact hs hmem
    · rcases List.mem_cons.mp hmem with hmem | hmem
      · exact hc hmem.symm
      · exact t.nul_notMem hmem
  · rw [hbytes', List.length_cons, List.length_append, List.length_singleton, hbytes,
      List.take_append_of_le_length (Nat.le_refl _), List.take_length]
    simp only [List.append_assoc, List.cons_append, List.nil_append]

end Buffer

end CBuffer
