import Mathlib.Data.Finset.Dedup
import Mathlib.Data.Fintype.EquivFin
import Mathlib.Data.Fintype.List
import Mathlib.Data.List.Chain
import Mathlib.Data.List.ReduceOption

/-!
# Texts copied into heap blocks

A program that asks the allocator for one byte and copies a text there gets more than it asked for:
a block has a least size.  A text that fits is read back as it was written.  What happens to one
that does not fit depends on when the blocks are allocated.

If each block is allocated right before the copy, the next allocation writes its size word into the
end of the text, and the text has overwritten what the allocator keeps behind the block.  So what a
table of texts reads as is left open as soon as one of them does not fit: it is a parameter `heap`,
and a program can rely on its texts exactly when it can for every `heap`.

If all blocks are allocated first, they lie in a row at a fixed distance, and nobody reads the size
words between them again.  Then the copies are plain writes to one piece of memory, in which a long
text runs into the next block and is overwritten there by the next text.  Only what leaves the row
is left open.

## Main definitions

* `Fits size texts` — every text and the zero behind it fit a block of `size` bytes.
* `readBack size heap texts` — what texts read as whose blocks are allocated one at a time.
* `WithinRow`, `rowReadBack distance blocks heap texts` — the same of blocks in a row.

## Main results

* `readBack_of_fits` — texts that fit their blocks are read back, whatever the heap holds.
* `readBack_eq_replicate`, `exists_leftOpen_notMem` — of others, any text may be left.
* `rowReadBack_eq_self_iff` — **texts in a row are read back exactly when** each that is as long as
  the distance or longer goes on as the next one.
-/

namespace HeapBlock

variable {α : Type*}

/-- The usable size of the least block that the 64-bit `malloc` of the GNU C library hands out, so
the one that a request for a single byte gets. -/
def LEAST_BLOCK : ℕ := 24

/-- Every text and the zero behind it fit a block of `size` bytes. -/
def Fits (size : ℕ) (texts : List (List α)) : Prop := ∀ t ∈ texts, t.length < size

instance (size : ℕ) (texts : List (List α)) : Decidable (Fits size texts) :=
  inferInstanceAs (Decidable (∀ t ∈ texts, t.length < size))

/-- Whatever the heap has in the blocks of the texts. -/
def leftOpen (heap : List (List α) → ℕ → List α) (texts : List (List α)) : List (List α) :=
  texts.mapIdx fun j _ => heap texts j

/-- What the texts read as once they are all copied: if one of them did not fit its block, the text
at `j` reads as whatever the heap has there. -/
def readBack (size : ℕ) (heap : List (List α) → ℕ → List α) (texts : List (List α)) :
    List (List α) :=
  if Fits size texts then texts else leftOpen heap texts

variable {size : ℕ} {heap : List (List α) → ℕ → List α} {texts : List (List α)}

@[simp] theorem length_leftOpen : (leftOpen heap texts).length = texts.length :=
  List.length_mapIdx

/-- The blocks are as many as the texts, whatever is in them. -/
@[simp] theorem length_readBack : (readBack size heap texts).length = texts.length := by
  rw [readBack]
  split
  · rfl
  · exact length_leftOpen

theorem readBack_of_fits (h : Fits size texts) : readBack size heap texts = texts := if_pos h

/-- A heap may leave the same text in all blocks. -/
theorem leftOpen_eq_replicate (texts : List (List α)) (t : List α) :
    leftOpen (fun _ _ => t) texts = List.replicate texts.length t := by
  rw [leftOpen, List.mapIdx_eq_replicate_iff]
  exact fun _ _ => rfl

theorem readBack_eq_replicate (h : ¬ Fits size texts) (t : List α) :
    readBack size (fun _ _ => t) texts = List.replicate texts.length t := by
  rw [readBack, if_neg h, leftOpen_eq_replicate]

/-- There is a text that does not fit, so there is one at all. -/
theorem length_pos_of_not_fits (h : ¬ Fits size texts) : 0 < texts.length := by
  apply List.length_pos_of_ne_nil
  rintro rfl
  exact h fun t ht => absurd ht List.not_mem_nil

/-- A heap may leave a text that is not among some given ones. -/
theorem exists_leftOpen_notMem [Nonempty α] (h : texts ≠ []) (known : List (List α)) :
    ∃ heap, ∃ t ∈ leftOpen heap texts, t ∉ known := by
  classical
  obtain ⟨t, ht⟩ := Infinite.exists_notMem_finset known.toFinset
  refine ⟨fun _ _ => t, t, ?_, fun hmem => ht (List.mem_toFinset.mpr hmem)⟩
  rw [leftOpen_eq_replicate, List.mem_replicate]
  exact ⟨(List.length_pos_iff.mpr h).ne', rfl⟩

/-! ### Blocks in a row -/

/-- The distance of two such blocks that are allocated one after the other: behind the usable bytes
comes the size word of the next block. -/
def BLOCK_DISTANCE : ℕ := LEAST_BLOCK + 8

/-- `strcpy` to the byte at `start`, where `none` is the zero behind a text. -/
def strcpy (mem : List (Option α)) (start : ℕ) (text : List α) : List (Option α) :=
  mem.take start ++ (text.map some ++ none :: mem.drop (start + text.length + 1))

/-- The text that begins at the byte at `start`. -/
def stringAt (mem : List (Option α)) (start : ℕ) : List α :=
  ((mem.drop start).takeWhile Option.isSome).reduceOption

/-- The memory after the texts are copied in their order, each to its block. -/
def copies (distance : ℕ) (mem : List (Option α)) (texts : List (List α)) : List (Option α) :=
  texts.zipIdx.foldl (fun mem p => strcpy mem (distance * p.2) p.1) mem

/-- No text runs over the end of the last block. -/
def WithinRow (distance blocks : ℕ) (texts : List (List α)) : Prop :=
  ∀ p ∈ texts.zipIdx, distance * p.2 + p.1.length < distance * blocks

instance (distance blocks : ℕ) (texts : List (List α)) : Decidable (WithinRow distance blocks texts) :=
  inferInstanceAs (Decidable (∀ p ∈ texts.zipIdx, _))

/-- What the texts read as once they are all copied to blocks in a row.  A text that leaves the row
overwrites what is not the table's, so from then on the texts read as whatever the heap has. -/
def rowReadBack (distance blocks : ℕ) (heap : List (List α) → ℕ → List α)
    (texts : List (List α)) : List (List α) :=
  if WithinRow distance blocks texts then
    let mem := copies distance (List.replicate (distance * blocks) none) texts
    (List.range texts.length).map fun j => stringAt mem (distance * j)
  else leftOpen heap texts

@[simp] theorem length_rowReadBack {distance blocks : ℕ} :
    (rowReadBack distance blocks heap texts).length = texts.length := by
  rw [rowReadBack]
  split
  · rw [List.length_map, List.length_range]
  · exact length_leftOpen

/-- The text fits into the distance, or goes on behind it as the next one does. -/
def GoesOnAs (distance : ℕ) (text next : List α) : Prop :=
  text.length < distance ∨ text.drop distance = next

instance [DecidableEq α] (distance : ℕ) : DecidableRel (GoesOnAs (α := α) distance) :=
  fun _ _ => inferInstanceAs (Decidable (_ ∨ _))

section Row

variable {distance blocks : ℕ} {mem : List (Option α)}

theorem stringAt_append {a : List (Option α)} (ha : a.length = distance) (m : List (Option α))
    (start : ℕ) : stringAt (a ++ m) (distance + start) = stringAt m start := by
  rw [stringAt, stringAt, ← ha, List.drop_length_add_append]

/-- A text is read on into what lies behind it. -/
theorem stringAt_text_append (t : List α) (m : List (Option α)) :
    stringAt (t.map some ++ m) 0 = t ++ stringAt m 0 := by
  have hsome : ∀ c ∈ t.map some, c.isSome = true := by simp
  have hreduce : (t.map some).reduceOption = t := by
    rw [List.reduceOption, List.filterMap_map]
    exact List.filterMap_some
  rw [stringAt, stringAt, List.drop_zero, List.drop_zero, List.takeWhile_append_of_pos hsome,
    List.reduceOption_append, hreduce]

/-- The zero ends a text. -/
theorem stringAt_text (t : List α) (m : List (Option α)) :
    stringAt (t.map some ++ none :: m) 0 = t := by
  rw [stringAt_text_append]
  exact List.append_nil t

theorem strcpy_zero (mem : List (Option α)) (t : List α) :
    strcpy mem 0 t = t.map some ++ none :: mem.drop (t.length + 1) := by
  rw [strcpy, Nat.zero_add, List.take_zero, List.nil_append]

theorem length_strcpy_zero (mem : List (Option α)) (t : List α) :
    mem.length ≤ (strcpy mem 0 t).length := by
  rw [strcpy_zero, List.length_append, List.length_map, List.length_cons, List.length_drop]
  omega

/-- A copy to a later block leaves the first one as it is. -/
theorem strcpy_later (mem : List (Option α)) (start : ℕ) (t : List α) :
    strcpy mem (distance + start) t = mem.take distance ++ strcpy (mem.drop distance) start t := by
  rw [strcpy, strcpy, List.take_add, List.append_assoc, List.drop_drop, Nat.add_assoc, Nat.add_assoc,
    Nat.add_assoc]

/-- Copies to later blocks do, and to the others they are the same copies. -/
theorem copies_later (texts : List (List α)) (k : ℕ) (hmem : distance ≤ mem.length) :
    (texts.zipIdx (k + 1)).foldl (fun mem p => strcpy mem (distance * p.2) p.1) mem =
      mem.take distance ++
        (texts.zipIdx k).foldl (fun mem p => strcpy mem (distance * p.2) p.1)
          (mem.drop distance) := by
  induction texts generalizing mem k with
  | nil => exact (List.take_append_drop distance mem).symm
  | cons t texts ih =>
    have hlength : (mem.take distance).length = distance := List.length_take_of_le hmem
    have hfirst : strcpy mem (distance * (k + 1)) t =
        mem.take distance ++ strcpy (mem.drop distance) (distance * k) t := by
      rw [Nat.mul_succ, Nat.add_comm, strcpy_later]
    rw [List.zipIdx_cons, List.zipIdx_cons, List.foldl_cons, List.foldl_cons, hfirst,
      ih (k + 1) (by rw [List.length_append, hlength]; omega), List.take_left' hlength,
      List.drop_left' hlength]

/-- **The first text, and then the others** behind its block. -/
theorem copies_cons (t : List α) (texts : List (List α)) (hmem : distance ≤ mem.length) :
    copies distance mem (t :: texts) =
      (strcpy mem 0 t).take distance ++ copies distance ((strcpy mem 0 t).drop distance) texts := by
  have hlength : distance ≤ (strcpy mem 0 t).length := hmem.trans (length_strcpy_zero mem t)
  rw [copies, List.zipIdx_cons, List.foldl_cons, Nat.mul_zero, copies_later texts 0 hlength]
  rfl

/-- What the blocks in a row read as, by recursion on the texts. -/
def rowTexts (distance : ℕ) : List (List α) → List (List α)
  | [] => []
  | [t] => [t]
  | t :: u :: texts =>
    (if t.length < distance then t else t.take distance ++ (rowTexts distance (u :: texts)).headD [])
      :: rowTexts distance (u :: texts)

/-- The first block, from which the text is read on into the next one if it has no zero. -/
theorem stringAt_copies (t : List α) (texts : List (List α)) (hmem : distance ≤ mem.length) :
    stringAt (copies distance mem (t :: texts)) 0 =
      if t.length < distance then t
      else t.take distance ++ stringAt (copies distance ((strcpy mem 0 t).drop distance) texts) 0 := by
  rw [copies_cons t texts hmem]
  split
  · next hshort =>
    obtain ⟨k, hk⟩ := Nat.exists_eq_add_of_lt hshort
    rw [strcpy_zero, hk, List.take_append, List.take_of_length_le (by rw [List.length_map]; omega),
      List.length_map, Nat.add_assoc, Nat.add_sub_cancel_left, List.take_succ_cons, List.append_assoc,
      List.cons_append, stringAt_text]
  · next hlong =>
    rw [Nat.not_lt] at hlong
    have htake : (strcpy mem 0 t).take distance = (t.take distance).map some := by
      rw [strcpy_zero, List.take_append_of_le_length (by rw [List.length_map]; exact hlong), List.map_take]
    rw [htake, stringAt_text_append]

/-- The last block, which nothing is copied behind. -/
theorem stringAt_copies_last (t : List α) (hmem : distance ≤ mem.length) :
    stringAt (copies distance mem [t]) 0 = t := by
  rw [stringAt_copies t [] hmem]
  split
  · rfl
  · next hlong =>
    rw [Nat.not_lt] at hlong
    have hdrop : (strcpy mem 0 t).drop distance =
        (t.drop distance).map some ++ none :: mem.drop (t.length + 1) := by
      rw [strcpy_zero, List.drop_append_of_le_length (by rw [List.length_map]; exact hlong),
        List.map_drop]
    show t.take distance ++ stringAt ((strcpy mem 0 t).drop distance) 0 = t
    rw [hdrop, stringAt_text, List.take_append_drop]

theorem map_stringAt_copies (texts : List (List α)) (hmem : distance * texts.length ≤ mem.length) :
    ((List.range texts.length).map fun j => stringAt (copies distance mem texts) (distance * j)) =
      rowTexts distance texts := by
  induction texts generalizing mem with
  | nil => rfl
  | cons t texts ih =>
    rw [List.length_cons, Nat.mul_succ] at hmem
    have hfirst : distance ≤ mem.length := by omega
    have hlength := length_strcpy_zero mem t
    have htake : ((strcpy mem 0 t).take distance).length = distance :=
      List.length_take_of_le (hfirst.trans hlength)
    have hrest := @ih ((strcpy mem 0 t).drop distance) (by rw [List.length_drop]; omega)
    have htail : ((List.range texts.length).map fun j =>
        stringAt (copies distance mem (t :: texts)) (distance * (j + 1))) = rowTexts distance texts := by
      rw [← hrest]
      refine List.map_congr_left fun j _ => ?_
      rw [copies_cons t texts hfirst, Nat.mul_succ, Nat.add_comm, stringAt_append htake]
    rw [List.length_cons, List.range_succ_eq_map, List.map_cons, List.map_map, Nat.mul_zero]
    cases texts with
    | nil => rw [stringAt_copies_last t hfirst]; rfl
    | cons u texts =>
      have hnext : stringAt (copies distance ((strcpy mem 0 t).drop distance) (u :: texts)) 0 =
          (rowTexts distance (u :: texts)).headD [] := by
        rw [← hrest, List.length_cons, List.range_succ_eq_map, List.map_cons, Nat.mul_zero,
          List.headD_cons]
      rw [rowTexts, stringAt_copies t _ hfirst, hnext, ← htail]
      rfl

/-- **What blocks in a row read as.** -/
theorem rowReadBack_eq (h : WithinRow distance blocks texts) :
    rowReadBack distance blocks heap texts = rowTexts distance texts := by
  rw [rowReadBack, if_pos h]
  refine map_stringAt_copies texts ?_
  rw [List.length_replicate]
  rcases List.eq_nil_or_concat texts with rfl | ⟨init, t, rfl⟩
  · exact Nat.zero_le _
  · -- the last text begins in the row
    have hlast : (t, init.length) ∈ (init.concat t).zipIdx := by
      simp [List.zipIdx_append]
    have hstart : distance * init.length < distance * blocks :=
      (Nat.le_add_right _ _).trans_lt (h _ hlast)
    have hlt : init.length < blocks := Nat.lt_of_mul_lt_mul_left hstart
    rw [List.length_concat]
    exact Nat.mul_le_mul_left distance hlt

theorem rowTexts_eq_self_iff (texts : List (List α)) :
    rowTexts distance texts = texts ↔ texts.IsChain (GoesOnAs distance) := by
  induction texts with
  | nil => exact iff_of_true rfl List.IsChain.nil
  | cons t texts ih =>
    cases texts with
    | nil => exact iff_of_true rfl (List.IsChain.singleton t)
    | cons u texts =>
      rw [rowTexts, List.cons.injEq, List.isChain_cons_cons, ih]
      refine and_congr_left fun hchain => ?_
      rw [ih.mpr hchain, List.headD_cons, GoesOnAs]
      split
      · next hshort => exact iff_of_true rfl (Or.inl hshort)
      · next hlong =>
        rw [or_iff_right hlong]
        constructor
        · intro h
          have hsame := (List.take_append_drop distance t).trans h.symm
          exact List.append_cancel_left hsame
        · rintro rfl
          exact List.take_append_drop distance t

/-- **Texts in a row are read back exactly when** each but the last fits into the distance, or goes
on behind it as the next one does. -/
theorem rowReadBack_eq_self_iff (h : WithinRow distance blocks texts) :
    rowReadBack distance blocks heap texts = texts ↔ texts.IsChain (GoesOnAs distance) := by
  rw [rowReadBack_eq h, rowTexts_eq_self_iff]

end Row

end HeapBlock
