import LinuxNote.Base.Utf16
import LinuxNote.Xls.Cell

/-!
# The table of the strings of a workbook

A cell with a text has the index of the text in a table, in which equal texts are there once.  The
table is one record when it is short, and goes on in further records, in the middle of a text if need
be.

## Main definitions

* `StringTable`, `addStr`, `delStr` — the table.
* `upack2`, `saveAtom`, `saveSplitted`, `getBiffRecord` — the records of the table.
* `readSst` — the texts that the records say.

## Main results

* `getBiffRecord_right` — **the texts of the table are read from its records**, wherever they are
  split, and a table that has no record is one with a text that is too long, or too many texts.
-/

namespace LinuxNote.Xls

open StructPack

/-! ### The table -/

/-- `SharedStringTable`: the texts in the order of their indexes, and how many cells have each of
them. -/
structure StringTable where
  strs : List (List Char)
  tally : List ℕ
  addCalls : ℕ
  sameLength : tally.length = strs.length

/-- `add_str`: the index of the text, and the table with it.  A text that is there already is
counted once more and is not added again. -/
def StringTable.addStr (t : StringTable) (s : List Char) : ℕ × StringTable :=
  match t.strs.idxOf? s with
  | none => (t.strs.length, ⟨t.strs ++ [s], t.tally ++ [1], t.addCalls + 1, by simp [t.sameLength]⟩)
  | some idx =>
    (idx, ⟨t.strs, t.tally.modify idx (· + 1), t.addCalls + 1, by simp [t.sameLength]⟩)

/-- `del_str`, when a cell with the text is written again.  It is an error when no cell has the
text, as the count is not allowed to be negative. -/
def StringTable.delStr (t : StringTable) (idx : ℕ) : Option StringTable := do
  let n ← t.tally[idx]?
  if 0 < n then
    some ⟨t.strs, t.tally.modify idx (· - 1), t.addCalls - 1, by simp [t.sameLength]⟩
  else none

/-- The texts that are written.  The text stays in the table when no cell has it any more, as the
other indices must not change, but it is written as empty. -/
def StringTable.texts (t : StringTable) : List (List Char) :=
  List.zipWith (fun s n => if n = 0 then [] else s) t.strs t.tally

/-! ### The records -/

/-- The codes of the characters are below a number: 0x80 for `ascii`, and 0x100 for `latin-1`. -/
def CodesBelow (n : ℕ) (us : List Char) : Prop := ∀ c ∈ us, c.toNat < n

instance (n : ℕ) (us : List Char) : Decidable (CodesBelow n us) := List.decidableBAll _ us

/-- `upack2`: the number of units, a flag for units of two bytes, and the units.  A text that is
not in `latin-1` takes two bytes for each unit, and four for a character with surrogates. -/
def upack2 (us : List Char) : Option (List UInt8) :=
  if us.length > 32767 then none
  else if CodesBelow 0x100 us then
    (pack [.H us.length, .B 0]).map (· ++ us.flatMap fun c => le 1 c.toNat)
  else
    let encs := (Utf16.encode us).flatMap (le 2)
    (pack [.H (encs.length / 2), .B 1]).map (· ++ encs)

/-- What `get_biff_record` works on: the first piece, the records of the next ones, and the piece
that is being filled. -/
structure SstWriter where
  sstRecord : List UInt8
  continues : List (List UInt8)
  currentPiece : List UInt8

/-- `_new_piece`: the piece that was filled is put behind the others with the header of a record,
except for the first one, whose header is written at the end. -/
def SstWriter.newPiece (w : SstWriter) : Option SstWriter :=
  if w.sstRecord = [] then some ⟨w.currentPiece, w.continues, []⟩
  else do
    let piece ← pack [.H 0x003C, .H w.currentPiece.length, .s w.currentPiece]
    some ⟨w.sstRecord, w.continues ++ [piece], []⟩

/-- More bytes in the piece that is being filled, without a look at how many it has. -/
def SstWriter.add (w : SstWriter) (s : List UInt8) : SstWriter :=
  { w with currentPiece := w.currentPiece ++ s }

/-- `_save_atom`: bytes that have to be in one piece, as the header of a text with its first unit.
When they do not fit, another piece is begun before them. -/
def SstWriter.saveAtom (w : SstWriter) (s : List UInt8) : Option SstWriter := do
  let freeSpace := 0x2020 - w.currentPiece.length
  let w ← if freeSpace < s.length then w.newPiece else some w
  some (w.add s)

/-- `_save_splitted`, the loop over the bytes of the units: as many as fit go in the piece, an even
number when a unit takes two, and a flag is the first byte of the next piece.  It does at most as
many steps as the number says. -/
def SstWriter.saveSplitted (isUnicodeStr : Bool) : ℕ → SstWriter → List UInt8 → Option SstWriter
  | _, w, [] => some w
  | 0, _, _ :: _ => none
  | fuel + 1, w, b :: bs =>
    let s := b :: bs
    let freeSpace := 0x2020 - w.currentPiece.length
    if freeSpace < s.length then do
      let atomLen := if isUnicodeStr then freeSpace &&& 0xFFFE else freeSpace
      let w ← (w.add (s.take atomLen)).newPiece
      saveSplitted isUnicodeStr fuel (w.add [if isUnicodeStr then 1 else 0]) (s.drop atomLen)
    else some (w.add s)

/-- `_add_to_sst`: the header of a text and its first unit stay in one piece, and the units behind
it may be split. -/
def SstWriter.addToSst (w : SstWriter) (s : List Char) : Option SstWriter := do
  let uStr ← upack2 s
  let isUnicodeStr := uStr[2]? = some 1
  let atomLen := if isUnicodeStr then 5 else 4
  let w ← w.saveAtom (uStr.take atomLen)
  w.saveSplitted isUnicodeStr (uStr.length + 1) (uStr.drop atomLen)

/-- `get_biff_record`: the texts in their order behind eight bytes for the counts, which are put in
at the end with the header of the first record. -/
def StringTable.getBiffRecord (t : StringTable) : Option (List UInt8) := do
  let piece ← pack [.L 0, .L 0]
  let w ← t.texts.foldlM SstWriter.addToSst ⟨[], [], piece⟩
  let w ← w.newPiece
  let header ← pack [.H 0x00FC, .H w.sstRecord.length, .L t.addCalls, .L t.strs.length]
  some (header ++ (w.sstRecord.drop 8 ++ w.continues.flatten))

/-! ### What the records say -/

/-- The records in bytes: their kinds and their data.  It is the first half of a reader of the
format, which knows nothing of the writer. -/
def splitRecords : ℕ → List UInt8 → Option (List (ℕ × List UInt8))
  | _, [] => some []
  | 0, _ :: _ => none
  | fuel + 1, bs => do
    let (id, rest) ← readU 2 bs
    let (len, rest) ← readU 2 rest
    if rest.length < len then none
    else do
      let others ← splitRecords fuel (rest.drop len)
      some ((id, rest.take len) :: others)

/-- A unit of a text, in as many bytes as the flag before it says. -/
def readUnit (wide : Bool) (bs : List UInt8) : Option (ℕ × List UInt8) :=
  readU (if wide then 2 else 1) bs

/-- Units of a text, from what is left of a piece and the next ones, in which a text goes on after a
flag. -/
def readUnits : ℕ → Bool → List UInt8 → List (List UInt8) →
    Option (List ℕ × List UInt8 × List (List UInt8))
  | 0, _, bs, pieces => some ([], bs, pieces)
  | _ + 1, _, [], [] => none
  | _ + 1, _, [], [] :: _ => none
  | n + 1, _, [], (flag :: bs) :: pieces => do
    let wide := flag.toNat % 2 = 1
    let (u, bs) ← readUnit wide bs
    let (us, left) ← readUnits n wide bs pieces
    some (u :: us, left)
  | n + 1, wide, b :: bs, pieces => do
    let (u, bs) ← readUnit wide (b :: bs)
    let (us, left) ← readUnits n wide bs pieces
    some (u :: us, left)

/-- A text at the start of what is left of a piece: the number of its units, the flag, and the
units, which may go on in the next pieces. -/
def readHere (bs : List UInt8) (pieces : List (List UInt8)) :
    Option (List ℕ × List UInt8 × List (List UInt8)) := do
  let (n, bs) ← readU 2 bs
  let (flag, bs) ← readU 1 bs
  readUnits n (flag % 2 = 1) bs pieces

/-- A text, which is in the next piece when nothing is left of this one.  The header of a text is
never in two pieces. -/
def readText : List UInt8 → List (List UInt8) → Option (List ℕ × List UInt8 × List (List UInt8))
  | [], bs :: pieces => readHere bs pieces
  | bs, pieces => readHere bs pieces

/-- So many texts, one after the other, with what is left of the pieces. -/
def readTexts : ℕ → List UInt8 → List (List UInt8) →
    Option (List (List ℕ) × List UInt8 × List (List UInt8))
  | 0, bs, pieces => some ([], bs, pieces)
  | n + 1, bs, pieces => do
    let (text, bs, pieces) ← readText bs pieces
    let (texts, left) ← readTexts n bs pieces
    some (text :: texts, left)

/-- The number of cells with a text, and the texts, as a reader of the format finds them in the
first record and in the ones which continue it. -/
def readSst (bs : List UInt8) : Option (ℕ × List (List Char)) := do
  let records ← splitRecords bs.length bs
  match records with
  | [] => none
  | (id, data) :: continues =>
    if id ≠ 0x00FC ∨ continues.any (fun r => r.1 ≠ 0x003C) then none
    else do
      let (total, rest) ← readU 4 data
      let (count, rest) ← readU 4 rest
      let (texts, _) ← readTexts count rest (continues.map Prod.snd)
      some (total, texts.map Utf16.decode)

/-! ### Pieces -/

/-- The writer with some pieces that are full, and the piece that is being filled.  Each of its
states is of this form, which has the pieces without their headers, as a reader does. -/
def SstWriter.ofPieces : List (List UInt8) → List UInt8 → SstWriter
  | [], current => ⟨[], [], current⟩
  | first :: pieces, current => ⟨first, pieces.map (recordBytes 0x003C), current⟩

/-- Pieces that fit in records, of which the first one has room for the counts.  It is the
invariant of the writer. -/
structure Pieces (pieces : List (List UInt8)) (current : List UInt8) : Prop where
  fit : ∀ piece ∈ pieces, piece.length ≤ 0x2020
  fits : current.length ≤ 0x2020
  counts : ∀ piece, (pieces ++ [current]).head? = some piece → 8 ≤ piece.length

@[simp] theorem currentPiece_ofPieces (pieces : List (List UInt8)) (current : List UInt8) :
    (SstWriter.ofPieces pieces current).currentPiece = current := by
  cases pieces <;> rfl

@[simp] theorem add_ofPieces (pieces : List (List UInt8)) (current s : List UInt8) :
    (SstWriter.ofPieces pieces current).add s = SstWriter.ofPieces pieces (current ++ s) := by
  cases pieces <;> rfl

/-- The next piece. -/
theorem newPiece_ofPieces {pieces : List (List UInt8)} {current : List UInt8}
    (h : Pieces pieces current) :
    (SstWriter.ofPieces pieces current).newPiece =
      some (SstWriter.ofPieces (pieces ++ [current]) []) := by
  cases pieces with
  | nil => rfl
  | cons first pieces =>
    have hfirst : first ≠ [] := by
      have hlen := h.counts first rfl
      rintro rfl
      exact absurd hlen (by decide)
    have hfits := h.fits
    rw [SstWriter.ofPieces, SstWriter.newPiece, if_neg hfirst,
      pack_of_fits (by simp [Item.Fits]; omega)]
    simp [SstWriter.ofPieces, recordBytes, Item.bytes]

theorem Pieces.add {pieces : List (List UInt8)} {current s : List UInt8} (h : Pieces pieces current)
    (hfits : (current ++ s).length ≤ 0x2020) : Pieces pieces (current ++ s) where
  fit := h.fit
  fits := hfits
  counts piece hpiece := by
    cases pieces with
    | nil =>
      have hlen := h.counts current rfl
      rw [List.nil_append, List.head?_cons, Option.some_inj] at hpiece
      rw [← hpiece, List.length_append]
      omega
    | cons first pieces => exact h.counts piece hpiece

theorem Pieces.next {pieces : List (List UInt8)} {current s : List UInt8}
    (h : Pieces pieces current) (hfits : s.length ≤ 0x2020) : Pieces (pieces ++ [current]) s where
  fit piece hpiece := by
    rcases List.mem_append.mp hpiece with hmem | hmem
    · exact h.fit piece hmem
    · rw [List.mem_singleton.mp hmem]
      exact h.fits
  fits := hfits
  counts piece hpiece := by
    refine h.counts piece ?_
    cases pieces <;> exact hpiece

/-! ### Units -/

/-- The width of units: one byte, or two. -/
def width (wide : Bool) : ℕ := if wide then 2 else 1

/-- The bytes of units, as they are in a text which is not split. -/
def unitBytes (wide : Bool) (us : List ℕ) : List UInt8 := us.flatMap (le (width wide))

theorem width_pos (wide : Bool) : 0 < width wide := by cases wide <;> decide

theorem length_unitBytes (wide : Bool) (us : List ℕ) :
    (unitBytes wide us).length = width wide * us.length := by
  simp [unitBytes, List.length_flatMap, mul_comm]

theorem unitBytes_ne_nil (wide : Bool) {us : List ℕ} (h : us ≠ []) : unitBytes wide us ≠ [] := by
  refine List.ne_nil_of_length_pos ?_
  rw [length_unitBytes]
  exact Nat.mul_pos (width_pos wide) (List.length_pos_iff.mpr h)

theorem unitBytes_append (wide : Bool) (us vs : List ℕ) :
    unitBytes wide (us ++ vs) = unitBytes wide us ++ unitBytes wide vs :=
  List.flatMap_append

/-- Bytes of units are split between units. -/
theorem split_unitBytes (wide : Bool) (us : List ℕ) (k : ℕ) (hk : k ≤ us.length) :
    (unitBytes wide us).take (width wide * k) = unitBytes wide (us.take k) ∧
      (unitBytes wide us).drop (width wide * k) = unitBytes wide (us.drop k) := by
  have hlen : (unitBytes wide (us.take k)).length = width wide * k := by
    rw [length_unitBytes, List.length_take_of_le hk]
  have hsplit : unitBytes wide us = unitBytes wide (us.take k) ++ unitBytes wide (us.drop k) := by
    rw [← unitBytes_append, List.take_append_drop]
  rw [hsplit]
  exact ⟨List.take_left' hlen, List.drop_left' hlen⟩

/-- The units fit in their width, and so they are the same when they are read. -/
def UnitsFit (wide : Bool) (us : List ℕ) : Prop := ∀ u ∈ us, u < 256 ^ width wide

/-- Units of a piece are read, and the rest after them. -/
theorem readUnits_append {wide : Bool} {us : List ℕ} (hus : UnitsFit wide us) (n : ℕ)
    (bs : List UInt8) (pieces : List (List UInt8)) :
    readUnits (us.length + n) wide (unitBytes wide us ++ bs) pieces =
      (readUnits n wide bs pieces).map fun r => (us ++ r.1, r.2) := by
  induction us with
  | nil =>
    rw [List.length_nil, Nat.zero_add]
    exact Option.map_id'.symm
  | cons u us ih =>
    have hread : readUnit wide (le (width wide) u ++ (unitBytes wide us ++ bs)) =
        some (u, unitBytes wide us ++ bs) := by
      have h := readU_le (hus u List.mem_cons_self) (unitBytes wide us ++ bs)
      rwa [readUnit, ← width]
    have hne : le (width wide) u ++ (unitBytes wide us ++ bs) ≠ [] := by
      refine List.append_ne_nil_of_left_ne_nil (List.ne_nil_of_length_pos ?_) _
      rw [length_le]
      exact width_pos wide
    obtain ⟨b, rest, hb⟩ := List.exists_cons_of_ne_nil hne
    rw [hb] at hread
    rw [unitBytes, List.flatMap_cons, ← unitBytes, List.append_assoc, hb, List.length_cons,
      show us.length + 1 + n = us.length + n + 1 by omega, readUnits, hread, Option.bind_eq_bind,
      Option.bind_some]
    dsimp only
    rw [ih fun u' hu' => hus u' (List.mem_cons_of_mem u hu')]
    cases readUnits n wide bs pieces <;> rfl

/-- A text goes on in the next piece. -/
theorem readUnits_next {n : ℕ} (hn : 0 < n) (wide : Bool) {flag : UInt8}
    (hflag : decide (flag.toNat % 2 = 1) = wide) {bs : List UInt8} (hbs : bs ≠ [])
    (pieces : List (List UInt8)) :
    readUnits n wide [] ((flag :: bs) :: pieces) = readUnits n wide bs pieces := by
  obtain ⟨n, rfl⟩ := Nat.exists_eq_add_one.mpr hn
  obtain ⟨b, bs, rfl⟩ := List.exists_cons_of_ne_nil hbs
  subst hflag
  rfl

/-! ### Splitting -/

/-- The mask leaves out the lowest bit. -/
theorem and_even {n : ℕ} (hn : n < 2 ^ 16) : n &&& 0xFFFE = 2 * (n / 2) := by
  refine Nat.eq_of_testBit_eq fun i => ?_
  cases i with
  | zero => simp [Nat.testBit_zero]
  | succ i =>
    rw [Nat.testBit_and, Nat.testBit_succ, Nat.testBit_succ, Nat.testBit_succ,
      show 0xFFFE / 2 = 2 ^ 15 - 1 from rfl, show 2 * (n / 2) / 2 = n / 2 by omega,
      Nat.testBit_two_pow_sub_one]
    by_cases hi : i < 15
    · rw [decide_eq_true hi, Bool.and_true]
    · rw [decide_eq_false hi, Bool.and_false]
      have hlt : n / 2 < 2 ^ i :=
        lt_of_lt_of_le (by omega : n / 2 < 2 ^ 15) (Nat.pow_le_pow_right (by decide) (by omega))
      exact (Nat.testBit_lt_two_pow hlt).symm

/-- How many units fit in the free space. -/
theorem atomLen_eq (wide : Bool) {freeSpace : ℕ} (hfree : freeSpace < 2 ^ 16) :
    (if wide then freeSpace &&& 0xFFFE else freeSpace) = width wide * (freeSpace / width wide) := by
  cases wide with
  | false => simp [width]
  | true => simpa [width] using and_even hfree

/-- Pieces that have been written, with what follows them: the units are read from what has been
added to the piece at the start. -/
def WroteUnits (wide : Bool) (us : List ℕ) (pieces : List (List UInt8)) (current : List UInt8)
    (pieces' : List (List UInt8)) (current' : List UInt8) : Prop :=
  ∀ bs rest, ∃ bs' rest', pieces' ++ (current' ++ bs) :: rest =
      pieces ++ (current ++ bs') :: rest' ∧
    readUnits us.length wide bs' rest' = some (us, bs, rest) ∧
      (us ≠ [] → current.length + 2 ≤ 0x2020 → bs' ≠ [])

/-- Units that fit in the piece. -/
theorem WroteUnits.here {wide : Bool} {us : List ℕ} (hus : UnitsFit wide us) (hne : us ≠ [])
    (pieces : List (List UInt8)) (current : List UInt8) :
    WroteUnits wide us pieces current pieces (current ++ unitBytes wide us) := by
  refine fun bs rest => ⟨unitBytes wide us ++ bs, rest, by rw [List.append_assoc], ?_, fun _ _ => ?_⟩
  · have hunits := readUnits_append hus 0 bs rest
    rwa [Nat.add_zero, readUnits, Option.map_some, List.append_nil] at hunits
  · exact List.append_ne_nil_of_left_ne_nil (unitBytes_ne_nil wide hne) bs

/-- Units of which only the first `k` are in this piece, and the others from the next one on. -/
theorem WroteUnits.next {wide : Bool} {us : List ℕ} (hus : UnitsFit wide us) {k : ℕ}
    (hk : k < us.length) {pieces pieces' : List (List UInt8)} {current current' : List UInt8}
    (hzero : k = 0 → 0x2020 < current.length + 2)
    (h : WroteUnits wide (us.drop k) (pieces ++ [current ++ unitBytes wide (us.take k)])
      [if wide then 1 else 0] pieces' current') :
    WroteUnits wide us pieces current pieces' current' := by
  have hdropLen : (us.drop k).length = us.length - k := List.length_drop
  have hdropNe : us.drop k ≠ [] := List.ne_nil_of_length_pos (by omega)
  intro bs rest
  obtain ⟨bs', rest', hall, hread, hbs'⟩ := h bs rest
  refine ⟨unitBytes wide (us.take k), ((if wide then 1 else 0) :: bs') :: rest', ?_, ?_, ?_⟩
  · rw [hall, List.append_assoc]
    rfl
  -- the units go on in the next piece behind the flag, which tells how wide they are
  · have hflagWide : decide ((if wide then (1 : UInt8) else 0).toNat % 2 = 1) = wide := by
      cases wide <;> rfl
    have htakeFit : UnitsFit wide (us.take k) := fun u hu => hus u (List.mem_of_mem_take hu)
    have hunits := readUnits_append htakeFit (us.drop k).length []
      (((if wide then 1 else 0) :: bs') :: rest')
    rw [List.append_nil, ← List.length_append, List.take_append_drop,
      readUnits_next (by omega) wide hflagWide (hbs' hdropNe (by simp)), hread,
      Option.map_some, List.take_append_drop] at hunits
    exact hunits
  · intro _ hroom
    refine unitBytes_ne_nil wide (List.ne_nil_of_length_pos ?_)
    rw [List.length_take_of_le hk.le]
    by_contra hkz
    have hlt := hzero (by omega)
    omega

/-- **Units are split between pieces and read from them.** The induction is on the steps of the
loop; a step which fills a piece takes a unit at least, except the first one, for which there may
be no room. -/
theorem saveSplitted_ok {wide : Bool} {fuel : ℕ} {us : List ℕ} (hus : UnitsFit wide us)
    {pieces : List (List UInt8)} {current : List UInt8} (h : Pieces pieces current)
    (hfuel : us.length + (if 0x2020 < current.length + 2 then 1 else 0) ≤ fuel) :
    ∃ pieces' current', SstWriter.saveSplitted wide fuel (.ofPieces pieces current)
        (unitBytes wide us) = some (.ofPieces pieces' current') ∧ Pieces pieces' current' ∧
      WroteUnits wide us pieces current pieces' current' := by
  induction fuel generalizing us pieces current with
  | zero =>
    rw [List.length_eq_zero_iff.mp (by omega : us.length = 0)]
    exact ⟨pieces, current, rfl, h, fun bs rest => ⟨bs, rest, rfl, rfl, fun hne => absurd rfl hne⟩⟩
  | succ fuel ih =>
    by_cases hne : us = []
    · subst hne
      exact ⟨pieces, current, rfl, h, fun bs rest =>
        ⟨bs, rest, rfl, rfl, fun hne => absurd rfl hne⟩⟩
    have hfits := h.fits
    have hlen := length_unitBytes wide us
    have hpos : 0 < us.length := List.length_pos_iff.mpr hne
    have hwidth : width wide ≤ 2 ∧ 0 < width wide := ⟨by cases wide <;> decide, width_pos wide⟩
    obtain ⟨b, tail, hb⟩ := List.exists_cons_of_ne_nil (unitBytes_ne_nil wide hne)
    rw [hb, SstWriter.saveSplitted, ← hb, currentPiece_ofPieces,
      atomLen_eq wide (by omega : 0x2020 - current.length < 2 ^ 16)]
    dsimp only
    by_cases hmore : 0x2020 - current.length < (unitBytes wide us).length
    · -- the piece is filled with as many units as it has room for
      generalize hk : (0x2020 - current.length) / width wide = k
      have hdiv := Nat.mul_div_le (0x2020 - current.length) (width wide)
      rw [hk] at hdiv
      have hkus : k < us.length := by
        refine lt_of_not_ge fun hge => ?_
        have hmul := Nat.mul_le_mul_left (width wide) hge
        omega
      obtain ⟨htake, hdrop⟩ := split_unitBytes wide us k hkus.le
      have htakeLen := length_unitBytes wide (us.take k)
      rw [List.length_take_of_le hkus.le] at htakeLen
      have hkzero : k = 0 → 0x2020 < current.length + 2 := by
        rintro rfl
        have hlt := (Nat.div_eq_zero_iff_lt hwidth.2).mp hk
        omega
      have hfull := h.add (s := unitBytes wide (us.take k)) (by
        rw [List.length_append, htakeLen]
        omega)
      have hflag : ∀ flag : UInt8, [flag].length ≤ 0x2020 := fun flag => by
        rw [List.length_singleton]
        decide
      have hdropLen : (us.drop k).length = us.length - k := List.length_drop
      obtain ⟨pieces', current', hsave, hpieces', hwrote⟩ := ih
        (fun u hu => hus u (List.mem_of_mem_drop hu)) (hfull.next (hflag (if wide then 1 else 0))) (by
          rw [if_neg (by rw [List.length_singleton]; decide), hdropLen]
          by_cases hkz : k = 0
          · rw [if_pos (hkzero hkz)] at hfuel
            omega
          · omega)
      refine ⟨pieces', current', ?_, hpieces', hwrote.next hus hkus hkzero⟩
      rw [if_pos hmore, htake, hdrop, add_ofPieces, newPiece_ofPieces hfull, Option.bind_eq_bind,
        Option.bind_some, add_ofPieces, List.nil_append, hsave]
    · refine ⟨pieces, current ++ unitBytes wide us, ?_, h.add ?_, .here hus hne pieces current⟩
      · rw [if_neg hmore, add_ofPieces]
      · rw [List.length_append]
        omega

/-! ### One text -/

/-- The flag of units of two bytes, which is all that the byte between the number of units and the
units says here. -/
def flagOf (wide : Bool) : ℕ := if wide then 1 else 0

/-- A text is packed in units that fit. -/
theorem upack2_ok {s : List Char} (hs : s.length ≤ 32767) :
    ∃ wide, upack2 s = some (le 2 (Utf16.encode s).length ++
        (le 1 (flagOf wide) ++ unitBytes wide (Utf16.encode s))) ∧
      UnitsFit wide (Utf16.encode s) ∧ (Utf16.encode s).length < 2 ^ 16 := by
  rw [upack2, if_neg (by omega)]
  by_cases hlatin : CodesBelow 0x100 s
  · have hencode := Utf16.encode_latin hlatin
    refine ⟨false, ?_, ?_, ?_⟩
    · rw [if_pos hlatin, pack_of_fits (by simp [Item.Fits]; omega), hencode, List.length_map,
        unitBytes, List.flatMap_map]
      simp [Item.bytes, flagOf, width]
    · rw [hencode]
      intro u hu
      obtain ⟨c, hc, rfl⟩ := List.mem_map.mp hu
      exact hlatin c hc
    · rw [hencode, List.length_map]
      omega
  · have hlength := Utf16.length_encode_le s
    have hhalf : ((Utf16.encode s).flatMap (le 2)).length / 2 = (Utf16.encode s).length := by
      have h := length_unitBytes true (Utf16.encode s)
      rw [unitBytes, width, if_pos rfl] at h
      rw [h, Nat.mul_div_cancel_left _ (by decide)]
    refine ⟨true, ?_, fun u hu => Utf16.encode_lt u hu, by omega⟩
    dsimp only
    rw [if_neg hlatin, hhalf, pack_of_fits (by simp [Item.Fits]; omega)]
    simp [Item.bytes, flagOf, width, unitBytes]

/-- A text that is too long is refused. -/
theorem upack2_long {s : List Char} (hs : 32767 < s.length) : upack2 s = none := if_pos hs

/-- Pieces that have been written, with what follows them: the text is read from what has been added
to the piece at the start. -/
def WroteText (us : List ℕ) (pieces : List (List UInt8)) (current : List UInt8)
    (pieces' : List (List UInt8)) (current' : List UInt8) : Prop :=
  ∀ bs rest, ∃ bs' rest', pieces' ++ (current' ++ bs) :: rest =
      pieces ++ (current ++ bs') :: rest' ∧ readText bs' rest' = some (us, bs, rest)

/-- A text is read from its head and its units. -/
theorem readHere_ok {wide : Bool} {us : List ℕ} (hus : UnitsFit wide us) (hlen : us.length < 2 ^ 16)
    {bs bs' : List UInt8} {rest rest' : List (List UInt8)}
    (h : readUnits (us.drop 1).length wide bs rest = some (us.drop 1, bs', rest')) :
    readHere (le 2 us.length ++ (le 1 (flagOf wide) ++ (unitBytes wide (us.take 1) ++ bs))) rest =
      some (us, bs', rest') := by
  have hflag : flagOf wide < 256 ^ 1 := by cases wide <;> decide
  have hwide : decide (flagOf wide % 2 = 1) = wide := by cases wide <;> rfl
  have htakeFit : UnitsFit wide (us.take 1) := fun u hu => hus u (List.mem_of_mem_take hu)
  have hunits := readUnits_append htakeFit (us.drop 1).length bs rest
  rw [← List.length_append, List.take_append_drop, h, Option.map_some,
    List.take_append_drop] at hunits
  rw [readHere, readU_two hlen, Option.bind_eq_bind, Option.bind_some]
  dsimp only
  rw [readU_le hflag, Option.bind_some]
  dsimp only
  rw [hwide, hunits]

/-- What is not split is written in this piece, or in the next one. -/
theorem saveAtom_ok {pieces : List (List UInt8)} {current atom : List UInt8}
    (h : Pieces pieces current) :
    ((SstWriter.ofPieces pieces current).saveAtom atom =
        some (.ofPieces pieces (current ++ atom)) ∧ (current ++ atom).length ≤ 0x2020) ∨
      (SstWriter.ofPieces pieces current).saveAtom atom =
        some (.ofPieces (pieces ++ [current]) atom) := by
  have hfits := h.fits
  rw [SstWriter.saveAtom, currentPiece_ofPieces]
  dsimp only
  by_cases hfree : 0x2020 - current.length < atom.length
  · refine Or.inr ?_
    rw [if_pos hfree, newPiece_ofPieces h, Option.bind_eq_bind, Option.bind_some, add_ofPieces,
      List.nil_append]
  · refine Or.inl ⟨?_, by rw [List.length_append]; omega⟩
    rw [if_neg hfree, Option.bind_eq_bind, Option.bind_some, add_ofPieces]

/-- The first bytes of a text, with its first unit, and the rest. -/
theorem split_text (wide : Bool) (us : List ℕ) :
    let uStr := le 2 us.length ++ (le 1 (flagOf wide) ++ unitBytes wide us)
    uStr.take (3 + width wide) =
        le 2 us.length ++ (le 1 (flagOf wide) ++ unitBytes wide (us.take 1)) ∧
      uStr.drop (3 + width wide) = unitBytes wide (us.drop 1) := by
  have hhead : (le 2 us.length ++ le 1 (flagOf wide)).length = 3 := by
    rw [List.length_append, length_le, length_le]
  dsimp only
  rw [← List.append_assoc, ← List.append_assoc, List.take_append, List.drop_append, hhead,
    List.take_of_length_le (by omega), List.drop_eq_nil_of_le (by omega), Nat.add_sub_cancel_left]
  cases us with
  | nil => exact ⟨by simp [unitBytes], by simp [unitBytes]⟩
  | cons u us =>
    obtain ⟨htake, hdrop⟩ := split_unitBytes wide (u :: us) 1 (by simp)
    rw [mul_one] at htake hdrop
    exact ⟨by rw [htake], by rw [hdrop, List.nil_append]⟩

/-- **A text is written and read**, in this piece or from the next one on, whatever is written
behind it. -/
theorem addToSst_ok {s : List Char} (hs : s.length ≤ 32767) {pieces : List (List UInt8)}
    {current : List UInt8} (h : Pieces pieces current) :
    ∃ pieces' current', (SstWriter.ofPieces pieces current).addToSst s =
        some (.ofPieces pieces' current') ∧ Pieces pieces' current' ∧
      WroteText (Utf16.encode s) pieces current pieces' current' := by
  obtain ⟨wide, hpack, hus, hlen⟩ := upack2_ok hs
  generalize Utf16.encode s = us at hpack hus hlen ⊢
  obtain ⟨htake, hdrop⟩ := split_text wide us
  have hflag : (le 2 us.length ++ (le 1 (flagOf wide) ++ unitBytes wide us))[2]? =
      some (UInt8.ofNat (flagOf wide)) := rfl
  have hisWide : decide (some (UInt8.ofNat (flagOf wide)) = some 1) = wide := by
    cases wide <;> decide
  have hatomLen : (if some (UInt8.ofNat (flagOf wide)) = some 1 then 5 else 4) =
      3 + width wide := by
    cases wide <;> rfl
  -- behind the first unit the text may be split, wherever its start is
  have hsplitted : ∀ {pieces₁ current₁}, Pieces pieces₁ current₁ → ∃ pieces' current',
      SstWriter.saveSplitted wide ((le 2 us.length ++ (le 1 (flagOf wide) ++
        unitBytes wide us)).length + 1) (.ofPieces pieces₁ current₁) (unitBytes wide (us.drop 1)) =
          some (.ofPieces pieces' current') ∧ Pieces pieces' current' ∧
        WroteUnits wide (us.drop 1) pieces₁ current₁ pieces' current' := by
    intro pieces₁ current₁ h₁
    refine saveSplitted_ok (fun u hu => hus u (List.mem_of_mem_drop hu)) h₁ ?_
    have hunits := Nat.le_mul_of_pos_left us.length (width_pos wide)
    simp only [List.length_append, length_le, length_unitBytes, List.length_drop]
    split_ifs <;> omega
  -- the two calls, for the pieces that the first of them leaves
  have hadd : ∀ {pieces₁ current₁}, (SstWriter.ofPieces pieces current).saveAtom
      (le 2 us.length ++ (le 1 (flagOf wide) ++ unitBytes wide (us.take 1))) =
        some (.ofPieces pieces₁ current₁) → (SstWriter.ofPieces pieces current).addToSst s =
      SstWriter.saveSplitted wide ((le 2 us.length ++ (le 1 (flagOf wide) ++
        unitBytes wide us)).length + 1) (.ofPieces pieces₁ current₁)
          (unitBytes wide (us.drop 1)) := by
    intro pieces₁ current₁ hatom
    rw [SstWriter.addToSst, hpack, Option.bind_eq_bind, Option.bind_some]
    dsimp only
    rw [hflag, hisWide, hatomLen, htake, hdrop, hatom, Option.bind_eq_bind, Option.bind_some]
  rcases saveAtom_ok h with ⟨hatom, hfits⟩ | hatom
  · obtain ⟨pieces', current', hsave, hpieces', hwrote⟩ := hsplitted (h.add hfits)
    refine ⟨pieces', current', (hadd hatom).trans hsave, hpieces', fun bs rest => ?_⟩
    obtain ⟨bs', rest', hall, hread, -⟩ := hwrote bs rest
    refine ⟨_, rest', by rw [hall, List.append_assoc], ?_⟩
    rw [List.append_assoc, List.append_assoc]
    exact readHere_ok hus hlen hread
  -- there is no room for the start, which is at most five bytes: it is the next piece
  · have hsmall : (le 2 us.length ++ (le 1 (flagOf wide) ++
        unitBytes wide (us.take 1))).length ≤ 0x2020 := by
      have hfirst : (us.take 1).length ≤ 1 := by simp
      have hwidth : width wide ≤ 2 := by cases wide <;> decide
      have hmul := Nat.mul_le_mul hwidth hfirst
      simp only [List.length_append, length_le, length_unitBytes]
      omega
    obtain ⟨pieces', current', hsave, hpieces', hwrote⟩ := hsplitted (h.next hsmall)
    refine ⟨pieces', current', (hadd hatom).trans hsave, hpieces', fun bs rest => ?_⟩
    obtain ⟨bs', rest', hall, hread, -⟩ := hwrote bs rest
    refine ⟨[], _ :: rest', by rw [hall, List.append_assoc, List.append_nil]; rfl, ?_⟩
    rw [readText, List.append_assoc, List.append_assoc]
    exact readHere_ok hus hlen hread

/-! ### All texts -/

/-- **The texts are written and read**, one after the other, from any state of the writer.  The
header of the first record and those of the others are not in it yet. -/
theorem addToSst_all {ss : List (List Char)} (hss : ∀ s ∈ ss, s.length ≤ 32767)
    {pieces : List (List UInt8)} {current : List UInt8} (h : Pieces pieces current) :
    ∃ pieces' current', ss.foldlM SstWriter.addToSst (.ofPieces pieces current) =
        some (.ofPieces pieces' current') ∧ Pieces pieces' current' ∧
      ∀ bs rest, ∃ bs' rest', pieces' ++ (current' ++ bs) :: rest =
          pieces ++ (current ++ bs') :: rest' ∧
        readTexts ss.length bs' rest' = some (ss.map Utf16.encode, bs, rest) := by
  induction ss generalizing pieces current with
  | nil => exact ⟨pieces, current, rfl, h, fun bs rest => ⟨bs, rest, rfl, rfl⟩⟩
  | cons s ss ih =>
    obtain ⟨pieces₁, current₁, hadd, h₁, hwrote⟩ := addToSst_ok (hss s List.mem_cons_self) h
    obtain ⟨pieces', current', hfold, h', hread⟩ := ih
      (fun s' hs' => hss s' (List.mem_cons_of_mem s hs')) h₁
    refine ⟨pieces', current', ?_, h', fun bs rest => ?_⟩
    · rw [List.foldlM_cons, hadd, Option.bind_eq_bind, Option.bind_some, hfold]
    · obtain ⟨bs₁, rest₁, hall₁, htexts⟩ := hread bs rest
      obtain ⟨bs', rest', hall, htext⟩ := hwrote bs₁ rest₁
      refine ⟨bs', rest', hall₁.trans hall, ?_⟩
      rw [List.length_cons, readTexts, htext, Option.bind_eq_bind, Option.bind_some]
      dsimp only
      rw [htexts]
      rfl

/-- A text that is too long is refused, wherever it is. -/
theorem addToSst_long {ss : List (List Char)} (hss : ∃ s ∈ ss, 32767 < s.length) (w : SstWriter) :
    ss.foldlM SstWriter.addToSst w = none := by
  induction ss generalizing w with
  | nil => simp at hss
  | cons s ss ih =>
    rw [List.foldlM_cons]
    by_cases hs : 32767 < s.length
    · rw [SstWriter.addToSst, upack2_long hs]
      rfl
    · obtain ⟨s', hs', hlong⟩ := hss
      rcases List.mem_cons.mp hs' with rfl | hmem
      · exact absurd hlong hs
      · cases w.addToSst s with
        | none => rfl
        | some w' => exact ih ⟨s', hmem, hlong⟩ w'

/-- Records are told apart. -/
theorem splitRecords_ok {records : List (ℕ × List UInt8)}
    (h : ∀ r ∈ records, r.1 < 2 ^ 16 ∧ r.2.length < 2 ^ 16) {fuel : ℕ}
    (hfuel : records.length ≤ fuel) :
    splitRecords fuel (records.flatMap fun r => recordBytes r.1 r.2) = some records := by
  induction records generalizing fuel with
  | nil =>
    rw [List.flatMap_nil, splitRecords]
  | cons r records ih =>
    obtain ⟨fuel, rfl⟩ := Nat.exists_eq_add_one.mpr (Nat.lt_of_lt_of_le (Nat.succ_pos _) hfuel)
    obtain ⟨hid, hlen⟩ := h r List.mem_cons_self
    have hrest := ih (fun r' hr' => h r' (List.mem_cons_of_mem r hr')) (Nat.le_of_succ_le_succ hfuel)
    have hne : le 2 r.1 ≠ [] := List.ne_nil_of_length_pos (by rw [length_le]; decide)
    have hid' := readU_two hid (le 2 r.2.length ++ (r.2 ++
      records.flatMap fun r => recordBytes r.1 r.2))
    have hlen' := readU_two hlen (r.2 ++ records.flatMap fun r => recordBytes r.1 r.2)
    obtain ⟨b, tail, hb⟩ := List.exists_cons_of_ne_nil
      (List.append_ne_nil_of_left_ne_nil hne (le 2 r.2.length ++ (r.2 ++
        records.flatMap fun r => recordBytes r.1 r.2)))
    rw [List.flatMap_cons, recordBytes, List.append_assoc, List.append_assoc, hb, splitRecords]
    · rw [← hb, hid', Option.bind_eq_bind, Option.bind_some]
      dsimp only
      rw [hlen', Option.bind_some]
      dsimp only
      rw [if_neg (by rw [List.length_append]; omega), List.take_left, List.drop_left, hrest]
      rfl
    · exact List.cons_ne_nil b tail

/-- There are fewer records than bytes. -/
theorem length_le_flatMap_records (records : List (ℕ × List UInt8)) :
    records.length ≤ (records.flatMap fun r => recordBytes r.1 r.2).length := by
  induction records with
  | nil => exact Nat.le_refl 0
  | cons r records ih =>
    rw [List.flatMap_cons, List.length_cons, List.length_append, recordBytes, List.length_append,
      List.length_append, length_le]
    omega

/-- What the writer has left is the records of its pieces. -/
theorem continues_ofPieces (first : List UInt8) (pieces : List (List UInt8)) :
    (SstWriter.ofPieces (first :: pieces) []).continues.flatten =
      (pieces.map fun piece => (0x003C, piece)).flatMap fun r => recordBytes r.1 r.2 := by
  rw [SstWriter.ofPieces, List.flatMap_map]
  rfl

theorem length_texts (t : StringTable) : t.texts.length = t.strs.length := by
  rw [StringTable.texts, List.length_zipWith, t.sameLength, Nat.min_self]

/-- What is read from the records of texts. -/
theorem readSst_ok {calls : ℕ} {texts : List (List Char)} {bs : List UInt8}
    {rest : List (List UInt8)} (hcalls : calls < 2 ^ 32) (hcount : texts.length < 2 ^ 32)
    (hbs : 8 + bs.length ≤ 0x2020) (hrest : ∀ piece ∈ rest, piece.length ≤ 0x2020)
    (htexts : readTexts texts.length bs rest = some (texts.map Utf16.encode, [], [])) :
    readSst (((0x00FC, le 4 calls ++ (le 4 texts.length ++ bs)) ::
      rest.map fun piece => (0x003C, piece)).flatMap fun r => recordBytes r.1 r.2) =
        some (calls, texts) := by
  have hdata : (le 4 calls ++ (le 4 texts.length ++ bs)).length < 2 ^ 16 := by
    simp only [List.length_append, length_le]
    omega
  have hrecords : ∀ r ∈ (0x00FC, le 4 calls ++ (le 4 texts.length ++ bs)) ::
      rest.map fun piece => (0x003C, piece), r.1 < 2 ^ 16 ∧ r.2.length < 2 ^ 16 := by
    have hsst : 0x00FC < 2 ^ 16 := by decide
    have hcontinue : 0x003C < 2 ^ 16 := by decide
    refine List.forall_mem_cons.mpr ⟨⟨hsst, hdata⟩, fun r hr => ?_⟩
    obtain ⟨piece, hpiece, rfl⟩ := List.mem_map.mp hr
    exact ⟨hcontinue, (hrest piece hpiece).trans_lt (by decide)⟩
  -- the first record is that of the table, and all others continue it
  have hcontinues : ¬ ((0x00FC : ℕ) ≠ 0x00FC ∨
      (rest.map fun piece => ((0x003C : ℕ), piece)).any (fun r => r.1 ≠ 0x003C) = true) := by
    simp
  have hpieces : (rest.map fun piece => ((0x003C : ℕ), piece)).map Prod.snd = rest := by
    rw [List.map_map]
    exact List.map_id rest
  rw [readSst, splitRecords_ok hrecords (length_le_flatMap_records _), Option.bind_eq_bind,
    Option.bind_some]
  dsimp only
  rw [if_neg hcontinues, readU_four hcalls, Option.bind_eq_bind, Option.bind_some]
  dsimp only
  rw [readU_four hcount, Option.bind_some]
  dsimp only
  rw [hpieces, htexts, Option.bind_eq_bind, Option.bind_some]
  dsimp only
  rw [List.map_map, show Utf16.decode ∘ Utf16.encode = id from funext Utf16.decode_encode,
    List.map_id]

/-- What is written before the records of the pieces: only the counts can be too large. -/
theorem getBiffRecord_eq {t : StringTable} (hshort : ∀ s ∈ t.texts, s.length ≤ 32767) :
    ∃ bs rest, t.getBiffRecord = (pack [.H 0x00FC, .H (8 + bs.length), .L t.addCalls,
        .L t.strs.length]).map (fun header => header ++ (bs ++
          (rest.map fun piece => (0x003C, piece)).flatMap fun r => recordBytes r.1 r.2)) ∧
      8 + bs.length ≤ 0x2020 ∧ (∀ piece ∈ rest, piece.length ≤ 0x2020) ∧
        readTexts t.texts.length bs rest = some (t.texts.map Utf16.encode, [], []) := by
  have hzeros : pack [.L 0, .L 0] = some (List.replicate 8 0) := by decide
  -- the first piece begins with the room for the two counts
  have hstart : Pieces [] (List.replicate 8 (0 : UInt8)) :=
    ⟨by simp, by simp, fun piece hpiece => by
      rw [List.nil_append, List.head?_cons, Option.some_inj] at hpiece
      rw [← hpiece, List.length_replicate]⟩
  obtain ⟨pieces, current, hfold, hpieces, hread⟩ := addToSst_all hshort hstart
  obtain ⟨bs, rest, hall, htexts⟩ := hread [] []
  rw [List.append_nil, List.nil_append] at hall
  have hfit : ∀ piece ∈ pieces ++ [current], piece.length ≤ 0x2020 := fun piece hpiece => by
    rcases List.mem_append.mp hpiece with hmem | hmem
    · exact hpieces.fit piece hmem
    · rw [List.mem_singleton.mp hmem]
      exact hpieces.fits
  rw [hall] at hfit
  obtain ⟨hfirst, hrest⟩ := List.forall_mem_cons.mp hfit
  rw [List.length_append, List.length_replicate] at hfirst
  refine ⟨bs, rest, ?_, hfirst, hrest, htexts⟩
  -- which are cut off again, as the header has them
  have hdrop : (List.replicate 8 (0 : UInt8) ++ bs).drop 8 = bs :=
    List.drop_left' List.length_replicate
  have hfold' : t.texts.foldlM SstWriter.addToSst ⟨[], [], List.replicate 8 0⟩ =
      some (.ofPieces pieces current) := hfold
  rw [StringTable.getBiffRecord, hzeros, Option.bind_eq_bind, Option.bind_some, hfold',
    Option.bind_eq_bind, Option.bind_some, newPiece_ofPieces hpieces, hall, Option.bind_some,
    continues_ofPieces, SstWriter.ofPieces, hdrop, List.length_append, List.length_replicate]
  cases pack [.H 0x00FC, .H (8 + bs.length), .L t.addCalls, .L t.strs.length] <;> rfl

/-- The records of texts that are short enough. -/
theorem getBiffRecord_ok {t : StringTable} (hshort : ∀ s ∈ t.texts, s.length ≤ 32767)
    (hcalls : t.addCalls < 2 ^ 32) (hcount : t.strs.length < 2 ^ 32) :
    ∃ bs, t.getBiffRecord = some bs ∧ readSst bs = some (t.addCalls, t.texts) := by
  obtain ⟨bs, rest, hrecord, hfirst, hrest, htexts⟩ := getBiffRecord_eq hshort
  have hbytes : [Item.H 0x00FC, .H (8 + bs.length), .L t.addCalls,
      .L t.texts.length].flatMap Item.bytes ++
        (bs ++ (rest.map fun piece => (0x003C, piece)).flatMap fun r => recordBytes r.1 r.2) =
      ((0x00FC, le 4 t.addCalls ++ (le 4 t.texts.length ++ bs)) ::
        rest.map fun piece => (0x003C, piece)).flatMap fun r => recordBytes r.1 r.2 := by
    have hlength : 8 + bs.length = (le 4 t.addCalls ++ (le 4 t.texts.length ++ bs)).length := by
      simp only [List.length_append, length_le]
      omega
    rw [hlength]
    simp [Item.bytes, recordBytes]
  rw [← length_texts] at hcount hrecord
  rw [pack_of_fits (by simp [Item.Fits]; omega), Option.map_some, hbytes] at hrecord
  exact ⟨_, hrecord, readSst_ok hcalls hcount hfirst hrest htexts⟩

/-- **The texts of the table are read from its records**, wherever they are split.  A table has no
records when a text is too long, or a count.  The texts are those of the cells: one that has been
overwritten everywhere keeps its place in the table, for the indexes of the others, but is empty. -/
theorem getBiffRecord_right (t : StringTable) :
    if (∀ s ∈ t.texts, s.length ≤ 32767) ∧ t.addCalls < 2 ^ 32 ∧ t.strs.length < 2 ^ 32 then
      ∃ bs, t.getBiffRecord = some bs ∧ readSst bs = some (t.addCalls, t.texts)
    else t.getBiffRecord = none := by
  split
  · next hfits => exact getBiffRecord_ok hfits.1 hfits.2.1 hfits.2.2
  · next hfits =>
    by_cases hshort : ∀ s ∈ t.texts, s.length ≤ 32767
    · obtain ⟨bs, rest, hrecord, -⟩ := getBiffRecord_eq hshort
      have hnone : pack [.H 0x00FC, .H (8 + bs.length), .L t.addCalls, .L t.strs.length] = none := by
        refine if_neg fun hall => hfits ⟨hshort, ?_, ?_⟩
        · exact hall (.L t.addCalls) (by simp)
        · exact hall (.L t.strs.length) (by simp)
      rw [hrecord, hnone]
      rfl
    · simp only [not_forall, not_le] at hshort
      obtain ⟨s, hs, hlong⟩ := hshort
      have hzeros : pack [.L 0, .L 0] = some (List.replicate 8 0) := by decide
      rw [StringTable.getBiffRecord, hzeros, Option.bind_eq_bind, Option.bind_some,
        addToSst_long ⟨s, hs, hlong⟩]
      rfl

end LinuxNote.Xls
