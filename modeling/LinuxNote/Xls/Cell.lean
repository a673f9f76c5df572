import LinuxNote.Base.Binary64
import LinuxNote.Base.StructPack

/-!
# The cells of a row in a workbook

xlwt writes a row of cells as records, and takes neighbours that are blank, or numbers with a short
form, together in one record.

## Main definitions

* `Cell`, `Cell.getBiffData`, `getEncodedData` — a cell, its own record, and the short form of a
  number.
* `getCellsBiffDataMul` — the records of a row.
* `readCells` — what the records say.

## Main results

* `getCellsBiffDataMul_right` — **taking neighbours together loses nothing**: the records of a row
  say what the records of its cells say, one by one, and that is what the cells are.
-/

namespace LinuxNote.Xls

open StructPack

/-! ### The cells -/

/-- What is in a cell that `csv2xls.py` writes: a string of the table of strings, nothing, or a
number. -/
inductive Content
  | str (sstIdx : ℕ)
  | blank
  | number (num : BitVec 64)
deriving DecidableEq

/-- `StrCell`, `BlankCell` and `NumberCell`, which have the place and the style in common. -/
structure Cell where
  rowx : ℕ
  colx : ℕ
  xfIdx : ℕ
  content : Content
deriving DecidableEq

/-- The result of `get_encoded_data`: a short form, or a record. -/
inductive Encoded
  | rk (value : ℤ)
  | record (data : List UInt8)

/-- `int`, which cuts off the fraction on either side of zero. -/
def truncate (q : ℚ) : ℤ := if 0 ≤ q then ⌊q⌋ else ⌈q⌉

/-- `int(round(temp, 0))`, which rounds half a unit away from zero. -/
def roundHalf (q : ℚ) : ℤ := if 0 ≤ q then ⌊q + 1 / 2⌋ else ⌈q - 1 / 2⌉

/-- The number fits in thirty bits, as a short form has no more: the two lowest bits say what it
is. -/
def Fits30 (q : ℚ) : Prop := -0x20000000 ≤ q ∧ q < 0x20000000

instance (q : ℚ) : Decidable (Fits30 q) := inferInstanceAs (Decidable (_ ∧ _))

/-- The `NUMBER` record, with all the bits of the number. -/
def numberRecord (c : Cell) (num : BitVec 64) : Option (List UInt8) :=
  pack [.H 0x0203, .H 14, .H c.rowx, .H c.colx, .H c.xfIdx, .s (le 8 num.toNat)]

/-- `NumberCell.get_encoded_data`: a short form if the number is an integer or a number of
hundredths in range, and its own record otherwise.  A number that is infinite or no number is in no
range. -/
def getEncodedData (c : Cell) (num : BitVec 64) : Option Encoded :=
  match Binary64.value num with
  | none => (numberRecord c num).map .record
  | some q =>
    if Fits30 q ∧ (truncate q : ℚ) = q then some (.rk (2 + 4 * truncate q))
    else
      let temp := Binary64.nearest (q * 100)
      if Fits30 temp ∧ Binary64.nearest (roundHalf temp / 100) = q then
        some (.rk (3 + 4 * roundHalf temp))
      else (numberRecord c num).map .record

/-- The `RK` record, with a short form in four bytes. -/
def rkRecord (rowx colx xfIdx : ℕ) (value : ℤ) : Option (List UInt8) :=
  pack [.H 0x027E, .H 10, .H rowx, .H colx, .H xfIdx, .l value]

/-- The `BLANK` record, of a cell that has a style and nothing else. -/
def blankRecord (rowx colx xfIdx : ℕ) : Option (List UInt8) :=
  pack [.H 0x0201, .H 6, .H rowx, .H colx, .H xfIdx]

/-- `get_biff_data`: a record for the cell alone. -/
def Cell.getBiffData (c : Cell) : Option (List UInt8) :=
  match c.content with
  | .str sstIdx => pack [.H 0x00FD, .H 10, .H c.rowx, .H c.colx, .H c.xfIdx, .L sstIdx]
  | .blank => blankRecord c.rowx c.colx c.xfIdx
  | .number num => do
    match ← getEncodedData c num with
    | .rk value => rkRecord c.rowx c.colx c.xfIdx value
    | .record data => some data

/-! ### The records of a row -/

/-- What the next cell is for the loop that takes neighbours together: one of another kind, a number
without a short form, or one more of the same kind. -/
inductive Next (δ : Type)
  | other
  | record (data : List UInt8)
  | more (d : δ)

/-- The inner loop: the data of the neighbours, the last column, the record of a number that has
ended it, and the cells that are left. -/
def collect {δ : Type} (next : Cell → Option (Next δ)) : ℕ → List δ → List (ℕ × Cell) →
    Option (List δ × ℕ × List UInt8 × List (ℕ × Cell))
  | lastcolx, muldata, [] => some (muldata, lastcolx, [], [])
  | lastcolx, muldata, (jcolx, jcell) :: items =>
    if jcolx ≠ lastcolx + 1 then some (muldata, lastcolx, [], (jcolx, jcell) :: items)
    else do
      match ← next jcell with
      | .other => some (muldata, lastcolx, [], (jcolx, jcell) :: items)
      | .record data => some (muldata, lastcolx, data, items)
      | .more d => collect next jcolx (muldata ++ [d]) items

/-- What a neighbour is for a number: one short form more, a number with a record of its own, which
ends them, or something else. -/
def nextNumber (jcell : Cell) : Option (Next (ℤ × ℕ)) :=
  match jcell.content with
  | .number num => do
    match ← getEncodedData jcell num with
    | .rk value => some (.more (value, jcell.xfIdx))
    | .record data => some (.record data)
  | _ => some .other

/-- What a neighbour is for a blank cell: one style more, or something else. -/
def nextBlank (jcell : Cell) : Option (Next ℕ) :=
  match jcell.content with
  | .blank => some (.more jcell.xfIdx)
  | _ => some .other

/-- The `RK` or `MULRK` record, as one number takes less room in a record for one. -/
def rkPieces (rowx icolx lastcolx : ℕ) (muldata : List (ℤ × ℕ)) : Option (List UInt8) :=
  if lastcolx = icolx then do
    let (value, xfIdx) ← muldata.head?
    rkRecord rowx icolx xfIdx value
  else
    let nc := lastcolx - icolx + 1
    pack ([.H 0x00BD, .H (6 * nc + 6), .H rowx, .H icolx] ++
      muldata.flatMap (fun d => [.H d.2, .l d.1]) ++ [.H lastcolx])

/-- The `BLANK` or `MULBLANK` record, with the styles of the cells. -/
def blankPieces (rowx icolx lastcolx : ℕ) (muldata : List ℕ) : Option (List UInt8) :=
  if lastcolx = icolx then do
    let xfIdx ← muldata.head?
    blankRecord rowx icolx xfIdx
  else
    let nc := lastcolx - icolx + 1
    pack ([.H 0x00BE, .H (2 * nc + 6), .H rowx, .H icolx] ++ muldata.map .H ++ [.H lastcolx])

/-- `_get_cells_biff_data_mul`, with at most as many steps as the first number says: neighbours of
one kind share a record. -/
def getCellsBiffDataMul (rowx : ℕ) : ℕ → List (ℕ × Cell) → Option (List UInt8)
  | _, [] => some []
  | 0, _ :: _ => none
  | fuel + 1, (icolx, icell) :: items =>
    match icell.content with
    | .number num => do
      match ← getEncodedData icell num with
      | .record data => do
        let pieces ← getCellsBiffDataMul rowx fuel items
        some (data ++ pieces)
      | .rk value => do
        let (muldata, lastcolx, packedRecord, items) ←
          collect nextNumber icolx [(value, icell.xfIdx)] items
        let piece ← rkPieces rowx icolx lastcolx muldata
        let pieces ← getCellsBiffDataMul rowx fuel items
        some (piece ++ packedRecord ++ pieces)
    | .blank => do
      let (muldata, lastcolx, packedRecord, items) ← collect nextBlank icolx [icell.xfIdx] items
      let piece ← blankPieces rowx icolx lastcolx muldata
      let pieces ← getCellsBiffDataMul rowx fuel items
      some (piece ++ packedRecord ++ pieces)
    | .str _ => do
      let piece ← icell.getBiffData
      let pieces ← getCellsBiffDataMul rowx fuel items
      some (piece ++ pieces)

/-- The records of the cells, one by one: what they would be if no record were for several cells. -/
def plainBiffData : List (ℕ × Cell) → Option (List UInt8)
  | [] => some []
  | (_, cell) :: items => do
    let piece ← cell.getBiffData
    let pieces ← plainBiffData items
    some (piece ++ pieces)

/-! ### What the records say -/

/-- What is said of a cell: numbers are rational in the short form, and bits otherwise. -/
inductive Datum
  | str (sstIdx : ℕ)
  | blank
  | short (q : ℚ)
  | double (bits : BitVec 64)
deriving DecidableEq

/-- A cell that has been read: its place and its style, and the value itself instead of its bits. -/
structure Shown where
  rowx : ℕ
  colx : ℕ
  xfIdx : ℕ
  datum : Datum
deriving DecidableEq

/-- The number of a short form: the lowest bit is for hundredths, the next one for integers. -/
def rkNumber (value : ℤ) : Option ℚ :=
  if value % 4 = 2 then some (value / 4 : ℤ)
  else if value % 4 = 3 then some (Binary64.nearest ((value / 4 : ℤ) / 100))
  else none

/-- The neighbours of a `MULRK` record. -/
def readMulRk (rowx : ℕ) : ℕ → ℕ → List UInt8 → Option (List Shown)
  | 0, _, _ => some []
  | n + 1, colx, data => do
    let (xfIdx, data) ← readU 2 data
    let (value, data) ← readI 4 data
    let q ← rkNumber value
    let cells ← readMulRk rowx n (colx + 1) data
    some (⟨rowx, colx, xfIdx, .short q⟩ :: cells)

/-- The neighbours of a `MULBLANK` record. -/
def readMulBlank (rowx : ℕ) : ℕ → ℕ → List UInt8 → Option (List Shown)
  | 0, _, _ => some []
  | n + 1, colx, data => do
    let (xfIdx, data) ← readU 2 data
    let cells ← readMulBlank rowx n (colx + 1) data
    some (⟨rowx, colx, xfIdx, .blank⟩ :: cells)

/-- The cell of a record for one cell. -/
def readOne (id rowx colx xfIdx : ℕ) (rest : List UInt8) : Option (List Shown) :=
  if id = 0x0201 then some [⟨rowx, colx, xfIdx, .blank⟩]
  else if id = 0x00FD then do
    let (sstIdx, _) ← readU 4 rest
    some [⟨rowx, colx, xfIdx, .str sstIdx⟩]
  else if id = 0x0203 then do
    let (bits, _) ← readU 8 rest
    some [⟨rowx, colx, xfIdx, .double (BitVec.ofNat 64 bits)⟩]
  else if id = 0x027E then do
    let (value, _) ← readI 4 rest
    let q ← rkNumber value
    some [⟨rowx, colx, xfIdx, .short q⟩]
  else none

/-- The cells of a record, by its kind: several for `MULRK` and `MULBLANK`, and one for each other
kind. -/
def readRecord (id : ℕ) (data : List UInt8) : Option (List Shown) := do
  let (rowx, rest) ← readU 2 data
  let (colx, rest) ← readU 2 rest
  if id = 0x00BD then readMulRk rowx ((data.length - 6) / 6) colx rest
  else if id = 0x00BE then readMulBlank rowx ((data.length - 6) / 2) colx rest
  else do
    let (xfIdx, rest) ← readU 2 rest
    readOne id rowx colx xfIdx rest

/-- The cells of records, with at most as many steps as the first number says. -/
def readRecords : ℕ → List UInt8 → Option (List Shown)
  | _, [] => some []
  | 0, _ :: _ => none
  | fuel + 1, bs => do
    let (id, rest) ← readU 2 bs
    let (len, rest) ← readU 2 rest
    if rest.length < len then none
    else
      let cells ← readRecord id (rest.take len)
      let others ← readRecords fuel (rest.drop len)
      some (cells ++ others)

/-- What the bytes say, for a reader that knows the format and not the writer. -/
def readCells (bs : List UInt8) : Option (List Shown) := readRecords bs.length bs

/-- What is said of a cell is what is in it. -/
def Content.Shows : Content → Datum → Prop
  | .str i, .str j => i = j
  | .blank, .blank => True
  | .number num, .short q => Binary64.value num = some q
  | .number num, .double bits => num = bits
  | _, _ => False

/-- A cell that has been read is the one that has been written, with its place, its style and its
content. -/
structure Cell.Shows (c : Cell) (v : Shown) : Prop where
  rowx : c.rowx = v.rowx
  colx : c.colx = v.colx
  xfIdx : c.xfIdx = v.xfIdx
  datum : c.content.Shows v.datum

/-- The cell is in a worksheet, and its numbers are those of a workbook, so that all fields of its
record can be packed. -/
structure Cell.Fits (c : Cell) : Prop where
  rowx : c.rowx < 2 ^ 16
  colx : c.colx < 256
  xfIdx : c.xfIdx < 2 ^ 16
  content : ∀ i, c.content = .str i → i < 2 ^ 32

/-! ### The short form -/

/-- The first number that has no short form is not taken for one that has. -/
theorem nearest_edge : Binary64.nearest (Binary64.nearest (536870912 / 100) * 100) = 536870912 := by
  have hquot : Binary64.nearest (536870912 / 100) = 5764607523034235 / 1073741824 := by
    rw [Binary64.nearest_of_log (e := 22) (by norm_num) (by norm_num) (by norm_num) (by norm_num)]
    have heven : AwkNumber.roundEven (536870912 / 100 / 2 ^ (22 - 52 : ℤ)) = 5764607523034235 := by
      decide +kernel
    rw [heven]
    norm_num
  rw [hquot,
    Binary64.nearest_of_log (e := 29) (by norm_num) (by norm_num) (by norm_num) (by norm_num)]
  have heven : AwkNumber.roundEven (5764607523034235 / 1073741824 * 100 / 2 ^ (29 - 52 : ℤ)) =
      4503599627370496 := by
    decide +kernel
  rw [heven]
  norm_num

theorem truncate_bounds {q : ℚ} (h : Fits30 q) :
    -536870912 ≤ truncate q ∧ truncate q < 536870912 := by
  obtain ⟨hlow, hhigh⟩ := h
  rw [truncate]
  split
  · exact ⟨Int.le_floor.mpr (by push_cast; linarith), Int.floor_lt.mpr (by push_cast; linarith)⟩
  · next hneg =>
    refine ⟨?_, ?_⟩
    · exact_mod_cast (show (-536870912 : ℚ) ≤ ⌈q⌉ by linarith [Int.le_ceil q])
    · have hzero : ⌈q⌉ ≤ 0 := Int.ceil_le.mpr (by push_cast; linarith)
      omega

theorem roundHalf_bounds {q : ℚ} (h : Fits30 q) :
    -536870912 ≤ roundHalf q ∧ roundHalf q ≤ 536870912 := by
  obtain ⟨hlow, hhigh⟩ := h
  rw [roundHalf]
  split
  · have hlt : ⌊q + 1 / 2⌋ < 536870913 := Int.floor_lt.mpr (by push_cast; linarith)
    exact ⟨Int.le_floor.mpr (by push_cast; linarith), by omega⟩
  · next hneg =>
    have hlt : -536870913 < ⌈q - 1 / 2⌉ := Int.lt_ceil.mpr (by push_cast; linarith)
    exact ⟨by omega, Int.ceil_le.mpr (by push_cast; linarith)⟩

/-- The short form of a number fits in its field, and is that number: reading it back gives the
same value. -/
structure IsShort (num : BitVec 64) (value : ℤ) : Prop where
  bounds : -2 ^ 31 ≤ value ∧ value < 2 ^ 31
  number : rkNumber value = Binary64.value num

theorem rkNumber_integer (n : ℤ) : rkNumber (2 + 4 * n) = some (n : ℚ) := by
  have hdiv : (2 + 4 * n) / 4 = n := by omega
  rw [rkNumber, if_pos (by omega), hdiv]

theorem rkNumber_hundredths (n : ℤ) :
    rkNumber (3 + 4 * n) = some (Binary64.nearest (n / 100)) := by
  have hdiv : (3 + 4 * n) / 4 = n := by omega
  rw [rkNumber, if_neg (by omega), if_pos (by omega), hdiv]

/-- A number has a short form that is this number, or a record. -/
theorem getEncodedData_cases (c : Cell) (num : BitVec 64) :
    (∃ value, getEncodedData c num = some (.rk value) ∧ IsShort num value) ∨
      getEncodedData c num = (numberRecord c num).map .record := by
  rw [getEncodedData]
  cases hnum : Binary64.value num with
  | none => exact Or.inr rfl
  | some q =>
    by_cases hint : Fits30 q ∧ (truncate q : ℚ) = q
    · obtain ⟨hlow, hhigh⟩ := truncate_bounds hint.1
      refine Or.inl ⟨_, if_pos hint, ⟨by omega, by omega⟩, ?_⟩
      rw [rkNumber_integer, hint.2, hnum]
    · by_cases hhundredths : Fits30 (Binary64.nearest (q * 100)) ∧
          Binary64.nearest (roundHalf (Binary64.nearest (q * 100)) / 100) = q
      · obtain ⟨hlow, hhigh⟩ := roundHalf_bounds hhundredths.1
        have hedge : roundHalf (Binary64.nearest (q * 100)) ≠ 536870912 := by
          intro heq
          have hq := hhundredths.2
          have hlt := hhundredths.1.2
          rw [heq] at hq
          push_cast at hq
          rw [← hq, nearest_edge] at hlt
          exact absurd hlt (by norm_num)
        refine Or.inl ⟨_, (if_neg hint).trans (if_pos hhundredths), ⟨by omega, by omega⟩, ?_⟩
        rw [rkNumber_hundredths, hhundredths.2, hnum]
      · exact Or.inr ((if_neg hint).trans (if_neg hhundredths))

/-! ### Records -/

/-- A record: its kind, the number of its bytes, and the bytes. -/
def recordBytes (id : ℕ) (data : List UInt8) : List UInt8 := le 2 id ++ le 2 data.length ++ data

/-- Bytes that are records, with the cells that they say, as a reader finds them who knows nothing
of how they were written. -/
inductive Encodes : List UInt8 → List Shown → Prop
  | nil : Encodes [] []
  | cons {id : ℕ} {data bs : List UInt8} {cells others : List Shown} (hid : id < 2 ^ 16)
      (hlen : data.length < 2 ^ 16) (hread : readRecord id data = some cells)
      (h : Encodes bs others) : Encodes (recordBytes id data ++ bs) (cells ++ others)

theorem Encodes.append {bs bs' : List UInt8} {vs vs' : List Shown} (h : Encodes bs vs)
    (h' : Encodes bs' vs') : Encodes (bs ++ bs') (vs ++ vs') := by
  induction h with
  | nil => exact h'
  | cons hid hlen hread _ ih =>
    rw [List.append_assoc, List.append_assoc]
    exact ih.cons hid hlen hread

theorem Encodes.single {id : ℕ} {data : List UInt8} {cells : List Shown} (hid : id < 2 ^ 16)
    (hlen : data.length < 2 ^ 16) (hread : readRecord id data = some cells) :
    Encodes (recordBytes id data) cells := by
  have h := Encodes.nil.cons hid hlen hread
  rwa [List.append_nil, List.append_nil] at h

/-- Records are read. -/
theorem Encodes.readCells {bs : List UInt8} {vs : List Shown} (h : Encodes bs vs) :
    readCells bs = some vs := by
  suffices hfuel : ∀ fuel, bs.length ≤ fuel → readRecords fuel bs = some vs from hfuel _ le_rfl
  induction h with
  | nil =>
    intro fuel _
    rw [readRecords]
  | @cons id data bs cells others hid hlen hread _ ih =>
    intro fuel hfuel
    have hlength : (recordBytes id data ++ bs).length = 4 + data.length + bs.length := by
      simp [recordBytes]
      omega
    obtain ⟨b, rest, hb⟩ := List.exists_cons_of_ne_nil
      (List.ne_nil_of_length_pos (by omega : 0 < (recordBytes id data ++ bs).length))
    cases fuel with
    | zero => omega
    | succ fuel =>
      have hid' : readU 2 (b :: rest) = some (id, le 2 data.length ++ (data ++ bs)) := by
        rw [← hb, recordBytes, List.append_assoc, List.append_assoc, readU_two hid]
      have hlen' := readU_two hlen (data ++ bs)
      have hshort : ¬ (data ++ bs).length < data.length := by
        rw [List.length_append]
        omega
      rw [hb, readRecords]
      · simp only [hid', hlen', Option.bind_eq_bind, Option.bind_some, if_neg hshort,
          List.take_left, List.drop_left, hread, ih fuel (by omega)]
      · exact fun hnil => absurd hnil (List.cons_ne_nil b rest)

/-- Bytes that say what cells are: the cells that are read from the records are these, in this
order. -/
def Says (bs : List UInt8) (cs : List Cell) : Prop :=
  ∃ vs, Encodes bs vs ∧ List.Forall₂ Cell.Shows cs vs

theorem Says.nil : Says [] [] := ⟨[], Encodes.nil, List.Forall₂.nil⟩

theorem Says.append {bs bs' : List UInt8} {cs cs' : List Cell} (h : Says bs cs)
    (h' : Says bs' cs') : Says (bs ++ bs') (cs ++ cs') := by
  obtain ⟨vs, hbs, hcs⟩ := h
  obtain ⟨vs', hbs', hcs'⟩ := h'
  exact ⟨vs ++ vs', hbs.append hbs', List.rel_append hcs hcs'⟩

theorem Says.single {id : ℕ} {data : List UInt8} {c : Cell} {v : Shown} (hid : id < 2 ^ 16)
    (hlen : data.length < 2 ^ 16) (hread : readRecord id data = some [v]) (hv : c.Shows v) :
    Says (recordBytes id data) [c] :=
  ⟨[v], Encodes.single hid hlen hread, List.Forall₂.cons hv List.Forall₂.nil⟩

theorem readRecord_head {rowx colx : ℕ} (hrow : rowx < 2 ^ 16) (hcol : colx < 2 ^ 16) (id : ℕ)
    (rest : List UInt8) :
    readRecord id (le 2 rowx ++ (le 2 colx ++ rest)) =
      if id = 0x00BD then readMulRk rowx ((rest.length - 2) / 6) colx rest
      else if id = 0x00BE then readMulBlank rowx ((rest.length - 2) / 2) colx rest
      else (readU 2 rest).bind fun r => readOne id rowx colx r.1 r.2 := by
  have hlen : (le 2 rowx ++ (le 2 colx ++ rest)).length - 6 = rest.length - 2 := by
    simp only [List.length_append, length_le]
    omega
  rw [readRecord, readU_two hrow, Option.bind_eq_bind, Option.bind_some]
  dsimp only
  rw [readU_two hcol, Option.bind_some, hlen]

theorem readRecord_one {id rowx colx xfIdx : ℕ} {rest : List UInt8} {cells : List Shown}
    (hid : id ≠ 0x00BD ∧ id ≠ 0x00BE) (hrow : rowx < 2 ^ 16) (hcol : colx < 2 ^ 16)
    (hxf : xfIdx < 2 ^ 16) (h : readOne id rowx colx xfIdx rest = some cells) :
    readRecord id (le 2 rowx ++ (le 2 colx ++ (le 2 xfIdx ++ rest))) = some cells := by
  rw [readRecord_head hrow hcol, if_neg hid.1, if_neg hid.2, readU_two hxf, Option.bind_some, h]

/-- The record of one cell. -/
theorem says_one {c : Cell} {id : ℕ} {rest : List UInt8} {d : Datum} (hc : c.Fits)
    (hid : id < 2 ^ 16 ∧ id ≠ 0x00BD ∧ id ≠ 0x00BE) (hlen : rest.length ≤ 8)
    (hread : readOne id c.rowx c.colx c.xfIdx rest = some [⟨c.rowx, c.colx, c.xfIdx, d⟩])
    (hd : c.content.Shows d) :
    Says (recordBytes id (le 2 c.rowx ++ (le 2 c.colx ++ (le 2 c.xfIdx ++ rest)))) [c] := by
  have hcol : c.colx < 2 ^ 16 := hc.colx.trans (by decide)
  refine Says.single hid.1 ?_ (readRecord_one hid.2 hc.rowx hcol hc.xfIdx hread) ⟨rfl, rfl, rfl, hd⟩
  simp only [List.length_append, length_le]
  omega

/-- The record of a string. -/
theorem says_str {c : Cell} {i : ℕ} (hc : c.Fits) (hi : c.content = .str i) :
    ∃ piece, c.getBiffData = some piece ∧ Says piece [c] := by
  have hrow := hc.rowx
  have hcol := hc.colx
  have hxf := hc.xfIdx
  have hsst := hc.content i hi
  have hpack : c.getBiffData = some (recordBytes 0x00FD
      (le 2 c.rowx ++ (le 2 c.colx ++ (le 2 c.xfIdx ++ le 4 i)))) := by
    rw [Cell.getBiffData, hi]
    dsimp only
    rw [pack_of_fits (by simp [Item.Fits]; omega)]
    simp [recordBytes, Item.bytes]
  have hread := readU_four hsst []
  rw [List.append_nil] at hread
  refine ⟨_, hpack, says_one (d := .str i) hc (by decide) (by simp) ?_ (by rw [hi]; exact rfl)⟩
  simp only [readOne, hread]
  rfl

/-- The record of a blank cell. -/
theorem says_blank {c : Cell} (hc : c.Fits) (hblank : c.content = .blank) :
    ∃ piece, blankRecord c.rowx c.colx c.xfIdx = some piece ∧ Says piece [c] := by
  have hrow := hc.rowx
  have hcol := hc.colx
  have hxf := hc.xfIdx
  have hpack : blankRecord c.rowx c.colx c.xfIdx = some (recordBytes 0x0201
      (le 2 c.rowx ++ (le 2 c.colx ++ (le 2 c.xfIdx ++ [])))) := by
    rw [blankRecord, pack_of_fits (by simp [Item.Fits]; omega)]
    simp [recordBytes, Item.bytes]
  exact ⟨_, hpack, says_one (d := .blank) hc (by decide) (by simp) (if_pos rfl)
    (by rw [hblank]; exact trivial)⟩

/-- The record of a number without a short form. -/
theorem says_number {c : Cell} {num : BitVec 64} (hc : c.Fits) (hnum : c.content = .number num) :
    ∃ piece, numberRecord c num = some piece ∧ Says piece [c] := by
  have hrow := hc.rowx
  have hcol := hc.colx
  have hxf := hc.xfIdx
  have hpack : numberRecord c num = some (recordBytes 0x0203
      (le 2 c.rowx ++ (le 2 c.colx ++ (le 2 c.xfIdx ++ le 8 num.toNat)))) := by
    rw [numberRecord, pack_of_fits (by simp [Item.Fits]; omega)]
    simp [recordBytes, Item.bytes]
  have hread := readU_eight num.isLt []
  rw [List.append_nil] at hread
  refine ⟨_, hpack, says_one (d := .double num) hc (by decide) (by simp) ?_
    (by rw [hnum]; exact rfl)⟩
  rw [readOne, if_neg (by decide), if_neg (by decide), if_pos rfl, hread]
  exact congrArg (fun bits => some [Shown.mk c.rowx c.colx c.xfIdx (.double bits)])
    (BitVec.ofNat_toNat 64 num |>.trans (BitVec.setWidth_eq num))

/-- A short form belongs to a cell: a reader gets the value of the cell from it. -/
structure ShortOf (c : Cell) (d : ℤ × ℕ) : Prop where
  bounds : -2 ^ 31 ≤ d.1 ∧ d.1 < 2 ^ 31
  number : ∃ num q, c.content = .number num ∧ Binary64.value num = some q ∧ rkNumber d.1 = some q
  xfIdx : c.xfIdx = d.2

/-- The record of one short form. -/
theorem says_rk {c : Cell} {d : ℤ × ℕ} (hc : c.Fits) (hd : ShortOf c d) :
    ∃ piece, rkRecord c.rowx c.colx d.2 d.1 = some piece ∧ Says piece [c] := by
  obtain ⟨num, q, hnum, hq, hrk⟩ := hd.number
  have hrow := hc.rowx
  have hcol := hc.colx
  have hxf := hc.xfIdx
  have hbounds := hd.bounds
  have hpack : rkRecord c.rowx c.colx d.2 d.1 = some (recordBytes 0x027E
      (le 2 c.rowx ++ (le 2 c.colx ++ (le 2 c.xfIdx ++ leI 4 d.1)))) := by
    rw [← hd.xfIdx, rkRecord, pack_of_fits (by simp [Item.Fits]; omega)]
    simp [recordBytes, Item.bytes]
  have hread := readI_leI hbounds []
  rw [List.append_nil] at hread
  refine ⟨_, hpack, says_one (d := .short q) hc (by decide) (by simp) ?_ (by rw [hnum]; exact hq)⟩
  rw [readOne, if_neg (by decide), if_neg (by decide), if_neg (by decide), if_pos rfl, hread]
  exact congrArg (fun r => r.bind fun q => some [Shown.mk c.rowx c.colx c.xfIdx (.short q)]) hrk

/-! ### Neighbours -/

/-- Cells of a row, one after the other, without a gap between their columns, as a record for
several has only the first and the last one. -/
def Consecutive (rowx : ℕ) : ℕ → List Cell → Prop
  | _, [] => True
  | colx, c :: cs => c.rowx = rowx ∧ c.colx = colx ∧ Consecutive rowx (colx + 1) cs

theorem Consecutive.concat {rowx colx : ℕ} {cs : List Cell} (h : Consecutive rowx colx cs)
    {c : Cell} (hrow : c.rowx = rowx) (hcol : c.colx = colx + cs.length) :
    Consecutive rowx colx (cs ++ [c]) := by
  induction cs generalizing colx with
  | nil => exact ⟨hrow, hcol, trivial⟩
  | cons c' cs ih =>
    refine ⟨h.1, h.2.1, ih h.2.2 ?_⟩
    rw [hcol, List.length_cons]
    omega

theorem readMulRk_succ {rowx n colx xfIdx : ℕ} {value : ℤ} {q : ℚ} {rest : List UInt8}
    {cells : List Shown} (hxf : xfIdx < 2 ^ 16) (hvalue : -2 ^ 31 ≤ value ∧ value < 2 ^ 31)
    (hq : rkNumber value = some q) (h : readMulRk rowx n (colx + 1) rest = some cells) :
    readMulRk rowx (n + 1) colx (le 2 xfIdx ++ (leI 4 value ++ rest)) =
      some (⟨rowx, colx, xfIdx, .short q⟩ :: cells) := by
  rw [readMulRk, readU_two hxf, Option.bind_eq_bind, Option.bind_some]
  dsimp only
  rw [readI_leI hvalue, Option.bind_eq_bind, Option.bind_some]
  dsimp only
  rw [hq, Option.bind_eq_bind, Option.bind_some, h]
  rfl

/-- Neighbours with short forms are read. -/
theorem readMulRk_ok {rowx : ℕ} {cs : List Cell} {ds : List (ℤ × ℕ)} {colx : ℕ}
    (hcs : Consecutive rowx colx cs) (hfits : ∀ c ∈ cs, c.Fits) (hds : List.Forall₂ ShortOf cs ds)
    (rest : List UInt8) : ∃ vs,
      readMulRk rowx ds.length colx (ds.flatMap (fun d => le 2 d.2 ++ leI 4 d.1) ++ rest) =
        some vs ∧ List.Forall₂ Cell.Shows cs vs := by
  induction hds generalizing colx with
  | nil => exact ⟨[], rfl, List.Forall₂.nil⟩
  | @cons c d cs ds hd _ ih =>
    obtain ⟨num, q, hnum, hq, hrk⟩ := hd.number
    have hxf := (hfits c List.mem_cons_self).xfIdx
    rw [hd.xfIdx] at hxf
    obtain ⟨vs, hread, hvs⟩ := ih hcs.2.2 fun c' hc' => hfits c' (List.mem_cons_of_mem c hc')
    refine ⟨⟨rowx, colx, d.2, .short q⟩ :: vs, ?_,
      List.Forall₂.cons ⟨hcs.1, hcs.2.1, hd.xfIdx, by rw [hnum]; exact hq⟩ hvs⟩
    rw [List.length_cons, List.flatMap_cons, List.append_assoc, List.append_assoc]
    exact readMulRk_succ hxf hd.bounds hrk hread

/-- Blank neighbours are read. -/
theorem readMulBlank_ok {rowx : ℕ} {cs : List Cell} {colx : ℕ} (hcs : Consecutive rowx colx cs)
    (hfits : ∀ c ∈ cs, c.Fits) (hblank : ∀ c ∈ cs, c.content = .blank) (rest : List UInt8) : ∃ vs,
      readMulBlank rowx cs.length colx (cs.flatMap (fun c => le 2 c.xfIdx) ++ rest) = some vs ∧
        List.Forall₂ Cell.Shows cs vs := by
  induction cs generalizing colx with
  | nil => exact ⟨[], rfl, List.Forall₂.nil⟩
  | cons c cs ih =>
    have hxf := (hfits c List.mem_cons_self).xfIdx
    have hc := hblank c List.mem_cons_self
    obtain ⟨vs, hread, hvs⟩ := ih hcs.2.2 (fun c' hc' => hfits c' (List.mem_cons_of_mem c hc'))
      fun c' hc' => hblank c' (List.mem_cons_of_mem c hc')
    refine ⟨⟨rowx, colx, c.xfIdx, .blank⟩ :: vs, ?_,
      List.Forall₂.cons ⟨hcs.1, hcs.2.1, rfl, by rw [hc]; exact trivial⟩ hvs⟩
    rw [List.length_cons, List.flatMap_cons, List.append_assoc, readMulBlank]
    simp only [readU_two hxf, hread, Option.bind_eq_bind, Option.bind_some]

theorem Consecutive.le {rowx colx : ℕ} {cs : List Cell} (h : Consecutive rowx colx cs)
    (hfits : ∀ c ∈ cs, c.Fits) (hcs : cs ≠ []) : colx + cs.length ≤ 256 := by
  induction cs generalizing colx with
  | nil => exact absurd rfl hcs
  | cons c cs ih =>
    have hcol := (hfits c List.mem_cons_self).colx
    rw [h.2.1] at hcol
    cases cs with
    | nil => exact hcol
    | cons c' cs =>
      have hrest := ih h.2.2 (fun c'' hc'' => hfits c'' (List.mem_cons_of_mem c hc''))
        (List.cons_ne_nil c' cs)
      rw [List.length_cons]
      omega

/-- The cells that have been taken together, with their data: cells of one row without a gap, up to
the last column. -/
structure Neighbours {δ : Type} (P : Cell → δ → Prop) (rowx icolx lastcolx : ℕ) (cs : List Cell)
    (ds : List δ) : Prop where
  nonempty : cs ≠ []
  fits : ∀ c ∈ cs, c.Fits
  consecutive : Consecutive rowx icolx cs
  last : lastcolx + 1 = icolx + cs.length
  data : List.Forall₂ P cs ds

/-- The neighbours of the first cell. -/
theorem Neighbours.single {δ : Type} {P : Cell → δ → Prop} {c : Cell} {d : δ} (hc : c.Fits)
    (hd : P c d) : Neighbours P c.rowx c.colx c.colx [c] [d] where
  nonempty := List.cons_ne_nil c []
  fits := by simpa using hc
  consecutive := ⟨rfl, rfl, trivial⟩
  last := rfl
  data := List.Forall₂.cons hd List.Forall₂.nil

/-- One more neighbour. -/
theorem Neighbours.concat {δ : Type} {P : Cell → δ → Prop} {rowx icolx lastcolx : ℕ}
    {cs : List Cell} {ds : List δ} (h : Neighbours P rowx icolx lastcolx cs ds) {c : Cell} {d : δ}
    (hc : c.Fits) (hrow : c.rowx = rowx) (hcol : c.colx = lastcolx + 1) (hd : P c d) :
    Neighbours P rowx icolx (lastcolx + 1) (cs ++ [c]) (ds ++ [d]) where
  nonempty := by simp
  fits c' hc' := by
    rcases List.mem_append.mp hc' with hmem | hmem
    · exact h.fits c' hmem
    · rwa [List.mem_singleton.mp hmem]
  consecutive := h.consecutive.concat hrow (hcol.trans h.last)
  last := by
    rw [List.length_append, List.length_singleton, ← add_assoc, ← h.last]
  data := List.rel_append h.data (List.Forall₂.cons hd List.Forall₂.nil)

/-- What one cell is for the loop. -/
def NextOk {δ : Type} (P : Cell → δ → Prop) (c : Cell) : Option (Next δ) → Prop
  | none => False
  | some .other => True
  | some (.record data) => Says data [c]
  | some (.more d) => P c d

/-- The cells of a row, under their columns, as the dictionary of the row gives them. -/
def IsRow (rowx : ℕ) (items : List (ℕ × Cell)) : Prop :=
  ∀ item ∈ items, item.1 = item.2.colx ∧ item.2.rowx = rowx ∧ item.2.Fits

/-- **The inner loop** takes neighbours, and at most one more cell with its record: a number
without a short form ends it, and has been encoded already. -/
theorem collect_ok {δ : Type} {P : Cell → δ → Prop} {next : Cell → Option (Next δ)}
    (hnext : ∀ c, c.Fits → NextOk P c (next c)) {rowx icolx : ℕ} {items : List (ℕ × Cell)}
    (hrow : IsRow rowx items) {lastcolx : ℕ} {cs : List Cell} {ds : List δ}
    (h : Neighbours P rowx icolx lastcolx cs ds) :
    ∃ ds' lastcolx' packedRecord items' cs' mid,
      collect next lastcolx ds items = some (ds', lastcolx', packedRecord, items') ∧
        Neighbours P rowx icolx lastcolx' cs' ds' ∧ Says packedRecord mid ∧ items' <:+ items ∧
          cs ++ items.map Prod.snd = cs' ++ (mid ++ items'.map Prod.snd) := by
  induction items generalizing lastcolx cs ds with
  | nil => exact ⟨ds, lastcolx, [], [], cs, [], rfl, h, Says.nil, List.suffix_rfl, rfl⟩
  | cons item items ih =>
    obtain ⟨jcolx, jcell⟩ := item
    obtain ⟨hcol, hjrow, hfits⟩ := hrow _ List.mem_cons_self
    dsimp only at hcol hjrow hfits
    rw [collect]
    split
    -- a gap between the columns ends the loop
    · exact ⟨ds, lastcolx, [], _, cs, [], rfl, h, Says.nil, List.suffix_rfl, rfl⟩
    · next hj =>
      have hjcolx : jcolx = lastcolx + 1 := not_ne_iff.mp hj
      have hstep := hnext jcell hfits
      cases hn : next jcell with
      | none =>
        rw [hn] at hstep
        exact hstep.elim
      | some n =>
        rw [hn] at hstep
        cases n with
        | other => exact ⟨ds, lastcolx, [], _, cs, [], rfl, h, Says.nil, List.suffix_rfl, rfl⟩
        -- the cell has a record of its own, which the loop packs before it ends
        | record data =>
          exact ⟨ds, lastcolx, data, items, cs, [jcell], rfl, h, hstep, List.suffix_cons _ _, rfl⟩
        -- one neighbour more, and the loop goes on behind it
        | more d =>
          subst hjcolx
          obtain ⟨ds', lastcolx', packedRecord, items', cs', mid, hcollect, hcs', hmid, hsuffix,
            hall⟩ := ih (fun item hitem => hrow item (List.mem_cons_of_mem _ hitem))
              (h.concat hfits hjrow hcol.symm hstep)
          refine ⟨ds', lastcolx', packedRecord, items', cs', mid, hcollect, hcs', hmid,
            hsuffix.trans (List.suffix_cons _ _), ?_⟩
          rw [← hall, List.map_cons, List.append_assoc]
          rfl

/-- The bytes of a record for neighbours. -/
theorem pack_mul {id len rowx icolx lastcolx : ℕ} {fs : List Item} (hfs : ∀ f ∈ fs, f.Fits)
    (hid : id < 2 ^ 16) (hlen : (fs.flatMap Item.bytes).length + 6 = len) (hlen' : len < 2 ^ 16)
    (hrow : rowx < 2 ^ 16) (hicol : icolx < 2 ^ 16) (hlast : lastcolx < 2 ^ 16) :
    pack ([.H id, .H len, .H rowx, .H icolx] ++ fs ++ [.H lastcolx]) = some (recordBytes id
      (le 2 rowx ++ (le 2 icolx ++ (fs.flatMap Item.bytes ++ le 2 lastcolx)))) := by
  rw [pack_of_fits]
  · have hdata : (le 2 rowx ++ (le 2 icolx ++ (fs.flatMap Item.bytes ++ le 2 lastcolx))).length =
        len := by
      simp only [List.length_append, length_le]
      omega
    rw [recordBytes, hdata]
    simp [Item.bytes]
  · intro f hf
    rcases List.mem_append.mp hf with hf | hf
    · rcases List.mem_append.mp hf with hf | hf
      · simp only [List.mem_cons, List.not_mem_nil, or_false] at hf
        rcases hf with rfl | rfl | rfl | rfl
        · exact hid
        · exact hlen'
        · exact hrow
        · exact hicol
      · exact hfs f hf
    · rw [List.mem_singleton.mp hf]
      exact hlast

/-- Neighbours that are one cell. -/
theorem Neighbours.eq_single {δ : Type} {P : Cell → δ → Prop} {rowx icolx : ℕ} {cs : List Cell}
    {ds : List δ} (h : Neighbours P rowx icolx icolx cs ds) :
    ∃ c d, cs = [c] ∧ ds = [d] ∧ c.rowx = rowx ∧ c.colx = icolx ∧ c.Fits ∧ P c d := by
  have hlen : cs.length = 1 := by
    have hlast := h.last
    omega
  obtain ⟨c, rfl⟩ := List.length_eq_one_iff.mp hlen
  obtain ⟨d, rest, hd, hrest, hds⟩ := List.forall₂_cons_left_iff.mp h.data
  rw [List.forall₂_nil_left_iff.mp hrest] at hds
  exact ⟨c, d, rfl, hds, h.consecutive.1, h.consecutive.2.1, h.fits c List.mem_cons_self, hd⟩

/-- The bounds of neighbours. -/
theorem Neighbours.bounds {δ : Type} {P : Cell → δ → Prop} {rowx icolx lastcolx : ℕ}
    {cs : List Cell} {ds : List δ} (h : Neighbours P rowx icolx lastcolx cs ds) :
    rowx < 2 ^ 16 ∧ icolx ≤ lastcolx ∧ lastcolx < 256 ∧ ds.length = lastcolx - icolx + 1 := by
  have hle := h.consecutive.le h.fits h.nonempty
  have hlast := h.last
  have hlen := h.data.length_eq
  obtain ⟨c, cs, rfl⟩ := List.exists_cons_of_ne_nil h.nonempty
  have hrow := (h.fits c List.mem_cons_self).rowx
  rw [h.consecutive.1] at hrow
  rw [List.length_cons] at hle hlast hlen
  exact ⟨hrow, by omega, by omega, by omega⟩

/-- The data of short forms. -/
theorem bytes_shorts (ds : List (ℤ × ℕ)) :
    (ds.flatMap fun d => [Item.H d.2, Item.l d.1]).flatMap Item.bytes =
      ds.flatMap fun d => le 2 d.2 ++ leI 4 d.1 := by
  rw [List.flatMap_assoc]
  exact List.flatMap_congr fun d _ => by simp [Item.bytes]

theorem length_shorts (ds : List (ℤ × ℕ)) :
    (ds.flatMap fun d => le 2 d.2 ++ leI 4 d.1).length = 6 * ds.length := by
  induction ds with
  | nil => rfl
  | cons d ds ih =>
    rw [List.flatMap_cons, List.length_append, ih, List.length_append, length_le, length_leI,
      List.length_cons]
    omega

theorem fits_shorts {cs : List Cell} {ds : List (ℤ × ℕ)} (hfits : ∀ c ∈ cs, c.Fits)
    (h : List.Forall₂ ShortOf cs ds) :
    ∀ f ∈ ds.flatMap fun d => [Item.H d.2, Item.l d.1], f.Fits := by
  induction h with
  | nil => simp
  | @cons c d cs ds hd _ ih =>
    intro f hf
    rcases List.mem_append.mp hf with hf | hf
    · simp only [List.mem_cons, List.not_mem_nil, or_false] at hf
      rcases hf with rfl | rfl
      · exact hd.xfIdx ▸ (hfits c List.mem_cons_self).xfIdx
      · exact hd.bounds
    · exact ih (fun c' hc' => hfits c' (List.mem_cons_of_mem c hc')) f hf

/-- The record of numbers. -/
theorem says_rks {rowx icolx lastcolx : ℕ} {cs : List Cell} {ds : List (ℤ × ℕ)}
    (h : Neighbours ShortOf rowx icolx lastcolx cs ds) :
    ∃ piece, rkPieces rowx icolx lastcolx ds = some piece ∧ Says piece cs := by
  rw [rkPieces]
  split
  · next hsingle =>
    subst hsingle
    obtain ⟨c, d, rfl, rfl, rfl, rfl, hc, hd⟩ := h.eq_single
    exact says_rk hc hd
  · obtain ⟨hrow, hle, hlast, hlen⟩ := h.bounds
    have hlength := length_shorts ds
    obtain ⟨vs, hread, hvs⟩ := readMulRk_ok h.consecutive h.fits h.data (le 2 lastcolx)
    have hdata : (le 2 rowx ++ (le 2 icolx ++
        (ds.flatMap (fun d => le 2 d.2 ++ leI 4 d.1) ++ le 2 lastcolx))).length =
          6 * ds.length + 6 := by
      simp only [List.length_append, length_le, hlength]
      omega
    refine ⟨_, pack_mul (fits_shorts h.fits h.data) (by decide)
      (by rw [bytes_shorts, hlength, hlen]) (by omega) hrow (by omega) (by omega),
      vs, Encodes.single (by decide) ?_ ?_, hvs⟩
    · rw [bytes_shorts, hdata]
      omega
    · rw [bytes_shorts, readRecord_head hrow (by omega), if_pos rfl, List.length_append, length_le,
        Nat.add_sub_cancel, hlength, Nat.mul_div_cancel_left _ (by decide), hread]

/-- A blank cell has a style. -/
def BlankOf (c : Cell) (xfIdx : ℕ) : Prop := c.content = .blank ∧ c.xfIdx = xfIdx

theorem blankOf_map {cs : List Cell} {ds : List ℕ} (h : List.Forall₂ BlankOf cs ds) :
    (∀ c ∈ cs, c.content = .blank) ∧ ds = cs.map Cell.xfIdx := by
  induction h with
  | nil => exact ⟨by simp, rfl⟩
  | cons hd _ ih =>
    exact ⟨List.forall_mem_cons.mpr ⟨hd.1, ih.1⟩, by rw [List.map_cons, hd.2, ih.2]⟩

/-- The record of blank cells. -/
theorem says_blanks {rowx icolx lastcolx : ℕ} {cs : List Cell} {ds : List ℕ}
    (h : Neighbours BlankOf rowx icolx lastcolx cs ds) :
    ∃ piece, blankPieces rowx icolx lastcolx ds = some piece ∧ Says piece cs := by
  rw [blankPieces]
  split
  · next hsingle =>
    subst hsingle
    obtain ⟨c, d, rfl, rfl, rfl, rfl, hc, hd⟩ := h.eq_single
    obtain ⟨piece, hpack, hsays⟩ := says_blank hc hd.1
    exact ⟨piece, by rw [← hd.2]; exact hpack, hsays⟩
  · obtain ⟨hrow, hle, hlast, hlen⟩ := h.bounds
    obtain ⟨hblank, rfl⟩ := blankOf_map h.data
    have hbytes : ((cs.map Cell.xfIdx).map Item.H).flatMap Item.bytes =
        cs.flatMap fun c => le 2 c.xfIdx := by
      rw [List.map_map, List.flatMap_map]
      rfl
    have hlength : (cs.flatMap fun c => le 2 c.xfIdx).length = 2 * cs.length := by
      simp [List.length_flatMap, mul_comm]
    rw [List.length_map] at hlen
    -- the reader takes the number of cells from the length of the record
    obtain ⟨vs, hread, hvs⟩ := readMulBlank_ok h.consecutive h.fits hblank (le 2 lastcolx)
    have hdata : (le 2 rowx ++ (le 2 icolx ++
        (cs.flatMap (fun c => le 2 c.xfIdx) ++ le 2 lastcolx))).length = 2 * cs.length + 6 := by
      simp only [List.length_append, length_le, hlength]
      omega
    have hfits : ∀ f ∈ (cs.map Cell.xfIdx).map Item.H, f.Fits := by
      intro f hf
      obtain ⟨d, hd, rfl⟩ := List.mem_map.mp hf
      obtain ⟨c, hc, rfl⟩ := List.mem_map.mp hd
      exact (h.fits c hc).xfIdx
    refine ⟨_, pack_mul hfits (by decide) (by rw [hbytes, hlength, hlen]) (by omega) hrow
      (by omega) (by omega), vs, Encodes.single (by decide) ?_ ?_, hvs⟩
    · rw [hbytes, hdata]
      omega
    · rw [hbytes, readRecord_head hrow (by omega), if_neg (by decide), if_pos rfl,
        List.length_append, length_le, Nat.add_sub_cancel, hlength,
        Nat.mul_div_cancel_left _ (by decide), hread]

/-! ### A row -/

theorem getEncodedData_ok {c : Cell} {num : BitVec 64} (hc : c.Fits)
    (hnum : c.content = .number num) :
    (∃ value, getEncodedData c num = some (.rk value) ∧ ShortOf c (value, c.xfIdx)) ∨
      ∃ data, getEncodedData c num = some (.record data) ∧ Says data [c] := by
  rcases getEncodedData_cases c num with ⟨value, hvalue, hshort⟩ | hrecord
  · obtain ⟨q, hq⟩ : ∃ q, Binary64.value num = some q := by
      cases hq : Binary64.value num with
      | none =>
        rw [getEncodedData, hq] at hvalue
        obtain ⟨data, -, hdata⟩ := Option.map_eq_some_iff.mp hvalue
        nomatch hdata
      | some q => exact ⟨q, rfl⟩
    exact Or.inl ⟨value, hvalue, hshort.bounds, ⟨num, q, hnum, hq, hshort.number.trans hq⟩, rfl⟩
  · obtain ⟨piece, hpiece, hsays⟩ := says_number hc hnum
    exact Or.inr ⟨piece, by rw [hrecord, hpiece]; rfl, hsays⟩

theorem nextNumber_ok (c : Cell) (hc : c.Fits) : NextOk ShortOf c (nextNumber c) := by
  rw [nextNumber]
  split
  · next num hnum =>
    rcases getEncodedData_ok hc hnum with ⟨value, hvalue, hshort⟩ | ⟨data, hdata, hsays⟩
    · rw [hvalue]
      exact hshort
    · rw [hdata]
      exact hsays
  · exact trivial

theorem nextBlank_ok (c : Cell) (_ : c.Fits) : NextOk BlankOf c (nextBlank c) := by
  rw [nextBlank]
  split
  · next hblank => exact ⟨hblank, rfl⟩
  · exact trivial

/-- The record of a cell says what is in it. -/
theorem says_getBiffData {c : Cell} (hc : c.Fits) :
    ∃ piece, c.getBiffData = some piece ∧ Says piece [c] := by
  cases hcontent : c.content with
  | str i => exact says_str hc hcontent
  | blank =>
    obtain ⟨piece, hpiece, hsays⟩ := says_blank hc hcontent
    exact ⟨piece, by rw [Cell.getBiffData, hcontent]; exact hpiece, hsays⟩
  | number num =>
    rcases getEncodedData_ok hc hcontent with ⟨value, hvalue, hshort⟩ | ⟨data, hdata, hsays⟩
    · obtain ⟨piece, hpiece, hsays⟩ := says_rk hc hshort
      exact ⟨piece, by rw [Cell.getBiffData, hcontent]; dsimp only; rw [hvalue]; exact hpiece,
        hsays⟩
    · exact ⟨data, by rw [Cell.getBiffData, hcontent]; dsimp only; rw [hdata]; rfl, hsays⟩

/-- The first loop, over what the inner loop has left. -/
theorem getCellsBiffDataMul_says {rowx fuel : ℕ} {items : List (ℕ × Cell)}
    (hrow : IsRow rowx items) (hfuel : items.length ≤ fuel) :
    ∃ bs, getCellsBiffDataMul rowx fuel items = some bs ∧ Says bs (items.map Prod.snd) := by
  induction fuel generalizing items with
  | zero =>
    rw [List.length_eq_zero_iff.mp (Nat.le_zero.mp hfuel)]
    exact ⟨[], by rw [getCellsBiffDataMul], Says.nil⟩
  | succ fuel ih =>
    cases items with
    | nil => exact ⟨[], by rw [getCellsBiffDataMul], Says.nil⟩
    | cons item items =>
      obtain ⟨icolx, icell⟩ := item
      obtain ⟨hcol, rfl, hfits⟩ := hrow _ List.mem_cons_self
      dsimp only at hcol hfits
      subst hcol
      have hrow' : IsRow icell.rowx items := fun item hitem =>
        hrow item (List.mem_cons_of_mem _ hitem)
      have hfuel' : items.length ≤ fuel := Nat.le_of_succ_le_succ hfuel
      -- what is left after neighbours is shorter
      have hleft : ∀ items', items' <:+ items → ∃ bs,
          getCellsBiffDataMul icell.rowx fuel items' = some bs ∧ Says bs (items'.map Prod.snd) :=
        fun items' hsuffix => ih (fun item hitem => hrow' item (hsuffix.subset hitem))
          (hsuffix.length_le.trans hfuel')
      rw [getCellsBiffDataMul]
      cases hcontent : icell.content with
      | str i =>
        obtain ⟨piece, hpiece, hsays⟩ := says_str hfits hcontent
        obtain ⟨pieces, hpieces, hothers⟩ := hleft items List.suffix_rfl
        dsimp only
        rw [hpiece, hpieces]
        exact ⟨_, rfl, hsays.append hothers⟩
      | blank =>
        obtain ⟨ds, lastcolx, packedRecord, items', cs, mid, hcollect, hcs, hmid, hsuffix, hall⟩ :=
          collect_ok nextBlank_ok hrow' (Neighbours.single (P := BlankOf) hfits ⟨hcontent, rfl⟩)
        obtain ⟨piece, hpiece, hsays⟩ := says_blanks hcs
        obtain ⟨pieces, hpieces, hothers⟩ := hleft items' hsuffix
        dsimp only
        rw [hcollect, Option.bind_eq_bind, Option.bind_some]
        dsimp only
        rw [hpiece, hpieces, List.map_cons, ← List.singleton_append, hall]
        exact ⟨_, rfl, by rw [List.append_assoc]; exact hsays.append (hmid.append hothers)⟩
      | number num =>
        rcases getEncodedData_ok hfits hcontent with ⟨value, hvalue, hshort⟩ | ⟨data, hdata, hsays⟩
        · obtain ⟨ds, lastcolx, packedRecord, items', cs, mid, hcollect, hcs, hmid, hsuffix,
            hall⟩ := collect_ok nextNumber_ok hrow' (Neighbours.single (P := ShortOf) hfits hshort)
          obtain ⟨piece, hpiece, hsays⟩ := says_rks hcs
          obtain ⟨pieces, hpieces, hothers⟩ := hleft items' hsuffix
          dsimp only
          rw [hvalue, Option.bind_eq_bind, Option.bind_some]
          dsimp only
          rw [hcollect, Option.bind_eq_bind, Option.bind_some]
          dsimp only
          rw [hpiece, hpieces, List.map_cons, ← List.singleton_append, hall]
          exact ⟨_, rfl, by rw [List.append_assoc]; exact hsays.append (hmid.append hothers)⟩
        · obtain ⟨pieces, hpieces, hothers⟩ := hleft items List.suffix_rfl
          dsimp only
          rw [hdata, Option.bind_eq_bind, Option.bind_some]
          dsimp only
          rw [hpieces]
          exact ⟨_, rfl, hsays.append hothers⟩

/-- The records of cells, one by one. -/
theorem plainBiffData_says {items : List (ℕ × Cell)} (hfits : ∀ item ∈ items, item.2.Fits) :
    ∃ bs, plainBiffData items = some bs ∧ Says bs (items.map Prod.snd) := by
  induction items with
  | nil => exact ⟨[], rfl, Says.nil⟩
  | cons item items ih =>
    obtain ⟨piece, hpiece, hsays⟩ := says_getBiffData (hfits item List.mem_cons_self)
    obtain ⟨bs, hbs, hothers⟩ := ih fun item' hitem' =>
      hfits item' (List.mem_cons_of_mem item hitem')
    refine ⟨piece ++ bs, ?_, hsays.append hothers⟩
    rw [plainBiffData, hpiece, hbs]
    rfl

/-- **Taking neighbours together loses nothing**: what is read from the records of a row is what
is in its cells, and so is what is read from their own records.  Of a number in a short form the
value is read: a zero loses its sign in it. -/
theorem getCellsBiffDataMul_right {rowx : ℕ} {items : List (ℕ × Cell)} (hrow : IsRow rowx items) :
    ∃ bs vs plain vs', getCellsBiffDataMul rowx items.length items = some bs ∧
      readCells bs = some vs ∧ List.Forall₂ Cell.Shows (items.map Prod.snd) vs ∧
        plainBiffData items = some plain ∧ readCells plain = some vs' ∧
          List.Forall₂ Cell.Shows (items.map Prod.snd) vs' := by
  obtain ⟨bs, hbs, vs, hencodes, hshows⟩ := getCellsBiffDataMul_says hrow le_rfl
  obtain ⟨plain, hplain, vs', hencodes', hshows'⟩ := plainBiffData_says fun item hitem =>
    (hrow item hitem).2.2
  exact ⟨bs, vs, plain, vs', hbs, hencodes.readCells, hshows, hplain, hencodes'.readCells, hshows'⟩

/-- The row of a time, twelve, one and a half, and two blank cells. -/
def sampleRow : List (ℕ × Cell) :=
  [(0, ⟨3, 0, 15, .str 7⟩), (1, ⟨3, 1, 15, .number 0x4028000000000000⟩),
    (2, ⟨3, 2, 15, .number 0x3FF8000000000000⟩), (3, ⟨3, 3, 15, .blank⟩), (4, ⟨3, 4, 15, .blank⟩)]

theorem sampleRow_isRow : IsRow 3 sampleRow := by
  intro item hitem
  simp only [sampleRow, List.mem_cons, List.not_mem_nil, or_false] at hitem
  rcases hitem with rfl | rfl | rfl | rfl | rfl
  · exact ⟨rfl, rfl, by decide, by decide, by decide, by rintro i ⟨⟩; decide⟩
  all_goals exact ⟨rfl, rfl, by decide, by decide, by decide, nofun⟩

theorem getCellsBiffDataMul_right_sample : IsRow 3 sampleRow ∧
    ∃ bs vs plain vs', getCellsBiffDataMul 3 sampleRow.length sampleRow = some bs ∧
      readCells bs = some vs ∧ List.Forall₂ Cell.Shows (sampleRow.map Prod.snd) vs ∧
        plainBiffData sampleRow = some plain ∧ readCells plain = some vs' ∧
          List.Forall₂ Cell.Shows (sampleRow.map Prod.snd) vs' :=
  ⟨sampleRow_isRow, getCellsBiffDataMul_right sampleRow_isRow⟩

end LinuxNote.Xls
