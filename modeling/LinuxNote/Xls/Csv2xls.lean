import LinuxNote.Base.Dict
import LinuxNote.Xls.SharedStrings
import Mathlib.Data.List.Sigma

/-!
# From CSV files to a workbook

`csv2xls.py` writes the fields of each file to the cells of a sheet, as numbers where they are such,
and the texts go to the table that the sheets have in common.  The sheet has the name of the file only
up to the first dot, so that two files can ask for the same sheet, which ends the script.

## Main definitions

* `Workbook`, `insertCell`, `write` — the cells of the sheets, with the table of the texts.
* `addSheet`, `addFile`, `csv2xls` — the sheets, and the loops over the files, the rows and the fields.
* `Refines` — a workbook has in its cells what a dictionary of labels says.
* `SheetsFit`, `CsvFits` — files for which the loops go through, and whose texts can be saved.

## Main results

* `writes_right` — **a cell has what was written to it last**, and the table counts the cells, in any
  sequence of writes.
* `isSome_csv2xls` — when the script gets a workbook.
* `csv2xls_right` — **what is in the files is read from the records** of the rows and of the table.
-/

namespace LinuxNote.Xls

/-! ### The workbook -/

/-- What `csv2xls` writes to a cell: the text of a field, or the number that `float` makes of it. -/
inductive Label
  | text (s : List Char)
  | number (num : BitVec 64)
deriving DecidableEq

/-- A cell of the workbook: the number of the sheet, the row and the column.  The sheets have their
own dictionaries, of which this is the union. -/
abbrev Place := ℕ × ℕ × ℕ

/-- A workbook whose cells can, or cannot, be written again: the table of the texts of all its
sheets, and the cells that have been written. -/
structure Workbook where
  table : StringTable
  cells : List (Place × Content)
  cellOverwriteOk : Bool

/-- A workbook with nothing in its cells and no texts.  A sheet of `csv2xls` does not let its cells
be written again, as that is what `add_sheet` says by default. -/
def Workbook.new (cellOverwriteOk : Bool) : Workbook := ⟨⟨[], [], 0, rfl⟩, [], cellOverwriteOk⟩

/-- `insert_cell`: the text of the previous cell is given back to the table.  A cell that must not
be written again is an error, after the new text has been counted. -/
def Workbook.insertCell (w : Workbook) (place : Place) (cell : Content) : Option Workbook :=
  match Dict.get place w.cells with
  | none => some { w with cells := Dict.set place cell w.cells }
  | some prevCell =>
    if w.cellOverwriteOk then
      match prevCell with
      | .str idx => do
        let table ← w.table.delStr idx
        some { w with table := table, cells := Dict.set place cell w.cells }
      | _ => some { w with cells := Dict.set place cell w.cells }
    else none

/-- `write`, with the checks of the row and of the column.  The empty text is a blank cell, and has
no entry in the table of texts. -/
def Workbook.write (w : Workbook) (place : Place) (label : Label) : Option Workbook :=
  if 65535 < place.2.1 ∨ 255 < place.2.2 then none
  else
    match label with
    | .text [] => w.insertCell place .blank
    | .text s =>
      let (idx, table) := w.table.addStr s
      { w with table := table }.insertCell place (.str idx)
    | .number num => w.insertCell place (.number num)

/-- Some writes, one after the other.  An error ends them, and there is no workbook. -/
def Workbook.writes (w : Workbook) (ops : List (Place × Label)) : Option Workbook :=
  ops.foldlM (fun w op => w.write op.1 op.2) w

/-! ### The script -/

/-- The label of a field: a number when `float` takes it, and else the text, as the script catches
the error of `float`. -/
def labelOf (float : List Char → Option (BitVec 64)) (col : List Char) : Label :=
  match float col with
  | some num => .number num
  | none => .text col

/-- A file that `glob` finds, with the rows of fields that `csv.reader` makes of it. -/
structure CsvFile where
  name : List Char
  rows : List (List (List Char))

/-- `fname[0]`, which should be the name of the sheet: the name of the file up to the first dot. -/
def CsvFile.sheetName (file : CsvFile) : List Char := file.name.takeWhile (· != '.')

/-- `valid_sheet_name`: not empty, without an apostrophe at the start, of at most 31 characters,
and with none of those which mean something in a reference to a cell. -/
def validSheetName (sheetName : List Char) : Bool :=
  !sheetName.isEmpty && sheetName.take 1 != "'".toList && decide (sheetName.length ≤ 31) &&
    sheetName.all fun c => !"[]:\\?/*\x00".toList.contains c

/-- `add_sheet`: the name is taken for ASCII, and must not be that of a sheet already, whether the
letters are small or capital. -/
def addSheet (names : List (List Char)) (sheetName : List Char) : Option (List (List Char)) :=
  if (sheetName.all fun c => decide (c.toNat < 0x80)) && validSheetName sheetName then
    if names.any fun name => name.map Char.toLower == sheetName.map Char.toLower then none
    else some (names ++ [sheetName])
  else none

/-- A workbook with the names of its sheets, in the order in which they were added. -/
structure Sheets where
  names : List (List Char)
  workbook : Workbook

/-- The two inner loops, over the rows and over the fields of a row: what is written to a sheet. -/
def sheetWrites (float : List Char → Option (BitVec 64)) (sheet : ℕ)
    (rows : List (List (List Char))) : List (Place × Label) :=
  rows.zipIdx.flatMap fun row => row.1.zipIdx.map fun col =>
    ((sheet, row.2, col.2), labelOf float col.1)

/-- One turn of the loop over the files: a sheet is added and filled.  There is no workbook when
the name or one of the writes is refused. -/
def addFile (float : List Char → Option (BitVec 64)) (b : Sheets) (file : CsvFile) :
    Option Sheets := do
  let names ← addSheet b.names file.sheetName
  let workbook ← b.workbook.writes (sheetWrites float b.names.length file.rows)
  some ⟨names, workbook⟩

/-- The workbook of the script.  Without a sheet `save` fails, as none can be the active one. -/
def csv2xls (float : List Char → Option (BitVec 64)) (files : List CsvFile) : Option Sheets := do
  let b ← files.foldlM (addFile float) ⟨[], Workbook.new false⟩
  if b.names.isEmpty then none else some b

/-- What the loops write, when all sheets have been added behind so many others.  No place is in it
twice. -/
def csvWrites (float : List Char → Option (BitVec 64)) (files : List CsvFile) (sheet : ℕ) :
    List (Place × Label) :=
  (files.zipIdx sheet).flatMap fun file => sheetWrites float file.2 file.1.rows

/-- The records of the texts, which are packed as ASCII, as the workbook has no other encoding.  A
text with another character is an error when the file is saved. -/
def Workbook.sstRecords (w : Workbook) : Option (List UInt8) :=
  if ∀ s ∈ w.table.texts, CodesBelow 0x80 s then w.table.getBiffRecord else none

/-- The cells of a row, in the order of the columns, all of them in one style. -/
def Workbook.rowItems (w : Workbook) (xfIdx sheet rowx : ℕ) : List (ℕ × Cell) :=
  ((w.cells.filter fun entry => entry.1.1 = sheet ∧ entry.1.2.1 = rowx).map fun entry =>
    (entry.1.2.2, ⟨rowx, entry.1.2.2, xfIdx, entry.2⟩)).mergeSort fun a b => a.1 ≤ b.1

/-- The field of a place, when the files have one: it is what the specification says of a cell. -/
def field (files : List CsvFile) (place : Place) : Option (List Char) := do
  let file ← files[place.1]?
  let row ← file.rows[place.2.1]?
  row[place.2.2]?

/-! ### The table counts the cells -/

/-- Each text is there once, with the number of its cells, and the number of calls is that of the
cells with a text. -/
structure Counts (t : StringTable) (count : ℕ → ℕ) (calls : ℕ) : Prop where
  nodup : t.strs.Nodup
  tally : ∀ i < t.strs.length, t.tally[i]? = some (count i)
  other : ∀ i, t.strs.length ≤ i → count i = 0
  calls : t.addCalls = calls

/-- One more cell has a text. -/
theorem addStr_ok {t : StringTable} {count : ℕ → ℕ} {calls : ℕ} (h : Counts t count calls)
    (s : List Char) :
    Counts (t.addStr s).2 (fun i => count i + if (t.addStr s).1 = i then 1 else 0) (calls + 1) ∧
      (t.addStr s).2.strs[(t.addStr s).1]? = some s ∧
        ((t.addStr s).2.strs = t.strs ∨ (t.addStr s).2.strs = t.strs ++ [s]) := by
  have hlength := t.sameLength
  rw [StringTable.addStr]
  cases hidx : t.strs.idxOf? s with
  -- a new text is the last one, and has one cell
  | none =>
    have hs : s ∉ t.strs := List.idxOf?_eq_none_iff.mp hidx
    dsimp only
    refine ⟨⟨?_, fun i hi => ?_, fun i hi => ?_, by rw [h.calls]⟩, List.getElem?_concat_length,
      Or.inr rfl⟩
    · exact List.nodup_append.mpr ⟨h.nodup, List.nodup_singleton s, fun a ha b hb => by
        rw [List.mem_singleton.mp hb]
        rintro rfl
        exact hs ha⟩
    · rw [List.length_append, List.length_singleton] at hi
      by_cases hlast : t.strs.length = i
      · rw [if_pos hlast, h.other i (by omega), ← hlast, ← hlength, List.getElem?_concat_length]
      · rw [if_neg hlast, List.getElem?_append_left (by omega), h.tally i (by omega), add_zero]
    · rw [List.length_append, List.length_singleton] at hi
      rw [if_neg (by omega), h.other i (by omega)]
  -- of a text that is there, one cell more is counted
  | some idx =>
    obtain ⟨hlt, hs, -⟩ := List.idxOf?_eq_some_iff.mp hidx
    dsimp only
    refine ⟨⟨h.nodup, fun i hi => ?_, fun i hi => ?_, by rw [h.calls]⟩, ?_, Or.inl rfl⟩
    · rw [List.getElem?_modify, h.tally i hi, Option.map_eq_map, Option.map_some]
      split_ifs <;> rfl
    · have hne : idx ≠ i := (hlt.trans_le hi).ne
      rw [if_neg hne, h.other i hi]
    · rw [List.getElem?_eq_getElem hlt, hs]

/-- A cell gives its text back. -/
theorem delStr_ok {t : StringTable} {count : ℕ → ℕ} {calls : ℕ} (h : Counts t count calls) (idx : ℕ)
    (hidx : 0 < count idx) :
    ∃ t', t.delStr idx = some t' ∧ t'.strs = t.strs ∧
      Counts t' (fun i => count i - if idx = i then 1 else 0) (calls - 1) := by
  have hlt : idx < t.strs.length := by
    by_contra hge
    rw [h.other idx (by omega)] at hidx
    exact absurd hidx (by decide)
  refine ⟨⟨t.strs, t.tally.modify idx (· - 1), t.addCalls - 1, by simp [t.sameLength]⟩, ?_, rfl,
    ⟨h.nodup, fun i hi => ?_, fun i hi => by rw [h.other i hi, Nat.zero_sub], by rw [h.calls]⟩⟩
  · rw [StringTable.delStr, h.tally idx hlt, Option.bind_eq_bind, Option.bind_some, if_pos hidx]
  · rw [List.getElem?_modify, h.tally i hi, Option.map_eq_map, Option.map_some]
    split_ifs <;> rfl

/-! ### Writes -/

/-- How many cells have a text.  `tally` is to be this number. -/
def cellCount (cells : List (Place × Content)) (i : ℕ) : ℕ :=
  cells.countP fun entry => decide (entry.2 = .str i)

/-- A content is a text of the table, and neither a number nor blank. -/
def Content.isStr : Content → Bool
  | .str _ => true
  | _ => false

@[simp] theorem isStr_str (i : ℕ) : (Content.str i).isStr = true := rfl

/-- How many cells have texts.  `add_calls` is to be this number. -/
def cellCalls (cells : List (Place × Content)) : ℕ := cells.countP fun entry => entry.2.isStr

/-- The table counts the cells, which are in the bounds of a sheet.  It is what every write keeps,
and why `del_str` never fails. -/
structure Workbook.Inv (w : Workbook) : Prop where
  counts : Counts w.table (cellCount w.cells) (cellCalls w.cells)
  keys : (w.cells.map Prod.fst).Nodup
  bounds : ∀ entry ∈ w.cells, entry.1.2.1 ≤ 65535 ∧ entry.1.2.2 ≤ 255

/-- A content says what a label says, with the texts of the table.  An empty text is a blank cell.
-/
def ContentOf (strs : List (List Char)) : Label → Content → Prop
  | .text s, .blank => s = []
  | .text s, .str i => strs[i]? = some s
  | .number num, .number num' => num = num'
  | _, _ => False

theorem ContentOf.mono {strs strs' : List (List Char)} (h : strs <+: strs') {label : Label}
    {cell : Content} (hc : ContentOf strs label cell) : ContentOf strs' label cell := by
  cases label with
  | text s =>
    cases cell with
    | str i =>
      obtain ⟨others, rfl⟩ := h
      have hlt := (List.getElem?_eq_some_iff.mp hc).1
      exact (List.getElem?_append_left hlt).trans hc
    | blank => exact hc
    | number num => exact hc
  | number num => cases cell <;> exact hc

/-- A workbook has in its cells what a dictionary of labels says.  The dictionary is the purpose of
the workbook, without any table of texts. -/
structure Refines (w : Workbook) (labels : List (Place × Label)) : Prop where
  inv : w.Inv
  cells : ∀ place, Option.Rel (ContentOf w.table.strs) (Dict.get place labels)
    (Dict.get place w.cells)

/-- A change takes the old content away from the counts, and adds the new one. -/
theorem cellCount_set (place : Place) (cell : Content) (cells : List (Place × Content)) (i : ℕ) :
    cellCount (Dict.set place cell cells) i +
        (if Dict.get place cells = some (.str i) then 1 else 0) =
      cellCount cells i + (if cell = .str i then 1 else 0) := by
  have h := Dict.countP_set (fun c => decide (c = Content.str i)) place cell cells
  simp only [decide_eq_true_eq] at h
  rw [cellCount, cellCount, ← h]
  cases Dict.get place cells <;> simp

theorem cellCalls_set (place : Place) (cell : Content) (cells : List (Place × Content)) :
    cellCalls (Dict.set place cell cells) +
        (if (Dict.get place cells).any Content.isStr then 1 else 0) =
      cellCalls cells + (if cell.isStr then 1 else 0) :=
  Dict.countP_set Content.isStr place cell cells

/-- A text that a cell has is counted. -/
theorem cellCount_pos {place : Place} {idx : ℕ} {cells : List (Place × Content)}
    (h : Dict.get place cells = some (.str idx)) : 0 < cellCount cells idx :=
  List.countP_pos_iff.mpr ⟨(place, .str idx), Dict.mem_of_get h, decide_eq_true rfl⟩

theorem Counts.congr {t : StringTable} {count count' : ℕ → ℕ} {calls calls' : ℕ}
    (h : Counts t count calls) (hcount : ∀ i, count' i = count i) (hcalls : calls' = calls) :
    Counts t count' calls' := by
  rwa [show count' = count from funext hcount, hcalls]

/-- A cell is written: the table that has its text already counts the cells. -/
theorem insertCell_ok {w : Workbook} {place : Place} (cell : Content)
    (hplace : place.2.1 ≤ 65535 ∧ place.2.2 ≤ 255) (hkeys : (w.cells.map Prod.fst).Nodup)
    (hbounds : ∀ entry ∈ w.cells, entry.1.2.1 ≤ 65535 ∧ entry.1.2.2 ≤ 255)
    (hcounts : Counts w.table (fun i => cellCount w.cells i + if cell = .str i then 1 else 0)
      (cellCalls w.cells + if cell.isStr then 1 else 0))
    (hfree : (Dict.get place w.cells).isSome → w.cellOverwriteOk = true) :
    ∃ w', w.insertCell place cell = some w' ∧ w'.Inv ∧ w'.table.strs = w.table.strs ∧
      w'.cells = Dict.set place cell w.cells ∧ w'.cellOverwriteOk = w.cellOverwriteOk := by
  have hbounds' : ∀ entry ∈ Dict.set place cell w.cells,
      entry.1.2.1 ≤ 65535 ∧ entry.1.2.2 ≤ 255 := fun entry hentry => by
    rcases Dict.mem_set hentry with rfl | hmem
    · exact hplace
    · exact hbounds entry hmem
  have hkeys' := Dict.nodup_set (k := place) hkeys cell
  have hcount := cellCount_set place cell w.cells
  have hcalls := cellCalls_set place cell w.cells
  -- a previous cell without a text gives none back
  have hplain : (Dict.get place w.cells).any Content.isStr = false →
      ({ w with cells := Dict.set place cell w.cells } : Workbook).Inv := by
    intro hprev
    rw [hprev, if_neg Bool.false_ne_true, add_zero] at hcalls
    refine ⟨hcounts.congr (fun i => ?_) hcalls, hkeys', hbounds'⟩
    have hne : Dict.get place w.cells ≠ some (.str i) := by
      intro heq
      rw [heq, Option.any_some, isStr_str] at hprev
      cases hprev
    rw [← hcount i, if_neg hne, add_zero]
  rw [Workbook.insertCell]
  cases hget : Dict.get place w.cells with
  | none =>
    rw [hget] at hplain
    exact ⟨_, rfl, hplain rfl, rfl, rfl, rfl⟩
  | some prevCell =>
    rw [hget] at hfree hplain
    dsimp only
    rw [if_pos (hfree rfl)]
    cases prevCell with
    | str idx =>
      have hpos := cellCount_pos hget
      obtain ⟨table, hdel, hstrs, hcounts'⟩ := delStr_ok hcounts idx (by omega)
      simp only [hget, Option.some_inj, Content.str.injEq] at hcount
      simp only [hget, Option.any_some, isStr_str, if_true] at hcalls
      refine ⟨{ w with table := table, cells := Dict.set place cell w.cells }, ?_,
        ⟨hcounts'.congr (fun i => ?_) ?_, hkeys', hbounds'⟩, hstrs, rfl, rfl⟩
      · dsimp only
        rw [hdel]
        rfl
      · have hi := hcount i
        dsimp only
        omega
      · dsimp only
        omega
    | blank => exact ⟨_, rfl, hplain rfl, rfl, rfl, rfl⟩
    | number num => exact ⟨_, rfl, hplain rfl, rfl, rfl, rfl⟩

/-- A cell that is taken cannot be written again, unless the workbook lets it. -/
theorem insertCell_taken {w : Workbook} {place : Place}
    (h : ¬ ((Dict.get place w.cells).isSome → w.cellOverwriteOk = true)) (cell : Content) :
    w.insertCell place cell = none := by
  rw [Classical.not_imp] at h
  obtain ⟨prevCell, hprev⟩ := Option.isSome_iff_exists.mp h.1
  rw [Workbook.insertCell, hprev]
  exact if_neg h.2

/-- What writes leave of a workbook, besides its cells: texts are only added, one for each write at
most, and the indices in other cells are still right. -/
structure Grows (ops : List (Place × Label)) (w w' : Workbook) : Prop where
  strs : w.table.strs <+: w'.table.strs
  length : w'.table.strs.length ≤ w.table.strs.length + ops.length
  calls : w'.table.addCalls ≤ w.table.addCalls + ops.length
  texts : ∀ s ∈ w'.table.strs, s ∈ w.table.strs ∨ ∃ op ∈ ops, op.2 = .text s
  overwrite : w'.cellOverwriteOk = w.cellOverwriteOk

theorem Grows.refl (w : Workbook) : Grows [] w w :=
  ⟨List.prefix_rfl, le_rfl, le_rfl, fun _ hs => Or.inl hs, rfl⟩

theorem Grows.cons {op : Place × Label} {ops : List (Place × Label)} {w w₁ w' : Workbook}
    (h : Grows [op] w w₁) (h' : Grows ops w₁ w') : Grows (op :: ops) w w' where
  strs := h.strs.trans h'.strs
  length := by
    have h₁ := h.length
    have h₂ := h'.length
    rw [List.length_singleton] at h₁
    rw [List.length_cons]
    omega
  calls := by
    have h₁ := h.calls
    have h₂ := h'.calls
    rw [List.length_singleton] at h₁
    rw [List.length_cons]
    omega
  texts s hs := by
    rcases h'.texts s hs with hmem | ⟨op', hop', htext⟩
    · rcases h.texts s hmem with hmem | ⟨op', hop', htext⟩
      · exact Or.inl hmem
      · exact Or.inr ⟨op', List.mem_cons.mpr (Or.inl (List.mem_singleton.mp hop')), htext⟩
    · exact Or.inr ⟨op', List.mem_cons_of_mem op hop', htext⟩
  overwrite := h'.overwrite.trans h.overwrite

/-- A write of a cell, after its text has come to the table. -/
theorem Grows.single (label : Label) {w w' : Workbook} {place : Place} {cell : Content}
    (hinv : w.Inv) (hinv' : w'.Inv) (hcells : w'.cells = Dict.set place cell w.cells)
    (hstrs : w'.table.strs = w.table.strs ∨
      ∃ s, label = .text s ∧ w'.table.strs = w.table.strs ++ [s])
    (hover : w'.cellOverwriteOk = w.cellOverwriteOk) : Grows [(place, label)] w w' := by
  have hcalls : w'.table.addCalls ≤ w.table.addCalls + 1 := by
    have hset := cellCalls_set place cell w.cells
    rw [hinv.counts.calls, hinv'.counts.calls, hcells]
    split_ifs at hset <;> omega
  rcases hstrs with hstrs | ⟨s, rfl, hstrs⟩
  · refine ⟨hstrs ▸ List.prefix_rfl, hstrs ▸ Nat.le_succ _, hcalls, fun s hs => ?_, hover⟩
    rw [hstrs] at hs
    exact Or.inl hs
  · refine ⟨hstrs ▸ List.prefix_append _ _, ?_, hcalls, fun s' hs' => ?_, hover⟩
    · rw [hstrs, List.length_append]
      rfl
    · rw [hstrs] at hs'
      rcases List.mem_append.mp hs' with hmem | hmem
      · exact Or.inl hmem
      · rw [List.mem_singleton.mp hmem]
        exact Or.inr ⟨_, List.mem_singleton_self _, rfl⟩

/-- A cell that has been written has its label, and the others have theirs. -/
theorem Refines.set {w w' : Workbook} {labels : List (Place × Label)} (h : Refines w labels)
    {place : Place} {label : Label} {cell : Content} (hinv : w'.Inv)
    (hstrs : w.table.strs <+: w'.table.strs) (hcells : w'.cells = Dict.set place cell w.cells)
    (hcell : ContentOf w'.table.strs label cell) : Refines w' (Dict.set place label labels) := by
  refine ⟨hinv, fun place' => ?_⟩
  rw [hcells]
  by_cases hplace : place' = place
  · subst hplace
    rw [Dict.get_set_self, Dict.get_set_self]
    exact Option.Rel.some hcell
  · rw [Dict.get_set_of_ne hplace, Dict.get_set_of_ne hplace]
    have hrel := h.cells place'
    generalize Dict.get place' labels = old at hrel
    generalize Dict.get place' w.cells = content at hrel
    cases hrel with
    | none => exact Option.Rel.none
    | some hc => exact Option.Rel.some (hc.mono hstrs)

/-- **A write** succeeds in the bounds of a sheet, when the cell is free or can be written again. -/
theorem write_refines {w : Workbook} {labels : List (Place × Label)} (h : Refines w labels)
    (place : Place) (label : Label) :
    if (place.2.1 ≤ 65535 ∧ place.2.2 ≤ 255) ∧
        ((Dict.get place labels).isSome → w.cellOverwriteOk = true) then
      ∃ w', w.write place label = some w' ∧ Refines w' (Dict.set place label labels) ∧
        Grows [(place, label)] w w'
    else w.write place label = none := by
  have hsome : (Dict.get place w.cells).isSome = (Dict.get place labels).isSome := by
    have hrel := h.cells place
    generalize Dict.get place labels = old at hrel
    generalize Dict.get place w.cells = content at hrel
    cases hrel <;> rfl
  have hinv := h.inv
  unfold Workbook.write
  by_cases hplace : place.2.1 ≤ 65535 ∧ place.2.2 ≤ 255
  · rw [if_neg (by omega : ¬ (65535 < place.2.1 ∨ 255 < place.2.2))]
    by_cases hfree : (Dict.get place labels).isSome → w.cellOverwriteOk = true
    · rw [if_pos ⟨hplace, hfree⟩]
      rw [← hsome] at hfree
      -- a content that is not in the table
      have hplain : ∀ cell : Content, cell.isStr = false → ContentOf w.table.strs label cell →
          ∃ w', w.insertCell place cell = some w' ∧
            Refines w' (Dict.set place label labels) ∧ Grows [(place, label)] w w' := by
        intro cell hcell hlabel
        have hcounts : Counts w.table (fun i => cellCount w.cells i + if cell = .str i then 1 else 0)
            (cellCalls w.cells + if cell.isStr then 1 else 0) := by
          refine hinv.counts.congr (fun i => ?_) (by rw [hcell]; rfl)
          rw [if_neg (by rintro rfl; rw [isStr_str] at hcell; nomatch hcell), add_zero]
        obtain ⟨w', hinsert, hinv', hstrs, hcells, hover⟩ :=
          insertCell_ok cell hplace hinv.keys hinv.bounds hcounts hfree
        have hgrows := Grows.single label hinv hinv' hcells (Or.inl hstrs) hover
        exact ⟨w', hinsert, h.set hinv' hgrows.strs hcells (hstrs ▸ hlabel), hgrows⟩
      match label with
      | .text [] => exact hplain .blank rfl rfl
      | .number num => exact hplain (.number num) rfl rfl
      | .text (c :: s) =>
        obtain ⟨hcounts, hidx, hnew⟩ := addStr_ok hinv.counts (c :: s)
        obtain ⟨w', hinsert, hinv', hstrs, hcells, hover⟩ := insertCell_ok
          (w := { w with table := (w.table.addStr (c :: s)).2 })
          (.str (w.table.addStr (c :: s)).1) hplace hinv.keys hinv.bounds
          (hcounts.congr (fun i => by simp only [Content.str.injEq]) rfl) hfree
        dsimp only at hstrs hcells hover
        have hgrows := Grows.single (.text (c :: s)) hinv hinv' hcells
          (hnew.imp hstrs.trans fun hnew => ⟨c :: s, rfl, hstrs.trans hnew⟩) hover
        exact ⟨w', hinsert, h.set hinv' hgrows.strs hcells (by rw [hstrs]; exact hidx), hgrows⟩
    · rw [if_neg fun hboth => hfree hboth.2]
      rw [← hsome] at hfree
      match label with
      | .text [] => exact insertCell_taken hfree .blank
      | .text (c :: s) =>
        exact insertCell_taken (w := { w with table := (w.table.addStr (c :: s)).2 }) hfree _
      | .number num => exact insertCell_taken hfree (.number num)
  · rw [if_neg fun hboth => hplace hboth.1, if_pos (by omega)]

/-- After writes that succeed, a workbook has in its cells what the writes say. -/
theorem writes_refine {ops : List (Place × Label)} {w w' : Workbook} {labels : List (Place × Label)}
    (h : Refines w labels) (hrun : w.writes ops = some w') :
    Refines w' (Dict.setAll ops labels) ∧ Grows ops w w' := by
  induction ops generalizing w labels with
  | nil =>
    obtain rfl : w = w' := Option.some.inj hrun
    exact ⟨h, Grows.refl w⟩
  | cons op ops ih =>
    rw [Workbook.writes, List.foldlM_cons] at hrun
    obtain ⟨w₁, hwrite, hrest⟩ := Option.bind_eq_some_iff.mp hrun
    have hstep := write_refines h op.1 op.2
    split at hstep
    · obtain ⟨w₂, hwrite', hrefines, hgrows⟩ := hstep
      obtain rfl : w₂ = w₁ := Option.some.inj (hwrite'.symm.trans hwrite)
      obtain ⟨hall, hgrows'⟩ := ih hrefines hrest
      exact ⟨hall, hgrows.cons hgrows'⟩
    · rw [hstep] at hwrite
      cases hwrite

/-- Writes succeed in the bounds of a sheet when the cells can be written again, or are free and
different. -/
theorem isSome_writes {ops : List (Place × Label)} {w : Workbook} {labels : List (Place × Label)}
    (h : Refines w labels) :
    (w.writes ops).isSome ↔ (∀ op ∈ ops, op.1.2.1 ≤ 65535 ∧ op.1.2.2 ≤ 255) ∧
      (w.cellOverwriteOk = true ∨
        (ops.map Prod.fst).Nodup ∧ ∀ op ∈ ops, Dict.get op.1 labels = none) := by
  -- by induction on the writes: a place that is written is taken for those behind
  induction ops generalizing w labels with
  | nil => simp [Workbook.writes]
  | cons op ops ih =>
    have hstep := write_refines h op.1 op.2
    rw [Workbook.writes, List.foldlM_cons]
    split at hstep
    · next hok =>
      obtain ⟨hplace, hfree⟩ := hok
      obtain ⟨w₁, hwrite, hrefines, hgrows⟩ := hstep
      rw [hwrite, Option.bind_eq_bind, Option.bind_some, ← Workbook.writes, ih hrefines,
        hgrows.overwrite, List.forall_mem_cons, and_iff_right hplace]
      -- if cells cannot be written again, this place was free, and is not any more
      refine and_congr_right fun _ => or_congr_right' fun hover => ?_
      have hnone : Dict.get op.1 labels = none :=
        Option.not_isSome_iff_eq_none.mp fun hsome => hover (hfree hsome)
      rw [List.map_cons, List.nodup_cons, List.forall_mem_cons, and_iff_right hnone]
      constructor
      · rintro ⟨hnodup, hget⟩
        have hne : ∀ op' ∈ ops, op'.1 ≠ op.1 := fun op' hop' heq => by
          have hsome := hget op' hop'
          rw [heq, Dict.get_set_self] at hsome
          cases hsome
        refine ⟨⟨fun hop => ?_, hnodup⟩, fun op' hop' => ?_⟩
        · obtain ⟨op', hop', heq⟩ := List.mem_map.mp hop
          exact hne op' hop' heq
        · rw [← Dict.get_set_of_ne (hne op' hop') op.2 labels]
          exact hget op' hop'
      · rintro ⟨⟨hop, hnodup⟩, hget⟩
        refine ⟨hnodup, fun op' hop' => ?_⟩
        have hne : op'.1 ≠ op.1 := fun heq => hop (heq ▸ List.mem_map_of_mem hop')
        rw [Dict.get_set_of_ne hne, hget op' hop']
    · next hfail =>
      rw [hstep, List.forall_mem_cons, List.forall_mem_cons]
      refine iff_of_false Bool.false_ne_true fun hall =>
        hfail ⟨hall.1.1, fun hsome => hall.2.resolve_right ?_⟩
      rintro ⟨-, hnone, -⟩
      rw [hnone] at hsome
      cases hsome

theorem new_refines (cellOverwriteOk : Bool) : Refines (Workbook.new cellOverwriteOk) [] :=
  ⟨⟨⟨List.nodup_nil, nofun, fun _ _ => rfl, rfl⟩, List.nodup_nil, nofun⟩, fun _ => Option.Rel.none⟩

/-- **A cell has what was written to it last**, and the table has each text once, with the number of
its cells; the writes to a new workbook fail when one of them is out of the bounds of a sheet, or
comes back to a cell that cannot be written again. -/
theorem writes_right (cellOverwriteOk : Bool) (ops : List (Place × Label)) :
    if (∀ op ∈ ops, op.1.2.1 ≤ 65535 ∧ op.1.2.2 ≤ 255) ∧
        (cellOverwriteOk = true ∨ (ops.map Prod.fst).Nodup) then
      ∃ w, (Workbook.new cellOverwriteOk).writes ops = some w ∧ Refines w (Dict.setAll ops [])
    else (Workbook.new cellOverwriteOk).writes ops = none := by
  have hsome : ((Workbook.new cellOverwriteOk).writes ops).isSome ↔ _ :=
    isSome_writes (new_refines cellOverwriteOk)
  have hfree : ∀ op ∈ ops, Dict.get op.1 ([] : List (Place × Label)) = none := fun _ _ => rfl
  rw [and_iff_left hfree] at hsome
  split
  · next hok =>
    obtain ⟨w, hw⟩ := Option.isSome_iff_exists.mp (hsome.mpr hok)
    exact ⟨w, hw, (writes_refine (new_refines cellOverwriteOk) hw).1⟩
  · next hfail => exact Option.not_isSome_iff_eq_none.mp fun h => hfail (hsome.mp h)

/-! ### The fields -/

section Fields

variable {float : List Char → Option (BitVec 64)} {files : List CsvFile}

/-- What the loops write. -/
theorem mem_csvWrites {place : Place} {label : Label} :
    (place, label) ∈ csvWrites float files 0 ↔
      ∃ col, field files place = some col ∧ label = labelOf float col := by
  obtain ⟨sheet, rowx, colx⟩ := place
  simp only [csvWrites, sheetWrites, List.mem_flatMap, List.mem_map, Prod.exists, Prod.mk.injEq,
    field, List.mk_mem_zipIdx_iff_getElem?, Option.bind_eq_bind, Option.bind_eq_some_iff]
  constructor
  · rintro ⟨file, sheet', hfile, row, rowx', hrow, col, colx', hcol, ⟨rfl, rfl, rfl⟩, rfl⟩
    exact ⟨col, ⟨file, hfile, row, hrow, hcol⟩, rfl⟩
  · rintro ⟨col, ⟨file, hfile, row, hrow, hcol⟩, rfl⟩
    exact ⟨file, sheet, hfile, row, rowx, hrow, col, colx, hcol, ⟨rfl, rfl, rfl⟩, rfl⟩

/-- Lists that are told apart by a number have no element in common. -/
theorem nodup_flatMap_zipIdx {α κ : Type*} {l : List α} {f : α × ℕ → List κ} (index : κ → ℕ)
    (hindex : ∀ x, ∀ k ∈ f x, index k = x.2) (hf : ∀ x ∈ l.zipIdx, (f x).Nodup) :
    (l.zipIdx.flatMap f).Nodup := by
  refine List.nodup_flatMap.mpr ⟨hf, ?_⟩
  have hsnd : l.zipIdx.Pairwise fun x y => x.2 ≠ y.2 :=
    List.pairwise_map.mp (List.nodup_zipIdx_map_snd l)
  refine hsnd.imp fun {x y} hne k hx hy => hne ?_
  rw [← hindex x k hx, ← hindex y k hy]

/-- The loops write to each place once. -/
theorem nodup_csvWrites : ((csvWrites float files 0).map Prod.fst).Nodup := by
  simp only [csvWrites, sheetWrites, List.map_flatMap, List.map_map]
  refine nodup_flatMap_zipIdx (fun k => k.1) (fun file k hk => ?_) fun file _ => ?_
  · obtain ⟨row, -, hk⟩ := List.mem_flatMap.mp hk
    obtain ⟨col, -, rfl⟩ := List.mem_map.mp hk
    rfl
  · refine nodup_flatMap_zipIdx (fun k => k.2.1) (fun row k hk => ?_) fun row _ => ?_
    · obtain ⟨col, -, rfl⟩ := List.mem_map.mp hk
      rfl
    · have hcols := List.nodup_zipIdx_map_snd row.1
      refine List.Nodup.of_map (fun k : Place => k.2.2) ?_
      rw [List.map_map]
      exact hcols

theorem field_mem {place : Place} {col : List Char} (h : field files place = some col) :
    ∃ file ∈ files, ∃ row ∈ file.rows, col ∈ row ∧ place.2.1 < file.rows.length ∧
      place.2.2 < row.length := by
  simp only [field, Option.bind_eq_bind, Option.bind_eq_some_iff] at h
  obtain ⟨file, hfile, row, hrow, hcol⟩ := h
  exact ⟨file, List.mem_of_getElem? hfile, row, List.mem_of_getElem? hrow, List.mem_of_getElem? hcol,
    (List.getElem?_eq_some_iff.mp hrow).1, (List.getElem?_eq_some_iff.mp hcol).1⟩

/-! ### The sheets -/

/-- A name that a sheet can have: `add_sheet` decodes it as ASCII, and looks at its characters and
its length. -/
def SheetNameFits (sheetName : List Char) : Prop :=
  (∀ c ∈ sheetName, c.toNat < 0x80) ∧ validSheetName sheetName = true

instance (sheetName : List Char) : Decidable (SheetNameFits sheetName) :=
  decidable_of_iff ((sheetName.all fun c => decide (c.toNat < 0x80)) = true ∧
    validSheetName sheetName = true) (by simp [SheetNameFits])

/-- The name of the sheet for a file, as it is compared with others.  `eth0` and `ETH0` are the
same name. -/
def CsvFile.lowerName (file : CsvFile) : List Char := file.sheetName.map Char.toLower

/-- The files can have a sheet each, besides some that are there already: the names are good, and
no two of them are the same. -/
structure NamesFit (names : List (List Char)) (files : List CsvFile) : Prop where
  valid : ∀ file ∈ files, SheetNameFits file.sheetName
  different : (files.map CsvFile.lowerName).Nodup
  free : ∀ file ∈ files, file.lowerName ∉ names.map (List.map Char.toLower)

theorem addSheet_eq_some_iff {names names' : List (List Char)} {file : CsvFile} :
    addSheet names file.sheetName = some names' ↔
      (SheetNameFits file.sheetName ∧ file.lowerName ∉ names.map (List.map Char.toLower)) ∧
        names' = names ++ [file.sheetName] := by
  have hfits : ((file.sheetName.all fun c => decide (c.toNat < 0x80)) &&
      validSheetName file.sheetName) = true ↔ SheetNameFits file.sheetName := by
    simp [SheetNameFits]
  have htaken : (names.any fun name => name.map Char.toLower == file.sheetName.map Char.toLower) =
      true ↔ file.lowerName ∈ names.map (List.map Char.toLower) := by
    simp [CsvFile.lowerName]
  rw [addSheet, ← hfits, ← htaken]
  split_ifs with hname hmem
  · simp [hmem]
  · simp [hname, hmem, eq_comm]
  · simp [hname]

theorem namesFit_cons {names : List (List Char)} {file : CsvFile} {files : List CsvFile} :
    NamesFit names (file :: files) ↔
      (SheetNameFits file.sheetName ∧ file.lowerName ∉ names.map (List.map Char.toLower)) ∧
        NamesFit (names ++ [file.sheetName]) files := by
  have happend : (names ++ [file.sheetName]).map (List.map Char.toLower) =
      names.map (List.map Char.toLower) ++ [file.lowerName] := by
    rw [List.map_append]
    rfl
  constructor
  · rintro ⟨hvalid, hdifferent, hfree⟩
    rw [List.forall_mem_cons] at hvalid hfree
    rw [List.map_cons, List.nodup_cons] at hdifferent
    refine ⟨⟨hvalid.1, hfree.1⟩, hvalid.2, hdifferent.2, fun file' hfile' hmem => ?_⟩
    rw [happend, List.mem_append, List.mem_singleton] at hmem
    rcases hmem with hmem | heq
    · exact hfree.2 file' hfile' hmem
    · exact hdifferent.1 (heq ▸ List.mem_map_of_mem hfile')
  · rintro ⟨⟨hvalid, hfree⟩, hrest⟩
    have hfree' := hrest.free
    simp only [happend, List.mem_append, List.mem_singleton, not_or] at hfree'
    refine ⟨List.forall_mem_cons.mpr ⟨hvalid, hrest.valid⟩, ?_,
      List.forall_mem_cons.mpr ⟨hfree, fun file' hfile' => (hfree' file' hfile').1⟩⟩
    refine List.nodup_cons.mpr ⟨fun hmem => ?_, hrest.different⟩
    obtain ⟨file', hfile', heq⟩ := List.mem_map.mp hmem
    exact (hfree' file' hfile').2 heq

/-- **The loop over the files**, by induction on them: a sheet for each, and the writes of all of
them one behind the other. -/
theorem foldlM_addFile {b b' : Sheets} : files.foldlM (addFile float) b = some b' ↔
    NamesFit b.names files ∧ b'.names = b.names ++ files.map CsvFile.sheetName ∧
      b.workbook.writes (csvWrites float files b.names.length) = some b'.workbook := by
  induction files generalizing b with
  | nil =>
    have hnil : NamesFit b.names [] :=
      ⟨fun _ h => absurd h List.not_mem_nil, List.nodup_nil, fun _ h => absurd h List.not_mem_nil⟩
    rw [List.foldlM_nil, List.map_nil, List.append_nil]
    constructor
    · rintro h
      obtain rfl : b = b' := Option.some.inj h
      exact ⟨hnil, rfl, rfl⟩
    · rintro ⟨-, hnames, hwrites⟩
      have hworkbook : b.workbook = b'.workbook := Option.some.inj hwrites
      obtain ⟨names, workbook⟩ := b
      obtain ⟨names', workbook'⟩ := b'
      dsimp only at hnames hworkbook
      rw [hnames, hworkbook]
      rfl
  | cons file files ih =>
    -- the writes of the first file, and those of the others behind one sheet more
    have hwrites : csvWrites float (file :: files) b.names.length =
        sheetWrites float b.names.length file.rows ++
          csvWrites float files (b.names ++ [file.sheetName]).length := by
      rw [csvWrites, List.zipIdx_cons, List.flatMap_cons, List.length_append]
      rfl
    have happend (w : Workbook) (ops ops' : List (Place × Label)) :
        w.writes (ops ++ ops') = (w.writes ops).bind fun w' => w'.writes ops' := List.foldlM_append
    have hnames : b.names ++ (file :: files).map CsvFile.sheetName =
        b.names ++ [file.sheetName] ++ files.map CsvFile.sheetName := by simp
    rw [List.foldlM_cons, hwrites, happend, hnames, namesFit_cons]
    simp only [Option.bind_eq_bind, Option.bind_eq_some_iff, addFile, addSheet_eq_some_iff]
    constructor
    · rintro ⟨b₁, ⟨names, ⟨hname, rfl⟩, w₁, hw₁, hb₁⟩, hrest⟩
      obtain rfl := Option.some.inj hb₁
      obtain ⟨hfit, hnames', hw'⟩ := ih.mp hrest
      exact ⟨⟨hname, hfit⟩, hnames', w₁, hw₁, hw'⟩
    · rintro ⟨⟨hname, hfit⟩, hnames', w₁, hw₁, hw'⟩
      exact ⟨_, ⟨_, ⟨hname, rfl⟩, w₁, hw₁, rfl⟩, ih.mpr ⟨hfit, hnames', hw'⟩⟩

/-- The files can have a sheet each, with rows and columns enough, and there is one.  Without a
sheet the workbook cannot be saved. -/
structure SheetsFit (files : List CsvFile) : Prop where
  exists_file : files ≠ []
  names : ∀ file ∈ files, SheetNameFits file.sheetName
  different : (files.map CsvFile.lowerName).Nodup
  rows : ∀ file ∈ files, ∀ row ∈ file.rows.zipIdx, row.1 ≠ [] → row.2 ≤ 65535
  cols : ∀ file ∈ files, ∀ row ∈ file.rows, row.length ≤ 256

/-- The files fit in sheets and in the table: besides the bounds of the sheets, those of their texts
and of the number of their fields. -/
structure CsvFits (float : List Char → Option (BitVec 64)) (files : List CsvFile) : Prop
    extends SheetsFit files where
  texts : ∀ file ∈ files, ∀ row ∈ file.rows, ∀ col ∈ row, float col = none →
    col.length ≤ 32767 ∧ ∀ c ∈ col, c.toNat < 0x80
  count : (csvWrites float files 0).length < 2 ^ 32

/-- The fields are in the bounds of the sheets. -/
theorem bounds_iff : (∀ op ∈ csvWrites float files 0, op.1.2.1 ≤ 65535 ∧ op.1.2.2 ≤ 255) ↔
    (∀ file ∈ files, ∀ row ∈ file.rows.zipIdx, row.1 ≠ [] → row.2 ≤ 65535) ∧
      ∀ file ∈ files, ∀ row ∈ file.rows, row.length ≤ 256 := by
  constructor
  · intro h
    -- every field of the files is written to its place
    have hplace : ∀ file ∈ files, ∀ row ∈ file.rows.zipIdx, ∀ colx < row.1.length,
        row.2 ≤ 65535 ∧ colx ≤ 255 := by
      intro file hfile row hrow colx hcolx
      obtain ⟨sheet, hsheet⟩ := List.mem_iff_getElem?.mp hfile
      have hfield : field files (sheet, row.2, colx) = some row.1[colx] := by
        simp only [field, hsheet, Option.bind_eq_bind, Option.bind_some,
          List.mem_zipIdx_iff_getElem?.mp hrow, List.getElem?_eq_getElem hcolx]
      exact h _ (mem_csvWrites.mpr ⟨_, hfield, rfl⟩)
    refine ⟨fun file hfile row hrow hne => ?_, fun file hfile row hrow => ?_⟩
    · exact (hplace file hfile row hrow 0 (List.length_pos_iff.mpr hne)).1
    · by_contra hlong
      obtain ⟨rowx, hrowx⟩ := List.mem_iff_getElem?.mp hrow
      have hlt : 256 < row.length := by omega
      have hcol := (hplace file hfile (row, rowx) (List.mem_zipIdx_iff_getElem?.mpr hrowx) 256 hlt).2
      omega
  · rintro ⟨hrows, hcols⟩ ⟨⟨sheet, rowx, colx⟩, label⟩ hop
    obtain ⟨col, hcol, -⟩ := mem_csvWrites.mp hop
    simp only [field, Option.bind_eq_bind, Option.bind_eq_some_iff] at hcol
    obtain ⟨file, hfile, row, hrow, hcol⟩ := hcol
    have hlt := (List.getElem?_eq_some_iff.mp hcol).1
    have hlength := hcols file (List.mem_of_getElem? hfile) row (List.mem_of_getElem? hrow)
    dsimp only at hlt ⊢
    refine ⟨hrows file (List.mem_of_getElem? hfile) (row, rowx)
      (List.mem_zipIdx_iff_getElem?.mpr hrow) ?_, by omega⟩
    exact List.ne_nil_of_length_pos (Nat.zero_lt_of_lt hlt)

/-- The script has a workbook, with the sheets in the order of the files. -/
theorem csv2xls_eq_some_iff {b : Sheets} : csv2xls float files = some b ↔
    files ≠ [] ∧ NamesFit [] files ∧ b.names = files.map CsvFile.sheetName ∧
      (Workbook.new false).writes (csvWrites float files 0) = some b.workbook := by
  simp only [csv2xls, Option.bind_eq_bind, Option.bind_eq_some_iff, foldlM_addFile, List.nil_append,
    List.length_nil]
  constructor
  · rintro ⟨b', ⟨hfit, hnames, hwrites⟩, hsome⟩
    split_ifs at hsome with hempty
    obtain rfl := Option.some.inj hsome
    refine ⟨fun hnil => hempty ?_, hfit, hnames, hwrites⟩
    rw [hnames, hnil]
    rfl
  · rintro ⟨hne, hfit, hnames, hwrites⟩
    refine ⟨b, ⟨hfit, hnames, hwrites⟩, if_neg ?_⟩
    rw [hnames]
    simpa using hne

/-- **When the script gets a workbook**: there are files, the names of their sheets can be given and
are different, and their fields are in the bounds of a sheet. -/
theorem isSome_csv2xls : (csv2xls float files).isSome ↔ SheetsFit files := by
  have hwrites : ((Workbook.new false).writes (csvWrites float files 0)).isSome ↔ _ :=
    isSome_writes (new_refines false)
  rw [bounds_iff, and_iff_left (Or.inr ⟨nodup_csvWrites, fun _ _ => rfl⟩)] at hwrites
  constructor
  · intro h
    obtain ⟨b, hb⟩ := Option.isSome_iff_exists.mp h
    obtain ⟨hne, hfit, -, hrun⟩ := csv2xls_eq_some_iff.mp hb
    obtain ⟨hrows, hcols⟩ := hwrites.mp (by rw [hrun]; rfl)
    exact ⟨hne, hfit.valid, hfit.different, hrows, hcols⟩
  · intro h
    obtain ⟨w, hw⟩ := Option.isSome_iff_exists.mp (hwrites.mpr ⟨h.rows, h.cols⟩)
    have hfit : NamesFit [] files := ⟨h.names, h.different, fun _ _ => List.not_mem_nil⟩
    rw [csv2xls_eq_some_iff (b := ⟨files.map CsvFile.sheetName, w⟩) |>.mpr
      ⟨h.exists_file, hfit, rfl, hw⟩]
    rfl

/-- The script has a workbook, which has the fields in its cells. -/
theorem csv2xls_ok (h : CsvFits float files) :
    ∃ b, csv2xls float files = some b ∧ b.names = files.map CsvFile.sheetName ∧
      Refines b.workbook (Dict.setAll (csvWrites float files 0) []) ∧
      Grows (csvWrites float files 0) (Workbook.new false) b.workbook := by
  obtain ⟨b, hb⟩ := Option.isSome_iff_exists.mp (isSome_csv2xls.mpr h.toSheetsFit)
  obtain ⟨-, -, hnames, hrun⟩ := csv2xls_eq_some_iff.mp hb
  exact ⟨b, hb, hnames, writes_refine (new_refines false) hrun⟩

/-- The labels of the workbook are those of the fields. -/
theorem get_labels (place : Place) :
    Dict.get place (Dict.setAll (csvWrites float files 0) []) =
      (field files place).map (labelOf float) := by
  cases hcol : field files place with
  | some col =>
    exact Dict.get_setAll_of_mem nodup_csvWrites (mem_csvWrites.mpr ⟨col, hcol, rfl⟩) []
  | none =>
    refine Dict.get_setAll_of_not_mem (fun hmem => ?_) []
    obtain ⟨⟨place', label⟩, hop, rfl⟩ := List.mem_map.mp hmem
    obtain ⟨col, hsome, -⟩ := mem_csvWrites.mp hop
    rw [hcol] at hsome
    nomatch hsome

end Fields

/-! ### What is read -/

/-- A text of the table that is written is empty, or a text that has come to the table. -/
theorem mem_texts {t : StringTable} {s : List Char} (h : s ∈ t.texts) : s = [] ∨ s ∈ t.strs := by
  obtain ⟨i, hi⟩ := List.mem_iff_getElem?.mp h
  obtain ⟨s', n, hs', -, rfl⟩ := List.getElem?_zipWith_eq_some.mp hi
  split
  · exact Or.inl rfl
  · exact Or.inr (List.mem_of_getElem? hs')

/-- The text of a cell is written. -/
theorem texts_of_cell {w : Workbook} (hinv : w.Inv) {place : Place} {idx : ℕ} {s : List Char}
    (hcell : Dict.get place w.cells = some (.str idx)) (hs : w.table.strs[idx]? = some s) :
    w.table.texts[idx]? = some s := by
  have hpos := cellCount_pos hcell
  have hlt := (List.getElem?_eq_some_iff.mp hs).1
  refine List.getElem?_zipWith_eq_some.mpr ⟨s, _, hs, hinv.counts.tally idx hlt, ?_⟩
  rw [if_neg (by omega)]

/-- What is read from a cell is what a label says, with the texts that are read from the table. -/
def LabelShows (texts : List (List Char)) : Label → Datum → Prop
  | .text s, .blank => s = []
  | .text s, .str i => texts[i]? = some s
  | .number num, .short q => Binary64.value num = some q
  | .number num, .double bits => num = bits
  | _, _ => False

theorem labelShows_of {w : Workbook} (hinv : w.Inv) {place : Place} {label : Label}
    {content : Content} {d : Datum} (hcell : Dict.get place w.cells = some content)
    (hlabel : ContentOf w.table.strs label content) (hshows : content.Shows d) :
    LabelShows w.table.texts label d := by
  cases label with
  | text s =>
    cases content with
    | str i =>
      cases d with
      | str j =>
        obtain rfl : i = j := hshows
        exact texts_of_cell hinv hcell hlabel
      | blank => exact hshows.elim
      | short q => exact hshows.elim
      | double bits => exact hshows.elim
    | blank =>
      cases d with
      | blank => exact hlabel
      | str j => exact hshows.elim
      | short q => exact hshows.elim
      | double bits => exact hshows.elim
    | number num => exact hlabel.elim
  | number num =>
    cases content with
    | str i => exact hlabel.elim
    | blank => exact hlabel.elim
    | number num' =>
      obtain rfl : num = num' := hlabel
      cases d with
      | short q => exact hshows
      | double bits => exact hshows
      | str j => exact hshows.elim
      | blank => exact hshows.elim

theorem forall₂_mem_right {α β : Type*} {R : α → β → Prop} {xs : List α} {ys : List β}
    (h : List.Forall₂ R xs ys) {y : β} (hy : y ∈ ys) : ∃ x ∈ xs, R x y := by
  induction h with
  | nil => nomatch hy
  | @cons x y' xs ys hxy _ ih =>
    rcases List.mem_cons.mp hy with rfl | hmem
    · exact ⟨x, List.mem_cons_self, hxy⟩
    · obtain ⟨x', hx', hR⟩ := ih hmem
      exact ⟨x', List.mem_cons_of_mem x hx', hR⟩

theorem forall₂_mem_left {α β : Type*} {R : α → β → Prop} {xs : List α} {ys : List β}
    (h : List.Forall₂ R xs ys) {x : α} (hx : x ∈ xs) : ∃ y ∈ ys, R x y := by
  obtain ⟨y, hy, hR⟩ := forall₂_mem_right h.flip hx
  exact ⟨y, hy, hR⟩

/-- The cells of a row are those of its places. -/
theorem mem_rowItems {w : Workbook} {xfIdx sheet rowx : ℕ} {item : ℕ × Cell} :
    item ∈ w.rowItems xfIdx sheet rowx ↔ ∃ content, ((sheet, rowx, item.1), content) ∈ w.cells ∧
      item.2 = ⟨rowx, item.1, xfIdx, content⟩ := by
  rw [Workbook.rowItems, List.mem_mergeSort, List.mem_map]
  constructor
  · rintro ⟨⟨⟨sheet', rowx', colx⟩, content⟩, hentry, rfl⟩
    obtain ⟨hmem, hplace⟩ := List.mem_filter.mp hentry
    obtain ⟨rfl, rfl⟩ := of_decide_eq_true hplace
    exact ⟨content, hmem, rfl⟩
  · rintro ⟨content, hmem, hitem⟩
    exact ⟨_, List.mem_filter.mpr ⟨hmem, decide_eq_true ⟨rfl, rfl⟩⟩, Prod.ext rfl hitem.symm⟩

/-- The cells of a row fit in their records. -/
theorem rowItems_isRow {w : Workbook} (hinv : w.Inv) (hlen : w.table.strs.length < 2 ^ 32)
    {xfIdx : ℕ} (hxf : xfIdx < 2 ^ 16) (sheet rowx : ℕ) :
    IsRow rowx (w.rowItems xfIdx sheet rowx) := by
  rintro ⟨colx, cell⟩ hitem
  obtain ⟨content, hmem, hcell⟩ := mem_rowItems.mp hitem
  dsimp only at hmem hcell
  subst hcell
  obtain ⟨hrow, hcol⟩ := hinv.bounds _ hmem
  dsimp only at hrow hcol
  refine ⟨rfl, rfl, by dsimp only; omega, by dsimp only; omega, hxf, fun i hi => ?_⟩
  have hpos := cellCount_pos (Dict.get_of_mem hinv.keys hmem |>.trans (congrArg some hi))
  by_contra hge
  rw [hinv.counts.other i (by omega)] at hpos
  exact absurd hpos (by decide)

/-- A row has one cell for each of its columns. -/
theorem nodup_rowItems {w : Workbook} (hinv : w.Inv) (xfIdx sheet rowx : ℕ) :
    ((w.rowItems xfIdx sheet rowx).map fun item => item.2.colx).Nodup := by
  have hperm : ((w.rowItems xfIdx sheet rowx).map fun item => item.2.colx).Perm
      (((w.cells.filter fun entry => entry.1.1 = sheet ∧ entry.1.2.1 = rowx).map fun entry =>
        (entry.1.2.2, (⟨rowx, entry.1.2.2, xfIdx, entry.2⟩ : Cell))).map fun item => item.2.colx) :=
    (List.mergeSort_perm _ _).map _
  rw [hperm.nodup_iff, List.map_map]
  refine List.Nodup.map_on ?_ (hinv.keys.of_map.filter _)
  intro entry hentry entry' hentry' hcol
  obtain ⟨hmem, hplace⟩ := List.mem_filter.mp hentry
  obtain ⟨hmem', hplace'⟩ := List.mem_filter.mp hentry'
  obtain ⟨hsheet, hrow⟩ := of_decide_eq_true hplace
  obtain ⟨hsheet', hrow'⟩ := of_decide_eq_true hplace'
  have hkey : entry.1 = entry'.1 :=
    Prod.ext (hsheet.trans hsheet'.symm) (Prod.ext (hrow.trans hrow'.symm) hcol)
  exact List.inj_on_of_nodup_map hinv.keys hmem hmem' hkey

/-- Cells are read at the columns at which they have been written. -/
theorem map_colx_of_shows {cs : List Cell} {vs : List Shown} (h : List.Forall₂ Cell.Shows cs vs) :
    vs.map Shown.colx = cs.map Cell.colx := by
  induction h with
  | nil => rfl
  | cons hv _ ih => rw [List.map_cons, List.map_cons, ih, hv.colx]

/-- What is read from the records of a row is what the labels say. -/
theorem row_right {w : Workbook} {labels : List (Place × Label)} (h : Refines w labels)
    (hlen : w.table.strs.length < 2 ^ 32) {xfIdx : ℕ} (hxf : xfIdx < 2 ^ 16) (sheet rowx : ℕ) :
    ∃ bs vs, getCellsBiffDataMul rowx (w.rowItems xfIdx sheet rowx).length
        (w.rowItems xfIdx sheet rowx) = some bs ∧ readCells bs = some vs ∧
      (∀ v ∈ vs, v.rowx = rowx ∧ ∃ label, Dict.get (sheet, rowx, v.colx) labels = some label ∧
        LabelShows w.table.texts label v.datum) ∧
      (∀ colx, (Dict.get (sheet, rowx, colx) labels).isSome → ∃ v ∈ vs, v.colx = colx) ∧
      (vs.map Shown.colx).Nodup := by
  have hinv := h.inv
  obtain ⟨bs, hbs, vs, hencodes, hshows⟩ :=
    getCellsBiffDataMul_says (rowItems_isRow hinv hlen hxf sheet rowx) le_rfl
  have hnodup : (vs.map Shown.colx).Nodup := by
    rw [map_colx_of_shows hshows, List.map_map]
    exact nodup_rowItems hinv xfIdx sheet rowx
  refine ⟨bs, vs, hbs, hencodes.readCells, fun v hv => ?_, fun colx hsome => ?_, hnodup⟩
  -- a cell that was read is a cell of the row, with a label in the dictionary
  · obtain ⟨cell, hcell, hv⟩ := forall₂_mem_right hshows hv
    obtain ⟨⟨colx, cell⟩, hitem, rfl⟩ := List.mem_map.mp hcell
    obtain ⟨content, hmem, hcell⟩ := mem_rowItems.mp hitem
    dsimp only at hmem hcell
    subst hcell
    have hget := Dict.get_of_mem hinv.keys hmem
    have hrel := h.cells (sheet, rowx, colx)
    rw [hget] at hrel
    have hcolx : colx = v.colx := hv.colx
    rw [← hcolx]
    generalize Dict.get (sheet, rowx, colx) labels = old at hrel ⊢
    cases hrel with
    | some hlabel => exact ⟨hv.rowx.symm, _, rfl, labelShows_of hinv hget hlabel hv.datum⟩
  -- a label in the dictionary is in a cell of the row, which has been read
  · have hrel := h.cells (sheet, rowx, colx)
    generalize Dict.get (sheet, rowx, colx) labels = old at hrel hsome
    cases hget : Dict.get (sheet, rowx, colx) w.cells with
    | none =>
      rw [hget] at hrel
      cases hrel
      nomatch hsome
    | some content =>
      have hitem : (colx, Cell.mk rowx colx xfIdx content) ∈ w.rowItems xfIdx sheet rowx :=
        mem_rowItems.mpr ⟨content, Dict.mem_of_get hget, rfl⟩
      obtain ⟨v, hv, hvshows⟩ := forall₂_mem_left hshows (List.mem_map.mpr ⟨_, hitem, rfl⟩)
      exact ⟨v, hv, hvshows.colx.symm⟩

/-- The texts of the workbook are short enough, and in ASCII. -/
theorem texts_fit {float : List Char → Option (BitVec 64)} {files : List CsvFile}
    (h : CsvFits float files) {w : Workbook}
    (hgrows : Grows (csvWrites float files 0) (Workbook.new false) w) :
    ∀ s ∈ w.table.texts, s.length ≤ 32767 ∧ ∀ c ∈ s, c.toNat < 0x80 := by
  intro s hs
  rcases mem_texts hs with rfl | hmem
  · exact ⟨Nat.zero_le _, nofun⟩
  · rcases hgrows.texts s hmem with hmem | ⟨op, hop, htext⟩
    · nomatch hmem
    · obtain ⟨col, hcol, hlabel⟩ := mem_csvWrites.mp hop
      obtain ⟨file, hfile, row, hrow, hmem, -⟩ := field_mem hcol
      rw [htext, labelOf] at hlabel
      split at hlabel
      · nomatch hlabel
      · next hfloat =>
        obtain rfl := Label.text.inj hlabel
        exact h.texts file hfile row hrow s hmem hfloat

/-- **What is in the files is read from the workbook**: there is a sheet for each file; each cell that
is read from the records of a row has the field of its place, with the texts that are read from the
table, and each field has one cell. -/
theorem csv2xls_right {float : List Char → Option (BitVec 64)} {files : List CsvFile}
    (h : CsvFits float files) {xfIdx : ℕ} (hxf : xfIdx < 2 ^ 16) :
    ∃ b sst calls texts, csv2xls float files = some b ∧
      b.names = files.map CsvFile.sheetName ∧ b.workbook.sstRecords = some sst ∧
      readSst sst = some (calls, texts) ∧ ∀ sheet rowx, ∃ bs vs,
        getCellsBiffDataMul rowx (b.workbook.rowItems xfIdx sheet rowx).length
          (b.workbook.rowItems xfIdx sheet rowx) = some bs ∧ readCells bs = some vs ∧
        (∀ v ∈ vs, v.rowx = rowx ∧ ∃ col, field files (sheet, rowx, v.colx) = some col ∧
          LabelShows texts (labelOf float col) v.datum) ∧
        (∀ colx, (field files (sheet, rowx, colx)).isSome → ∃ v ∈ vs, v.colx = colx) ∧
        (vs.map Shown.colx).Nodup := by
  obtain ⟨b, hb, hnames, hrefines, hgrows⟩ := csv2xls_ok h
  have htexts := texts_fit h hgrows
  have hcount := h.count
  have hlength := hgrows.length
  have hcalls := hgrows.calls
  have hnew : (Workbook.new false).table.strs.length = 0 ∧
      (Workbook.new false).table.addCalls = 0 := ⟨rfl, rfl⟩
  obtain ⟨sst, hsst, hread⟩ := getBiffRecord_ok (fun s hs => (htexts s hs).1)
    (by omega : b.workbook.table.addCalls < 2 ^ 32) (by omega)
  refine ⟨b, sst, b.workbook.table.addCalls, b.workbook.table.texts, hb, hnames, ?_, hread,
    fun sheet rowx => ?_⟩
  · have hascii : ∀ s ∈ b.workbook.table.texts, CodesBelow 0x80 s := fun s hs => (htexts s hs).2
    rw [Workbook.sstRecords, if_pos hascii, hsst]
  · obtain ⟨bs, vs, hbs, hvs, hshows, hall, hnodup⟩ :=
      row_right hrefines (by omega) hxf sheet rowx
    refine ⟨bs, vs, hbs, hvs, fun v hv => ?_, fun colx hsome => hall colx ?_, hnodup⟩
    · obtain ⟨hrow, label, hlabel, hdatum⟩ := hshows v hv
      rw [get_labels, Option.map_eq_some_iff] at hlabel
      obtain ⟨col, hcol, rfl⟩ := hlabel
      exact ⟨hrow, col, hcol, hdatum⟩
    · rw [get_labels, Option.isSome_map]
      exact hsome

/-- Twelve is the only number of the sample. -/
def sampleFloat (col : List Char) : Option (BitVec 64) :=
  if col = ['1', '2'] then some 0x4028000000000000 else none

/-- Two files, the first of which has two rows.  The name of a sheet ends at the first point, and
so the second one is `eth0`. -/
def sampleFiles : List CsvFile := [
  { name := "all_1108142559.csv".toList
    rows := [[['t', 'i', 'm', 'e'], ['u', 's', 'r']], [['1', '2'], []]] },
  { name := "eth0.100_1108142559.csv".toList
    rows := [[['t', 'i', 'm', 'e']]] }]

theorem csv2xls_right_sample : (CsvFits sampleFloat sampleFiles ∧ 17 < 2 ^ 16) ∧
    ∃ b sst calls texts, csv2xls sampleFloat sampleFiles = some b ∧
      b.names = sampleFiles.map CsvFile.sheetName ∧ b.workbook.sstRecords = some sst ∧
      readSst sst = some (calls, texts) ∧ ∀ sheet rowx, ∃ bs vs,
        getCellsBiffDataMul rowx (b.workbook.rowItems 17 sheet rowx).length
          (b.workbook.rowItems 17 sheet rowx) = some bs ∧ readCells bs = some vs ∧
        (∀ v ∈ vs, v.rowx = rowx ∧ ∃ col, field sampleFiles (sheet, rowx, v.colx) = some col ∧
          LabelShows texts (labelOf sampleFloat col) v.datum) ∧
        (∀ colx, (field sampleFiles (sheet, rowx, colx)).isSome → ∃ v ∈ vs, v.colx = colx) ∧
        (vs.map Shown.colx).Nodup := by
  have hfits : CsvFits sampleFloat sampleFiles := by
    refine ⟨⟨by decide, by decide, by decide, by decide, by decide⟩, ?_, by decide⟩
    simp only [sampleFiles, List.forall_mem_cons, List.not_mem_nil, false_imp_iff, implies_true,
      and_true]
    exact ⟨⟨⟨fun _ => by decide, fun _ => by decide⟩, fun _ => by decide, fun _ => by decide⟩,
      fun _ => by decide⟩
  exact ⟨⟨hfits, by decide⟩, csv2xls_right hfits (by decide)⟩

-- two network cards with the same first part of the name
example : csv2xls sampleFloat [⟨"eth0.100_1108142559.csv".toList, []⟩,
    ⟨"eth0.200_1108142559.csv".toList, []⟩] = none := by
  rw [← Option.not_isSome_iff_eq_none, isSome_csv2xls]
  exact fun h => absurd h.different (by decide)

end LinuxNote.Xls
