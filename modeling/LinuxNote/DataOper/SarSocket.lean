import LinuxNote.Base.AwkCompare
import LinuxNote.Base.Words
import Mathlib.Algebra.BigOperators.Group.List.Basic
import Mathlib.Data.List.OfFn
import Mathlib.Data.List.TakeDrop

/-!
# The use of a socket

`get_sar_socket.sh` and `get_sar_uP.sh` read a report of `sar -P ALL` in the 24-hour format and
print the means over 24 processors, which make a socket.  They differ in the number of columns.
All lines are added up but the rows `all`, so the banner counts for the first socket.

Numbers are exact here, and a mean is the number that is handed to `printf`.

## Main definitions

* `readLine`, `outputs` — what the program prints for each line.
* `Report` — a report: a banner, and blocks of rows.
* `SocketsRight` — a row is printed for each socket, with the means of its processors.
* `BannerHarmless` — the banners for which this is so.

## Main results

* `outputs_rows` — what is printed for the rows of a block, whatever the sums are before.
* `outputs_blocks_iff` — the blocks are right when the sums are 0 before.
* `socketsRight_iff` — **all sockets are right exactly when** the banner does no harm.
-/

namespace LinuxNote.SarSocket

open AwkNumber ShellText

/-! ### The program -/

/-- What is printed: a line as it was read, an empty one, or the row of a socket with its means. -/
inductive Printed
  | line (text : List Char)
  | blank
  | socket (time : List Char) (cpu : ℚ) (means : List ℚ)

def Printed.isSocket : Printed → Bool
  | .socket .. => true
  | _ => false

section Program

variable {columns : ℕ}

/-- The variables: whether a line has been read, and the sums of the columns from `$3` on. -/
structure Vars (columns : ℕ) where
  flag : ℕ
  sum : Fin columns → ℚ

/-- `BEGIN`, which sets the flag and all the sums to 0. -/
def Vars.begin : Vars columns := ⟨0, 0⟩

/-- A column of a line, as the number that the field starts with.  A header has none there and
counts as 0. -/
def column (line : List Char) (i : Fin columns) : ℚ := numValue (field (i + 3) line)

/-- The number of the processor, counted from 1, is a multiple of 24.  A word that is no number
counts as 0, and then the line is no end. -/
def isSocketEnd (line : List Char) : Bool := awkMod (numValue (field 2 line) + 1) 24 == 0

/-- The sums with a line: all lines are added but the row for all processors, also the headers and
the banner. -/
def addLine (sum : Fin columns → ℚ) (line : List Char) : Fin columns → ℚ :=
  if field 2 line = "all".toList then sum else sum + column line

/-- The row of a socket: the time and the processor of its last line, and the sums divided by 24,
whatever they have been summed over. -/
def socketRow (sum : Fin columns → ℚ) (line : List Char) : Printed :=
  .socket (field 1 line) (numValue (field 2 line)) (List.ofFn fun i => sum i / 24)

/-- What the program does with a line, and what it prints: each line is added to the sums, unless
it is that for all processors. -/
def readLine (v : Vars columns) (line : List Char) : Vars columns × List Printed :=
  let sum := addLine v.sum line
  (⟨if v.flag < 1 then v.flag + 1 else v.flag, if isSocketEnd line then 0 else sum⟩,
    (if v.flag < 1 then [.line line] else []) ++
      (if field 2 line = "CPU".toList then [.blank, .line line] else []) ++
      (if field 2 line = "all".toList then [.line line] else []) ++
      if isSocketEnd line then [socketRow sum line] else [])

/-- The variables behind lines, whatever was printed for them. -/
def varsAfter (v : Vars columns) (lines : List (List Char)) : Vars columns :=
  lines.foldl (fun v line => (readLine v line).1) v

/-- What is printed for each line, as a list of its own, so that the row of a socket can be told by
the line that ends it. -/
def outputs : Vars columns → List (List Char) → List (List Printed)
  | _, [] => []
  | v, line :: lines => (readLine v line).2 :: outputs (readLine v line).1 lines

end Program

/-- `get_sar_socket.sh`, for the six columns of `sar -P ALL`. -/
def getSarSocket (lines : List (List Char)) : List (List Printed) :=
  outputs (Vars.begin : Vars 6) lines

/-- `get_sar_uP.sh`, for the ten columns of `sar -u ALL -P ALL`; the program is the same. -/
def getSarUP (lines : List (List Char)) : List (List Printed) :=
  outputs (Vars.begin : Vars 10) lines

/-! ### Reports -/

/-- The banner, which is added to the sums as any other line is: its date, the fourth word, is a
number for `awk`. -/
structure Banner where
  line : List Char
  release : List Char
  host : List Char
  date : List Char
  arch : List Char
  cpus : ℕ
  words_line : words line = ["Linux".toList, release, '(' :: (host ++ [')']), date,
    '_' :: (arch ++ ['_']), '(' :: CText.decimal cpus, "CPU)".toList]
  release_digit : ∃ c t, release = c :: t ∧ c.isDigit = true

/-- A header line.  The names of its columns start with `%`, and so they add nothing to the sums. -/
structure Header where
  line : List Char
  time : List Char
  names : List (List Char)
  words_line : words line = time :: "CPU".toList :: names
  names_percent : ∀ name ∈ names, ∃ t, name = '%' :: t

/-- The row for all processors, which is printed as it is and not added. -/
structure AllRow where
  line : List Char
  time : List Char
  values : List (List Char)
  words_line : words line = time :: "all".toList :: values

/-- The row of a processor.  Its number is what says where a socket ends. -/
structure CpuRow where
  line : List Char
  time : List Char
  cpu : ℕ
  values : List (List Char)
  words_line : words line = time :: CText.decimal cpu :: values

/-- A block of rows, behind a blank line and a header: first the row for all processors, and then
one for each, 24 to a socket. -/
structure Block where
  header : Header
  all : AllRow
  sockets : ℕ
  rows : List CpuRow
  rows_cpu : rows.map CpuRow.cpu = List.range (24 * sockets)

def Block.lines (b : Block) : List (List Char) :=
  [] :: b.header.line :: b.all.line :: b.rows.map CpuRow.line

/-- A report: the samples, and the averages, which are blocks like the others. -/
structure Report where
  banner : Banner
  samples : List Block
  average : Block

def Report.blocks (r : Report) : List Block := r.samples ++ [r.average]

def Report.lines (r : Report) : List (List Char) :=
  r.banner.line :: r.blocks.flatMap Block.lines

/-! ### Right sockets -/

section Right

variable {columns : ℕ}

/-- The row of a socket as it should be: the means of its rows, with the time and the number of the
last one. -/
def CpuRow.socket (columns : ℕ) (last : CpuRow) (rows : List CpuRow) : Printed :=
  .socket last.time last.cpu
    (List.ofFn fun i : Fin columns => (rows.map fun row => column row.line i).sum / rows.length)

/-- The rows of sockets for the rows of a block: one behind every 24th row, for the rows from
the one before on. -/
def rowSockets (columns : ℕ) (rows : List CpuRow) : List (List Printed) :=
  (List.range rows.length).map fun j =>
    if (j + 1) % 24 = 0 then
      (rows[j]?.map fun last => last.socket columns ((rows.drop (j + 1 - 24)).take 24)).toList
    else []

/-- The rows of sockets for the lines of a block. -/
def Block.socketRows (columns : ℕ) (b : Block) : List (List Printed) :=
  [] :: [] :: [] :: rowSockets columns b.rows

/-- For each line, the rows of sockets are those that should be there: the sums of its processors
behind the last one of each socket, and none elsewhere. -/
def SocketsRight (printed : List (List Printed)) (columns : ℕ) (r : Report) : Prop :=
  printed.map (List.filter Printed.isSocket) = [] :: r.blocks.flatMap (Block.socketRows columns)

/-- A banner that does no harm: its release does not look like the last processor of a socket, and
its date counts as 0 unless there are no processors.  Both programs add up the banner like any
other line. -/
structure BannerHarmless (r : Report) : Prop where
  release : awkMod (numValue r.banner.release + 1) 24 ≠ 0
  date : numValue r.banner.date = 0 ∨ ∀ b ∈ r.blocks, b.rows = []

end Right

/-! ### Lines -/

section Lines

variable {columns : ℕ} {v : Vars columns}

theorem field_two {line time second : List Char} {rest : List (List Char)}
    (h : words line = time :: second :: rest) : field 2 line = second := by
  rw [field, h]
  rfl

theorem column_eq {line time second : List Char} {rest : List (List Char)}
    (h : words line = time :: second :: rest) (i : Fin columns) :
    column line i = numValue (rest.getD i []) := by
  rw [column, field, h]
  rfl

/-- A second word that counts as 0 ends no socket. -/
theorem isSocketEnd_of_zero {line : List Char} (h : numValue (field 2 line) = 0) :
    isSocketEnd line = false := by
  rw [isSocketEnd, h]
  decide +kernel

/-- The sockets that are printed for a line. -/
theorem sockets_readLine (v : Vars columns) (line : List Char) :
    (readLine v line).2.filter Printed.isSocket =
      if isSocketEnd line then [socketRow (addLine v.sum line) line] else [] := by
  have hline : ∀ c : Prop, ∀ [Decidable c],
      (if c then [Printed.line line] else []).filter Printed.isSocket = [] := by
    intro c _
    split <;> rfl
  have hheader : (if field 2 line = "CPU".toList then [Printed.blank, .line line] else []).filter
      Printed.isSocket = [] := by
    split <;> rfl
  unfold readLine
  rw [List.filter_append, List.filter_append, List.filter_append, hline, hheader, hline]
  cases isSocketEnd line <;> rfl

theorem outputs_append (v : Vars columns) (a b : List (List Char)) :
    outputs v (a ++ b) = outputs v a ++ outputs (varsAfter v a) b := by
  induction a generalizing v with
  | nil => rfl
  | cons line a ih =>
    rw [List.cons_append, outputs, ih, outputs]
    rfl

theorem varsAfter_append (v : Vars columns) (a b : List (List Char)) :
    varsAfter v (a ++ b) = varsAfter (varsAfter v a) b := List.foldl_append

/-- A line that adds nothing and ends no socket. -/
structure Idle (columns : ℕ) (line : List Char) : Prop where
  sum : ∀ sum : Fin columns → ℚ, addLine sum line = sum
  noEnd : isSocketEnd line = false

theorem Idle.readLine_sum {line : List Char} (h : Idle columns line) :
    (readLine v line).1.sum = v.sum := by
  unfold readLine
  simp only [h.noEnd, h.sum]
  rfl

theorem Idle.sockets {line : List Char} (h : Idle columns line) :
    (readLine v line).2.filter Printed.isSocket = [] := by
  rw [sockets_readLine, h.noEnd]
  rfl

theorem idle_blank : Idle columns [] where
  sum := by
    intro sum
    have hcolumn : column [] = (0 : Fin columns → ℚ) := by
      funext i
      have hzero : numValue [] = 0 := by decide +kernel
      exact hzero
    rw [addLine, if_neg (by decide), hcolumn, add_zero]
  noEnd := isSocketEnd_of_zero (by decide +kernel)

theorem Header.idle (h : Header) : Idle columns h.line where
  sum := by
    intro sum
    have hcolumn : column h.line = (0 : Fin columns → ℚ) := by
      funext i
      rw [column_eq h.words_line, List.getD_eq_getElem?_getD]
      cases hname : h.names[i.val]? with
      | none =>
        have hzero : numValue [] = 0 := by decide +kernel
        exact hzero
      | some name =>
        obtain ⟨t, rfl⟩ := h.names_percent name (List.mem_of_getElem? hname)
        exact numValue_eq_zero (by decide) (by decide) (by decide) t
    rw [addLine, field_two h.words_line, if_neg (by decide), hcolumn, add_zero]
  noEnd := isSocketEnd_of_zero (by rw [field_two h.words_line]; decide +kernel)

theorem AllRow.idle (a : AllRow) : Idle columns a.line where
  sum := fun sum => by rw [addLine, field_two a.words_line, if_pos rfl]
  noEnd := isSocketEnd_of_zero (by rw [field_two a.words_line]; decide +kernel)

theorem CpuRow.isSocketEnd (r : CpuRow) :
    isSocketEnd r.line = decide ((r.cpu + 1) % 24 = 0) := by
  have hsucc : ((r.cpu : ℚ) + 1) = (r.cpu + 1 : ℕ) := by push_cast; rfl
  have hmod : ((24 : ℕ) : ℚ) = 24 := rfl
  rw [SarSocket.isSocketEnd, field_two r.words_line, numValue_decimal, hsucc, ← hmod,
    awkMod_natCast, Bool.eq_iff_iff, beq_iff_eq, decide_eq_true_iff, Nat.cast_eq_zero]

theorem CpuRow.addLine (r : CpuRow) (sum : Fin columns → ℚ) :
    addLine sum r.line = sum + column r.line := by
  have hall : CText.decimal r.cpu ≠ "all".toList := by
    intro h
    have hdigit : 'a'.isDigit = true :=
      CText.isDigit_of_mem_decimal (n := r.cpu) (by rw [h]; exact List.mem_cons_self)
    exact absurd hdigit (by decide)
  rw [SarSocket.addLine, field_two r.words_line, if_neg hall]

end Lines

/-! ### The rows of a block -/

section Rows

variable {columns : ℕ}

/-- The sums of the columns of rows: what the row of a socket should be made of. -/
def rowsSum (rows : List CpuRow) : Fin columns → ℚ :=
  fun i => (rows.map fun row => column row.line i).sum

theorem rowsSum_append (a b : List CpuRow) :
    (rowsSum (a ++ b) : Fin columns → ℚ) = rowsSum a + rowsSum b := by
  funext i
  simp [rowsSum]

/-- What is printed for the rows of a block when the sums are not 0 before: they count for the
first socket. -/
def rowSocketsFrom (sum : Fin columns → ℚ) (rows : List CpuRow) : List (List Printed) :=
  (List.range rows.length).map fun j =>
    if (j + 1) % 24 = 0 then
      (rows[j]?.map fun last => socketRow
        ((if j < 24 then sum else 0) + rowsSum ((rows.drop (j + 1 - 24)).take 24)) last.line).toList
    else []

theorem rowsSum_singleton (r : CpuRow) : (rowsSum [r] : Fin columns → ℚ) = column r.line := by
  funext i
  simp [rowsSum]

theorem rowSocketsFrom_append (sum : Fin columns → ℚ) (rows : List CpuRow) (r : CpuRow) :
    rowSocketsFrom sum (rows ++ [r]) = rowSocketsFrom sum rows ++
      [if (rows.length + 1) % 24 = 0 then
        [socketRow ((if rows.length < 24 then sum else 0) +
          rowsSum (rows.drop (rows.length + 1 - 24) ++ [r])) r.line]
      else []] := by
  unfold rowSocketsFrom
  rw [List.length_append, List.length_singleton, List.range_succ, List.map_append, List.map_singleton]
  congr 1
  · apply List.map_congr_left
    intro j hj
    have hlt : j < rows.length := List.mem_range.mp hj
    split
    · next hend =>
      have hfirst : ((rows ++ [r]).drop (j + 1 - 24)).take 24 =
          (rows.drop (j + 1 - 24)).take 24 := by
        rw [List.drop_append_of_le_length (by omega), List.take_append_of_le_length]
        rw [List.length_drop]
        omega
      rw [List.getElem?_append_left hlt, hfirst]
    · rfl
  · split
    · next hend =>
      have hall : ((rows ++ [r]).drop (rows.length + 1 - 24)).take 24 =
          rows.drop (rows.length + 1 - 24) ++ [r] := by
        rw [List.drop_append_of_le_length (by omega), List.take_of_length_le]
        rw [List.length_append, List.length_drop, List.length_singleton]
        omega
      rw [List.getElem?_concat_length, hall]
      rfl
    · rfl

/-- **What is printed for the rows of a block**, and the sums behind them: what was in the sums
before counts for the first socket. -/
theorem outputs_rows (v : Vars columns) {rows : List CpuRow}
    (hrows : rows.map CpuRow.cpu = List.range rows.length) :
    (outputs v (rows.map CpuRow.line)).map (List.filter Printed.isSocket) =
        rowSocketsFrom v.sum rows ∧
      (varsAfter v (rows.map CpuRow.line)).sum =
        (if rows.length < 24 then v.sum else 0) + rowsSum (rows.drop (rows.length / 24 * 24)) := by
  -- by induction on the last row, as the rows before it say what the sums are
  induction rows using List.reverseRecOn with
  | nil =>
    refine ⟨rfl, ?_⟩
    rw [List.length_nil, if_pos (by decide), List.drop_nil]
    exact (add_zero v.sum).symm
  | append_singleton rows r ih =>
    rw [List.length_append, List.length_singleton, List.range_succ, List.map_append] at hrows
    obtain ⟨hinit, hlast⟩ := List.append_inj hrows (by simp)
    have hcpu : r.cpu = rows.length := by simpa using hlast
    obtain ⟨houtputs, hsum⟩ := ih hinit
    have hend : isSocketEnd r.line = decide ((rows.length + 1) % 24 = 0) := by
      rw [r.isSocketEnd, hcpu]
    have hadd : addLine (varsAfter v (rows.map CpuRow.line)).sum r.line =
        (if rows.length < 24 then v.sum else 0) +
          rowsSum (rows.drop (rows.length / 24 * 24) ++ [r]) := by
      rw [r.addLine, hsum, rowsSum_append, rowsSum_singleton, add_assoc]
    constructor
    · rw [List.map_append, outputs_append, List.map_append, houtputs, rowSocketsFrom_append]
      congr 1
      rw [List.map_singleton, outputs, outputs, List.map_singleton, sockets_readLine, hend, hadd]
      by_cases hmod : (rows.length + 1) % 24 = 0
      -- the last row ends a socket, whose rows are the last 24
      · have hstart : rows.length / 24 * 24 = rows.length + 1 - 24 := by omega
        rw [if_pos (decide_eq_true hmod), if_pos hmod, hstart]
      · rw [if_neg (by simpa using hmod), if_neg hmod]
    · have hstep : (varsAfter v ((rows ++ [r]).map CpuRow.line)).sum =
          if (rows.length + 1) % 24 = 0 then 0
          else (if rows.length < 24 then v.sum else 0) +
            rowsSum (rows.drop (rows.length / 24 * 24) ++ [r]) := by
        rw [List.map_append, varsAfter_append, ← hadd]
        simp only [varsAfter, List.map_singleton, List.foldl_cons, List.foldl_nil, readLine, hend,
          decide_eq_true_eq]
      rw [hstep, List.length_append, List.length_singleton]
      by_cases hmod : (rows.length + 1) % 24 = 0
      · have hdrop : (rows ++ [r]).drop ((rows.length + 1) / 24 * 24) = [] := by
          rw [List.drop_eq_nil_iff, List.length_append, List.length_singleton]
          omega
        rw [if_pos hmod, if_neg (by omega), hdrop]
        exact (add_zero _).symm
      · have hsame : (rows.length + 1) / 24 * 24 = rows.length / 24 * 24 := by omega
        have hlt : rows.length + 1 < 24 ↔ rows.length < 24 := by omega
        rw [if_neg hmod, hsame, List.drop_append_of_le_length (by omega), if_congr hlt rfl rfl]

theorem CpuRow.socketRow_eq (r : CpuRow) (sum : Fin columns → ℚ) :
    socketRow sum r.line = .socket r.time r.cpu (List.ofFn fun i => sum i / 24) := by
  have htime : field 1 r.line = r.time := by
    rw [field, r.words_line]
    rfl
  rw [socketRow, htime, field_two r.words_line, numValue_decimal]

/-- **The sockets of a block are right** when the sums are 0 before, or there are none: each later
socket starts with sums that the one before has cleared. -/
theorem rowSocketsFrom_eq_iff (sum : Fin columns → ℚ) (rows : List CpuRow) :
    rowSocketsFrom sum rows = rowSockets columns rows ↔ sum = 0 ∨ rows.length < 24 := by
  -- the row of a socket is right when nothing was in the sums before its first row
  have hsocket : ∀ j, j < rows.length → (j + 1) % 24 = 0 → ∀ last : CpuRow,
      (socketRow ((if j < 24 then sum else 0) + rowsSum ((rows.drop (j + 1 - 24)).take 24)) last.line =
        last.socket columns ((rows.drop (j + 1 - 24)).take 24) ↔ (j < 24 → sum = 0)) := by
    intro j hj hend last
    have hlength : ((rows.drop (j + 1 - 24)).take 24).length = 24 := by
      rw [List.length_take, List.length_drop]
      omega
    rw [last.socketRow_eq, CpuRow.socket, hlength, Printed.socket.injEq, List.ofFn_inj, funext_iff]
    simp only [true_and, Nat.cast_ofNat, div_left_inj' (by norm_num : (24 : ℚ) ≠ 0), Pi.add_apply]
    by_cases hfirst : j < 24
    · rw [if_pos hfirst]
      simp [rowsSum, hfirst, funext_iff]
    · rw [if_neg hfirst]
      simp [rowsSum, hfirst]
  unfold rowSocketsFrom rowSockets
  rw [List.map_inj_left]
  constructor
  · intro h
    by_contra hnot
    rw [not_or, not_lt] at hnot
    -- it is the first socket that has the sum in it
    have hlt : 23 < rows.length := by omega
    have hmod : (23 + 1) % 24 = 0 := by decide
    have hend := h 23 (List.mem_range.mpr hlt)
    rw [if_pos hmod, if_pos hmod, List.getElem?_eq_getElem hlt, Option.map_some,
      Option.map_some, Option.toList_some, Option.toList_some, List.cons.injEq] at hend
    exact hnot.1 ((hsocket 23 hlt (by decide) _).mp hend.1 (by decide))
  · intro h j hj
    have hlt : j < rows.length := List.mem_range.mp hj
    split
    · next hend =>
      rw [List.getElem?_eq_getElem hlt, Option.map_some, Option.map_some]
      congr 2
      rw [hsocket j hlt hend]
      intro hfirst
      exact h.resolve_right (by omega)
    · rfl

end Rows

/-! ### Blocks -/

section Blocks

variable {columns : ℕ}

theorem Block.length_rows (b : Block) : b.rows.length = 24 * b.sockets := by
  rw [← List.length_map, b.rows_cpu, List.length_range]

/-- **What is printed for a block**: the sums of the lines before count for its first socket,
and are 0 behind it. -/
theorem outputs_block (v : Vars columns) (b : Block) :
    (outputs v b.lines).map (List.filter Printed.isSocket) =
        [] :: [] :: [] :: rowSocketsFrom v.sum b.rows ∧
      (varsAfter v b.lines).sum = if b.rows = [] then v.sum else 0 := by
  have hrows : b.rows.map CpuRow.cpu = List.range b.rows.length := by
    rw [b.length_rows, b.rows_cpu]
  have hblank : Idle columns [] := idle_blank
  let v₁ := (readLine v []).1
  let v₂ := (readLine v₁ b.header.line).1
  let v₃ := (readLine v₂ b.all.line).1
  have hsum : v₃.sum = v.sum :=
    (b.all.idle.readLine_sum).trans ((b.header.idle.readLine_sum).trans hblank.readLine_sum)
  obtain ⟨houtputs, hafter⟩ := outputs_rows v₃ hrows
  constructor
  · rw [← hsum, ← houtputs, Block.lines, outputs, outputs, outputs, List.map_cons, List.map_cons,
      List.map_cons, hblank.sockets, b.header.idle.sockets, b.all.idle.sockets]
  · have hlines : (varsAfter v b.lines).sum = (varsAfter v₃ (b.rows.map CpuRow.line)).sum := rfl
    have hdrop : b.rows.drop (b.rows.length / 24 * 24) = [] := by
      rw [List.drop_eq_nil_iff, b.length_rows]
      omega
    have hfew : b.rows.length < 24 ↔ b.rows = [] := by
      rw [← List.length_eq_zero_iff, b.length_rows]
      omega
    rw [hlines, hafter, hdrop, hsum, if_congr hfew rfl rfl]
    exact add_zero _

/-- **The blocks are right** when the sums are 0 before, or there are no processors, as only rows
of processors can clear the sums. -/
theorem outputs_blocks_iff (v : Vars columns) (blocks : List Block) :
    (outputs v (blocks.flatMap Block.lines)).map (List.filter Printed.isSocket) =
        blocks.flatMap (Block.socketRows columns) ↔
      v.sum = 0 ∨ ∀ b ∈ blocks, b.rows = [] := by
  induction blocks generalizing v with
  | nil => simp [outputs]
  | cons b blocks ih =>
    obtain ⟨houtputs, hafter⟩ := outputs_block v b
    -- a socket has 24 rows, so a block with fewer has none
    have hfew : b.rows.length < 24 ↔ b.rows = [] := by
      rw [← List.length_eq_zero_iff, b.length_rows]
      omega
    have hlength : ([] :: [] :: [] :: rowSocketsFrom v.sum b.rows : List (List Printed)).length =
        (b.socketRows columns).length := by
      simp [Block.socketRows, rowSocketsFrom, rowSockets]
    have hblock : ([] :: [] :: [] :: rowSocketsFrom v.sum b.rows : List (List Printed)) =
        b.socketRows columns ↔ v.sum = 0 ∨ b.rows = [] := by
      rw [Block.socketRows, List.cons_inj_right, List.cons_inj_right, List.cons_inj_right,
        rowSocketsFrom_eq_iff, hfew]
    rw [List.flatMap_cons, List.flatMap_cons, outputs_append, List.map_append, houtputs,
      List.forall_mem_cons]
    constructor
    · intro h
      -- the sums are zero behind a block with rows, and unchanged behind one without
      obtain ⟨hfirst, hrest⟩ := List.append_inj h hlength
      have hrest' := (ih _).mp hrest
      rw [hafter] at hrest'
      rcases hblock.mp hfirst with hzero | hnil
      · exact Or.inl hzero
      · rw [if_pos hnil] at hrest'
        exact hrest'.imp_right fun hnone => ⟨hnil, hnone⟩
    · intro h
      have hfirst := hblock.mpr (h.imp_right And.left)
      rw [hfirst, List.append_cancel_left_eq, ih, hafter]
      rcases h with hzero | ⟨hnil, hnone⟩
      · left
        rw [hzero]
        split <;> rfl
      · exact Or.inr hnone

end Blocks

/-! ### The banner -/

section BannerLine

variable {columns : ℕ}

theorem Banner.release_ne (b : Banner) : b.release ≠ "all".toList := by
  obtain ⟨c, t, hrelease, hdigit⟩ := b.release_digit
  rw [hrelease]
  intro h
  rw [(List.cons.inj h).1] at hdigit
  exact absurd hdigit (by decide)

/-- Of the banner, only the date can count. -/
theorem Banner.column_eq_zero_iff (hcolumns : 2 ≤ columns) (b : Banner) :
    (column b.line : Fin columns → ℚ) = 0 ↔ numValue b.date = 0 := by
  have hcolumn := fun i : Fin columns => column_eq b.words_line i
  constructor
  · intro h
    have hdate := hcolumn ⟨1, hcolumns⟩
    rw [h] at hdate
    exact hdate.symm
  · intro h
    funext i
    rw [hcolumn i]
    obtain ⟨i, hi⟩ := i
    match i with
    | 0 => exact numValue_eq_zero (by decide) (by decide) (by decide) _
    | 1 => exact h
    | 2 => exact numValue_eq_zero (by decide) (by decide) (by decide) _
    | 3 => exact numValue_eq_zero (by decide) (by decide) (by decide) _
    | 4 => exact numValue_eq_zero (by decide) (by decide) (by decide) _
    | i + 5 =>
      have hzero : numValue [] = 0 := by decide +kernel
      exact hzero

/-- With two columns or more, the sockets are right when the banner does no harm. -/
theorem outputs_report_iff (hcolumns : 2 ≤ columns) (r : Report) :
    SocketsRight (outputs (Vars.begin : Vars columns) r.lines) columns r ↔ BannerHarmless r := by
  have hend : isSocketEnd r.banner.line =
      decide (awkMod (numValue r.banner.release + 1) 24 = 0) := by
    rw [isSocketEnd, field_two r.banner.words_line, Bool.eq_iff_iff, beq_iff_eq, decide_eq_true_iff]
  have hsum : addLine (Vars.begin : Vars columns).sum r.banner.line = column r.banner.line := by
    rw [addLine, field_two r.banner.words_line, if_neg r.banner.release_ne]
    exact zero_add _
  rw [SocketsRight, Report.lines, outputs, List.map_cons, List.cons.injEq, sockets_readLine,
    outputs_blocks_iff, hend, hsum]
  by_cases hmod : awkMod (numValue r.banner.release + 1) 24 = 0
  · rw [if_pos (decide_eq_true hmod)]
    constructor
    · rintro ⟨h, -⟩
      exact absurd h (List.cons_ne_nil _ _)
    · exact fun h => absurd hmod h.release
  · have hfirst : (readLine (Vars.begin : Vars columns) r.banner.line).1.sum =
        column r.banner.line := by
      simp only [readLine, hend, hmod, hsum]
      rfl
    rw [if_neg (by simpa using hmod), hfirst, r.banner.column_eq_zero_iff hcolumns]
    constructor
    · rintro ⟨-, h⟩
      exact ⟨hmod, h⟩
    · exact fun h => ⟨rfl, h.date⟩

end BannerLine

/-- **All sockets are right exactly when** the banner does no harm, for both programs: the other
lines that are no rows of processors add zeros. -/
theorem socketsRight_iff (r : Report) :
    (SocketsRight (getSarSocket r.lines) 6 r ↔ BannerHarmless r) ∧
      (SocketsRight (getSarUP r.lines) 10 r ↔ BannerHarmless r) :=
  ⟨outputs_report_iff (by decide) r, outputs_report_iff (by decide) r⟩

section Idle

variable (time : List Char) (htime : words time = [time])

/-- The row of an idle processor. -/
def idleCpu (cpu : ℕ) : CpuRow where
  line := time ++ ' ' :: (CText.decimal cpu ++ ' ' :: "0.00 0.00 0.00 0.00 0.00 100.00".toList)
  time := time
  cpu := cpu
  values := words "0.00 0.00 0.00 0.00 0.00 100.00".toList
  words_line := by
    have hblank : ∀ c ∈ CText.decimal cpu, isBlank c = false := by
      intro c hc
      have hdigit := CText.isDigit_of_mem_decimal hc
      unfold isBlank
      rw [Bool.or_eq_false_iff, beq_eq_false_iff_ne, beq_eq_false_iff_ne]
      constructor <;> rintro rfl <;> exact absurd hdigit (by decide)
    rw [words_append_blank (by decide), words_append_blank (by decide), htime,
      words_free (CText.decimal_ne_nil cpu) hblank]
    rfl

/-- The block of an idle socket. -/
def idleBlock : Block where
  header :=
    { line := time ++ ' ' :: "CPU %user %nice %system %iowait %steal %idle".toList
      time := time
      names := ["%user", "%nice", "%system", "%iowait", "%steal", "%idle"].map String.toList
      words_line := by
        have hnames : words "CPU %user %nice %system %iowait %steal %idle".toList =
            "CPU".toList :: ["%user", "%nice", "%system", "%iowait", "%steal", "%idle"].map
              String.toList := by
          decide +kernel
        rw [words_append_blank (by decide), htime, hnames]
        rfl
      names_percent := by simp }
  all :=
    { line := time ++ ' ' :: "all 0.00 0.00 0.00 0.00 0.00 100.00".toList
      time := time
      values := words "0.00 0.00 0.00 0.00 0.00 100.00".toList
      words_line := by
        have hvalues : words "all 0.00 0.00 0.00 0.00 0.00 100.00".toList =
            "all".toList :: words "0.00 0.00 0.00 0.00 0.00 100.00".toList := by
          decide +kernel
        rw [words_append_blank (by decide), htime, hvalues]
        rfl }
  sockets := 1
  rows := (List.range 24).map (idleCpu time htime)
  rows_cpu := by
    rw [List.map_map]
    exact List.map_id _

end Idle

/-- A report on a machine with one idle socket. -/
def idleReport : Report where
  banner :=
    { line := "Linux 3.10.0-514.el7.x86_64 (host) 10/17/2017 _x86_64_ (24 CPU)".toList
      release := "3.10.0-514.el7.x86_64".toList
      host := "host".toList
      date := "10/17/2017".toList
      arch := "x86_64".toList
      cpus := 24
      words_line := by decide +kernel
      release_digit := ⟨'3', _, rfl, by decide⟩ }
  samples := [idleBlock "00:00:02".toList (by decide)]
  average := idleBlock "Average:".toList (by decide)

/-- The month counts for the first socket. -/
theorem not_socketsRight_idle : ¬ SocketsRight (getSarSocket idleReport.lines) 6 idleReport := by
  intro h
  rcases ((outputs_report_iff (by decide) idleReport).mp h).date with hdate | hnone
  · revert hdate
    decide +kernel
  · have hrows := hnone _ List.mem_cons_self
    revert hrows
    exact List.cons_ne_nil _ _

end LinuxNote.SarSocket
