import LinuxNote.Base.AwkCompare
import LinuxNote.Base.Words
import Mathlib.Data.List.GetD

/-!
# Text reports of sar

A section of a report in 12-hour format: the banner, then samples with a blank line, a
header line and rows, and the averages.  Only the words of a line matter, so lines are
texts of which the words are known.

The scripts count the fields with `AM` or `PM` among them.  In 24-hour format, which `sar` uses in
other locales, each field of a row stands one place further in front; such reports are not
modelled.

## Main definitions

* `Banner`, `Header`, `Row`, `AverageLine` — the lines of a report.
* `Item` — a line together with its kind.
* `Report` — a section whose samples have a row for each object.

* `Banner.ofText`, `Header.ofText`, `Row.ofText` — lines read from their texts.

## Main results

* `map_line_filter` — a kind of rows as a kind of lines.
* `Row.infix_line_iff` — where a word can occur in a row.
-/

namespace LinuxNote.Sar

open AwkNumber ShellText

/-! ### Lines -/

/-- A time of day, in digits and colons.  The words for other things on a line are told
from it by that. -/
def IsClock (w : List Char) : Prop := ∀ c ∈ w, c.isDigit = true ∨ c = ':'

/-- `AM` or `PM`, as the 12-hour format has it behind the time.  It is what puts the
columns where the scripts look for them. -/
def IsHalf (w : List Char) : Prop := w = "AM".toList ∨ w = "PM".toList

/-- The first line: kernel, host and what follows. -/
structure Banner where
  line : List Char
  release : List Char
  host : List Char
  more : List (List Char)
  words_line : words line = "Linux".toList :: release :: ('(' :: host) :: more
  /-- Date, architecture and number of processors are a few words. -/
  short : more.length ≤ 7
  plain : occursIn "Average".toList line = false

/-- A header line with given columns behind the time. -/
structure Header (columns : List (List Char)) where
  line : List Char
  clock : List Char
  half : List Char
  more : List (List Char)
  words_line : words line = clock :: half :: (columns ++ more)
  clock_isClock : IsClock clock
  plain : occursIn "Average".toList line = false

/-- A data row in the 12-hour format: the time with `AM` or `PM`, the name of an object
and at least `n` numbers. -/
structure Row (n : ℕ) where
  line : List Char
  clock : List Char
  half : List Char
  name : List Char
  values : List (List Char)
  words_line : words line = clock :: half :: name :: values
  clock_isClock : IsClock clock
  half_isHalf : IsHalf half
  le_length : n ≤ values.length
  values_numeric : ∀ v ∈ values, looksNumeric v = true

/-- A line of the averages, by the word which the scripts leave out lines with. -/
structure AverageLine where
  line : List Char
  average : occursIn "Average".toList line = true

/-- A line of a report, by what it is.  The scripts have to tell it from its text. -/
inductive Item (columns : List (List Char)) (n : ℕ) where
  | banner (b : Banner)
  | blank
  | header (h : Header columns)
  | row (r : Row n)
  | average (a : AverageLine)

variable {columns : List (List Char)} {n : ℕ}

def Item.text : Item columns n → List Char
  | .banner b => b.line
  | .blank => []
  | .header h => h.line
  | .row r => r.line
  | .average a => a.line

/-- The row on a line. -/
def Item.row? : Item columns n → Option (Row n)
  | .row r => some r
  | _ => none

/-- A kind of rows, as a kind of lines. -/
def Item.hasRow (kind : Row n → Bool) : Item columns n → Bool
  | .row r => kind r
  | _ => false

/-- The number in a column of a row, from 0 on for the first behind the name. -/
def Row.value (r : Row n) (i : ℕ) : ℚ := numValue (r.values.getD i [])

/-! ### Reports -/

/-- One sample: a header, which stands behind a blank line, and a row for each object. -/
structure Sample (columns : List (List Char)) (n : ℕ) where
  header : Header columns
  rows : List (Row n)

def Sample.items (s : Sample columns n) : List (Item columns n) :=
  .blank :: .header s.header :: s.rows.map .row

/-- A report on one kind of objects: the banner, samples with a header each, and the
averages behind them, if sar was not stopped before. -/
structure Report (columns : List (List Char)) (n : ℕ) where
  banner : Banner
  samples : List (Sample columns n)
  averages : List AverageLine

namespace Report

/-- The averages, behind a blank line.  Without averages there is no blank line, either.
-/
def closing (r : Report columns n) : List (Item columns n) :=
  if r.averages = [] then [] else .blank :: r.averages.map .average

def items (r : Report columns n) : List (Item columns n) :=
  .banner r.banner :: (r.samples.flatMap Sample.items ++ r.closing)

/-- The text of the report, as the scripts read it. -/
def lines (r : Report columns n) : List (List Char) := r.items.map Item.text

/-- All data rows, in order, without the averages. -/
def rows (r : Report columns n) : List (Row n) := r.samples.flatMap Sample.rows

/-- The first header line. -/
def headerLine (r : Report columns n) : List Char :=
  match r.samples with
  | [] => []
  | s :: _ => s.header.line

/-- The objects of the report, once for each of their rows. -/
def names (r : Report columns n) : List (List Char) := r.rows.map Row.name

end Report

/-! ### Rows among the lines -/

/-- The lines of a kind of rows are the lines of a kind of lines. -/
theorem map_line_filter (kind : Row n → Bool) (is : List (Item columns n)) :
    ((is.filterMap Item.row?).filter kind).map Row.line =
      (is.filter (Item.hasRow kind)).map Item.text := by
  induction is with
  | nil => rfl
  | cons i is ih =>
    cases i with
    | row r =>
      have hrow : Item.hasRow kind (.row r : Item columns n) = kind r := rfl
      have hcons : (Item.row r :: is).filterMap Item.row? = r :: is.filterMap Item.row? := rfl
      rw [hcons, List.filter_cons, List.filter_cons, hrow]
      cases kind r with
      | true => simpa using ⟨rfl, ih⟩
      | false => exact ih
    | banner b => exact ih
    | blank => exact ih
    | header h => exact ih
    | average a => exact ih

theorem filterMap_row?_map (rows : List (Row n)) :
    (rows.map fun r => (Item.row r : Item columns n)).filterMap Item.row? = rows := by
  rw [List.filterMap_map]
  exact List.filterMap_some

/-- The rows of samples. -/
theorem filterMap_row?_samples (ss : List (Sample columns n)) :
    (ss.flatMap Sample.items).filterMap Item.row? = ss.flatMap Sample.rows := by
  induction ss with
  | nil => rfl
  | cons s ss ih =>
    rw [List.flatMap_cons, List.flatMap_cons, List.filterMap_append, ih]
    congr 1
    exact filterMap_row?_map s.rows

theorem Report.rows_eq (r : Report columns n) : r.rows = r.items.filterMap Item.row? := by
  have hclosing : r.closing.filterMap Item.row? = [] := by
    unfold Report.closing
    split
    · rfl
    · simp [Item.row?, List.filterMap_eq_nil_iff]
  rw [Report.items, List.filterMap_cons_none rfl, List.filterMap_append, filterMap_row?_samples,
    hclosing, List.append_nil]
  rfl

theorem mem_filterMap_row? {is : List (Item columns n)} {row : Row n} :
    row ∈ is.filterMap Item.row? ↔ .row row ∈ is := by
  rw [List.mem_filterMap]
  constructor
  · rintro ⟨i, hi, hrow⟩
    cases i with
    | row x =>
      rw [← Option.some.inj hrow]
      exact hi
    | banner b => exact absurd hrow (by simp [Item.row?])
    | blank => exact absurd hrow (by simp [Item.row?])
    | header h => exact absurd hrow (by simp [Item.row?])
    | average a => exact absurd hrow (by simp [Item.row?])
  · intro h
    exact ⟨.row row, h, rfl⟩

/-- The rows are the lines with a row. -/
theorem Report.mem_rows_iff (r : Report columns n) (row : Row n) :
    row ∈ r.rows ↔ Item.row row ∈ r.items := by
  rw [r.rows_eq, mem_filterMap_row?]

/-- An object has a row in some sample. -/
theorem Report.exists_sample (r : Report columns n) {name : List Char} (h : name ∈ r.names) :
    ∃ s ss, r.samples = s :: ss := by
  obtain ⟨row, hrow, -⟩ := List.mem_map.mp h
  obtain ⟨s, hs, -⟩ := List.mem_flatMap.mp hrow
  exact List.exists_cons_of_ne_nil (List.ne_nil_of_mem hs)

/-- With an object, there is a blank line. -/
theorem Report.blank_mem (r : Report columns n) {name : List Char} (h : name ∈ r.names) :
    Item.blank ∈ r.items := by
  obtain ⟨s, ss, hsamples⟩ := r.exists_sample h
  rw [Report.items, hsamples]
  exact List.mem_cons_of_mem _ List.mem_cons_self

/-- There is one banner. -/
theorem Report.eq_banner (r : Report columns n) {b : Banner} (h : Item.banner b ∈ r.items) :
    b = r.banner := by
  rcases List.mem_cons.mp h with h | h
  · exact Item.banner.inj h
  rcases List.mem_append.mp h with h | h
  · obtain ⟨s, -, hs⟩ := List.mem_flatMap.mp h
    simp [Sample.items] at hs
  · unfold Report.closing at h
    split at h
    · exact absurd h List.not_mem_nil
    · simp at h

/-- The first lines of a report that has a sample. -/
theorem Report.lines_cons (r : Report columns n) {s : Sample columns n}
    {ss : List (Sample columns n)} (h : r.samples = s :: ss) :
    ∃ rest, r.lines = r.banner.line :: [] :: s.header.line :: rest := by
  unfold Report.lines Report.items
  rw [h]
  exact ⟨_, rfl⟩

/-! ### Fields -/

theorem field_of_words {line : List Char} {ws : List (List Char)} (h : words line = ws) (k : ℕ) :
    field k line = ws.getD (k - 1) [] := by
  rw [field, h]

/-- The name of an object is the third word of its row. -/
theorem Row.field_name (r : Row n) : field 3 r.line = r.name := by
  rw [field_of_words r.words_line]
  rfl

theorem Row.field_value (r : Row n) (i : ℕ) : field (i + 4) r.line = r.values.getD i [] := by
  rw [field_of_words r.words_line]
  rfl

theorem Row.name_ne_nil (r : Row n) : r.name ≠ [] := by
  have hmem : r.name ∈ words r.line := by
    rw [r.words_line]
    simp
  exact (mem_words hmem).1

/-- The names of rows are their third words. -/
theorem map_field_name (rows : List (Row n)) :
    (rows.map Row.line).map (field 3) = rows.map Row.name := by
  rw [List.map_map]
  exact List.map_congr_left fun row _ => row.field_name

/-- The lines of a sample. -/
theorem Sample.map_text_items (s : Sample columns n) :
    s.items.map Item.text = [] :: s.header.line :: s.rows.map Row.line := by
  simp [Sample.items, Item.text, Function.comp_def]

/-- The columns that a row is known to have are numbers. -/
theorem Row.looksNumeric_value (r : Row n) {i : ℕ} (hi : i < n) :
    looksNumeric (r.values.getD i []) = true := by
  have hlt : i < r.values.length := Nat.lt_of_lt_of_le hi r.le_length
  rw [List.getD_eq_getElem _ _ hlt]
  exact r.values_numeric _ (List.getElem_mem hlt)

theorem Banner.field_host (b : Banner) : field 3 b.line = '(' :: b.host := by
  rw [field_of_words b.words_line]
  rfl

/-- The banner has no eleventh word. -/
theorem Banner.field_eleven (b : Banner) : field 11 b.line = [] := by
  rw [field_of_words b.words_line]
  have hshort := b.short
  apply List.getD_eq_default
  simp only [List.length_cons]
  omega

theorem Banner.fieldNumeric_host (b : Banner) : fieldNumeric (field 3 b.line) = false := by
  rw [b.field_host, fieldNumeric,
    looksNumeric_cons_eq_false (by decide) ⟨by decide, by decide, by decide⟩]
  rfl

theorem Header.field_column (h : Header columns) {i : ℕ} (hi : i < columns.length) :
    field (i + 3) h.line = columns.getD i [] := by
  rw [field_of_words h.words_line]
  change (columns ++ h.more).getD i [] = columns.getD i []
  rw [List.getD_eq_getElem?_getD, List.getD_eq_getElem?_getD, List.getElem?_append_left hi]

@[simp] theorem field_nil (k : ℕ) : field k [] = [] := rfl

/-! ### What tells the lines apart -/

theorem IsClock.ne_linux {w : List Char} (h : IsClock w) : w ≠ "Linux".toList := by
  rintro rfl
  rcases h 'L' (by decide) with h | h
  · exact absurd h (by decide)
  · exact absurd h (by decide)

theorem Banner.line_ne_row (b : Banner) (r : Row n) : b.line ≠ r.line := by
  intro h
  have hwords := r.words_line
  rw [← h, b.words_line] at hwords
  exact r.clock_isClock.ne_linux (List.cons.inj hwords).1.symm

theorem Banner.line_ne_header (b : Banner) (h : Header columns) : b.line ≠ h.line := by
  intro heq
  have hwords := h.words_line
  rw [← heq, b.words_line] at hwords
  exact h.clock_isClock.ne_linux (List.cons.inj hwords).1.symm

theorem Row.line_ne_nil (r : Row n) : r.line ≠ [] := by
  intro h
  have hwords := r.words_line
  rw [h, words_nil] at hwords
  exact absurd hwords (by simp)

theorem Header.line_ne_nil (h : Header columns) : h.line ≠ [] := by
  intro heq
  have hwords := h.words_line
  rw [heq, words_nil] at hwords
  exact absurd hwords (by simp)

/-! ### Reading lines -/

def isClockText (w : List Char) : Bool := w.all fun c => c.isDigit || c == ':'

theorem isClock_of_text {w : List Char} (h : isClockText w = true) : IsClock w := by
  intro c hc
  simpa using List.all_eq_true.mp h c hc

/-- Whether a line is a banner, so that one can be made of a given text. -/
def isBannerText (line : List Char) : Bool :=
  match words line with
  | linux :: _ :: ('(' :: _) :: more =>
    linux == "Linux".toList && decide (more.length ≤ 7) && !occursIn "Average".toList line
  | _ => false

theorem of_isBannerText {line : List Char} (h : isBannerText line = true) :
    words line = "Linux".toList :: field 2 line :: ('(' :: (field 3 line).tail) ::
        (words line).drop 3 ∧
      ((words line).drop 3).length ≤ 7 ∧ occursIn "Average".toList line = false := by
  unfold isBannerText at h
  split at h
  · next linux release host more hwords =>
    simp only [Bool.and_eq_true, beq_iff_eq, decide_eq_true_eq, Bool.not_eq_eq_eq_not,
      Bool.not_true] at h
    rw [field, field, hwords, h.1.1]
    exact ⟨rfl, h.1.2, h.2⟩
  · exact absurd h (by decide)

def Banner.ofText (line : List Char) (h : isBannerText line = true) : Banner where
  line := line
  release := field 2 line
  host := (field 3 line).tail
  more := (words line).drop 3
  words_line := (of_isBannerText h).1
  short := (of_isBannerText h).2.1
  plain := (of_isBannerText h).2.2

/-- The banner of a machine with four processors. -/
def Banner.fourCpus : Banner :=
  .ofText "Linux 3.10.0 (host)  11/08/2017  _x86_64_  (4 CPU)".toList (by decide +kernel)

/-- Whether a line is a header with given columns. -/
def isHeaderText (columns : List (List Char)) (line : List Char) : Bool :=
  match words line with
  | clock :: _ :: rest =>
    isClockText clock && columns.isPrefixOf rest && !occursIn "Average".toList line
  | _ => false

theorem of_isHeaderText {columns : List (List Char)} {line : List Char}
    (h : isHeaderText columns line = true) :
    words line = field 1 line :: field 2 line ::
        (columns ++ (words line).drop (2 + columns.length)) ∧
      IsClock (field 1 line) ∧ occursIn "Average".toList line = false := by
  unfold isHeaderText at h
  split at h
  · next clock half rest hwords =>
    simp only [Bool.and_eq_true, List.isPrefixOf_iff_prefix, Bool.not_eq_eq_eq_not,
      Bool.not_true] at h
    obtain ⟨more, hmore⟩ := h.1.2
    rw [field, field, hwords, ← hmore, Nat.add_comm]
    exact ⟨by simp, isClock_of_text h.1.1, h.2⟩
  · exact absurd h (by decide)

def Header.ofText (columns : List (List Char)) (line : List Char)
    (h : isHeaderText columns line = true) : Header columns where
  line := line
  clock := field 1 line
  half := field 2 line
  more := (words line).drop (2 + columns.length)
  words_line := (of_isHeaderText h).1
  clock_isClock := (of_isHeaderText h).2.1
  plain := (of_isHeaderText h).2.2

/-- Whether a line is a row with at least `n` numbers. -/
def isRowText (n : ℕ) (line : List Char) : Bool :=
  match words line with
  | clock :: half :: _ :: values =>
    isClockText clock && (half == "AM".toList || half == "PM".toList) &&
      (decide (n ≤ values.length) && values.all looksNumeric)
  | _ => false

theorem of_isRowText {n : ℕ} {line : List Char} (h : isRowText n line = true) :
    words line = field 1 line :: field 2 line :: field 3 line :: (words line).drop 3 ∧
      IsClock (field 1 line) ∧ IsHalf (field 2 line) ∧ n ≤ ((words line).drop 3).length ∧
      ∀ v ∈ (words line).drop 3, looksNumeric v = true := by
  unfold isRowText at h
  split at h
  · next clock half name values hwords =>
    simp only [Bool.and_eq_true, Bool.or_eq_true, beq_iff_eq, decide_eq_true_eq,
      List.all_eq_true] at h
    rw [field, field, field, hwords]
    exact ⟨rfl, isClock_of_text h.1.1, h.1.2, h.2⟩
  · exact absurd h (by decide)

def Row.ofText (n : ℕ) (line : List Char) (h : isRowText n line = true) : Row n where
  line := line
  clock := field 1 line
  half := field 2 line
  name := field 3 line
  values := (words line).drop 3
  words_line := (of_isRowText h).1
  clock_isClock := (of_isRowText h).2.1
  half_isHalf := (of_isRowText h).2.2.1
  le_length := (of_isRowText h).2.2.2.1
  values_numeric := (of_isRowText h).2.2.2.2

/-! ### Words in a row -/

/-- A character that only the name of a row can have. -/
def InNamesOnly (c : Char) : Prop :=
  c.isDigit = false ∧ c ≠ ':' ∧ c ∉ "AM".toList ∧ c ∉ "PM".toList ∧ isNumberChar c = false

instance (c : Char) : Decidable (InNamesOnly c) := inferInstanceAs (Decidable (_ ∧ _))

/-- **Where a word can occur in a row**: with such a character, only in the name, as the
time and the numbers have none like it. -/
theorem Row.infix_line_iff (r : Row n) {p : List Char} (hblank : ∀ c ∈ p, isBlank c = false)
    {c : Char} (hc : c ∈ p) (honly : InNamesOnly c) : p <:+: r.line ↔ p <:+: r.name := by
  obtain ⟨hdigit, hcolon, ham, hpm, hnumber⟩ := honly
  have hin : ∀ w : List Char, p <:+: w → c ∈ w := fun w hw => hw.subset hc
  have hp : p ≠ [] := List.ne_nil_of_mem hc
  rw [infix_iff_exists_word hp hblank, r.words_line]
  constructor
  · rintro ⟨w, hw, hpw⟩
    have hcw := hin w hpw
    rcases List.mem_cons.mp hw with rfl | hw
    · rcases r.clock_isClock c hcw with h | h
      · rw [hdigit] at h
        exact absurd h (by decide)
      · exact absurd h hcolon
    rcases List.mem_cons.mp hw with rfl | hw
    · rcases r.half_isHalf with h | h
      · rw [h] at hcw
        exact absurd hcw ham
      · rw [h] at hcw
        exact absurd hcw hpm
    rcases List.mem_cons.mp hw with rfl | hw
    · exact hpw
    · have hchar := isNumberChar_of_mem (r.values_numeric w hw) hcw
      rw [hnumber] at hchar
      exact absurd hchar (by decide)
  · intro h
    exact ⟨r.name, by simp, h⟩

theorem Row.occursIn_average (r : Row n) :
    occursIn "Average".toList r.line = occursIn "Average".toList r.name := by
  rw [Bool.eq_iff_iff, occursIn_iff, occursIn_iff]
  exact r.infix_line_iff (c := 'v') (isBlank_of_all (by decide)) (by decide) (by decide)

end LinuxNote.Sar
