import LinuxNote.Base.Words
import LinuxNote.Sysstat.MutationDirection
import Mathlib.Logic.Function.Basic

/-!
# Splitting the network CSV

`sar2csv.sh` writes a file for each interface: the header line of the network CSV, and
the lines in which `grep` finds the name of the interface.  The interfaces are those of the
first sample.  After that it deletes the CSV.  The commas that it puts for semicolons in the
end are left out here.

## Main definitions

* `CsvRow`, `NetworkCsv` — what `sadf -d` writes.
* `splitNetwork` — the loop over the interfaces, and the deletion.
* `SplitRight` — the file of each interface has the header and the rows of the interface.
* `SplitCondition` — what a CSV must be like.

## Main results

* `mem_devList_iff` — which interfaces are listed.
* `splitNetwork_file` — the files behind the loop.
* `splitRight_iff` — **no row is lost or put into a wrong file exactly when** the CSV meets
  the condition.
-/

namespace LinuxNote.Sar2csv

open ShellText MutationCheck

/-! ### The CSV -/

/-- A word without semicolons. -/
def IsColumn (w : List Char) : Prop := w ≠ [] ∧ ∀ c ∈ w, isBlank c = false ∧ c ≠ ';'

instance (w : List Char) : Decidable (IsColumn w) :=
  decidable_of_iff (w.isEmpty = false ∧ (w.all fun c => !isBlank c && !(c == ';')) = true) (by
    simp [IsColumn, List.isEmpty_eq_false_iff])

/-- The header line starts with a mark. -/
structure CsvHeader where
  line : List Char
  columns : List Char
  words_line : words line = ["#".toList, columns]

/-- A row: host, interval, a timestamp of three words, interface, and further columns, so that the
third word has the interface behind its first semicolon. -/
structure CsvRow where
  host : List Char
  interval : List Char
  date : List Char
  clock : List Char
  zone : List Char
  device : List Char
  values : List (List Char)
  host_isColumn : IsColumn host
  interval_isColumn : IsColumn interval
  date_isColumn : IsColumn date
  clock_isColumn : IsColumn clock
  zone_isColumn : IsColumn zone
  device_isColumn : IsColumn device
  values_isColumn : ∀ v ∈ values, IsColumn v

/-- The first word of a row. -/
def CsvRow.head (r : CsvRow) : List Char := r.host ++ ';' :: (r.interval ++ ';' :: r.date)

/-- The third word of a row. -/
def CsvRow.tail (r : CsvRow) : List Char :=
  r.zone ++ ';' :: (r.device ++ r.values.flatMap fun v => ';' :: v)

/-- The text of a row. -/
def CsvRow.line (r : CsvRow) : List Char := r.head ++ ' ' :: (r.clock ++ ' ' :: r.tail)

/-- What `sadf -d -- -n DEV` writes: a header and the rows of each sample, in which interfaces may
come and go. -/
structure NetworkCsv where
  header : CsvHeader
  samples : List (List CsvRow)

namespace NetworkCsv

def rows (c : NetworkCsv) : List CsvRow := c.samples.flatten

def lines (c : NetworkCsv) : List (List Char) := c.header.line :: c.rows.map CsvRow.line

/-- What `sadf` writes when it is asked for one sample. -/
def firstLines (c : NetworkCsv) : List (List Char) :=
  c.header.line :: (c.samples.headD []).map CsvRow.line

/-- The interfaces of the CSV. -/
def devices (c : NetworkCsv) : List (List Char) := c.rows.map CsvRow.device

end NetworkCsv

/-! ### The loop -/

/-- The files of the output directory. -/
abbrev Files := List Char → Option (List (List Char))

section Split

variable (t : Tools) (time : List Char) (c : NetworkCsv)

/-- `${dev}_${TIME}.csv`. -/
def csvName (dev : List Char) : List Char := dev ++ "_".toList ++ time ++ ".csv".toList

/-- The interfaces that `for` runs over. -/
def devList (lines : List (List Char)) : List (List Char) :=
  ((lines.filter fun l => !occursIn "#".toList l).map fun l =>
    fieldBy ';' 2 (field 3 l)).filter fun w => !w.isEmpty

/-- The lines of a file, none if there is no file. -/
def cat (files : Files) (name : List Char) : List (List Char) := (files name).getD []

/-- One turn of the loop.  The shell empties the file of the interface before `head` reads the CSV,
so an interface called `network` would empty the CSV itself. -/
def splitDevice (files : Files) (dev : List Char) : Files :=
  let emptied := Function.update files (csvName time dev) (some [])
  let headed := Function.update emptied (csvName time dev)
    (some ((cat emptied (csvName time "network".toList)).take 1))
  Function.update headed (csvName time dev)
    (some (cat headed (csvName time dev) ++
      (cat headed (csvName time "network".toList)).filter (t.grep dev)))

/-- The CSV is written, split and deleted; what else was in the directory stays as it was. -/
def splitNetwork (files : Files) : Files :=
  let written := Function.update files (csvName time "network".toList) (some c.lines)
  Function.update ((devList c.firstLines).foldl (splitDevice t time) written)
    (csvName time "network".toList) none

/-- Whatever was in the output directory, the file of each interface has the header, once or more
often, and behind it the rows of the interface in their order. -/
def SplitRight : Prop :=
  ∀ files, ∀ dev ∈ c.devices, ∃ n, splitNetwork t time c files (csvName time dev) =
    some (List.replicate (n + 1) c.header.line ++
      (c.rows.filter fun r => r.device == dev).map CsvRow.line)

/-- A CSV that the script can deal with.  What `grep` finds is asked of `grep` itself, called with
the name as the script calls it: a name that starts with `-` is taken for options, so it is not
found even in the rows of its own interface. -/
structure SplitCondition : Prop where
  /-- Every interface is in the first sample, in a row without the mark of a header. -/
  first : ∀ dev ∈ c.devices, ∃ r ∈ c.samples.headD [], r.device = dev ∧ '#' ∉ r.line
  /-- No interface has the CSV itself for its file. -/
  notCsv : "network".toList ∉ c.devices
  /-- `grep` finds the name of an interface in its rows and in no others. -/
  apart : ∀ dev ∈ c.devices, ∀ r ∈ c.rows, t.grep dev r.line = true ↔ r.device = dev

end Split

/-! ### The list of interfaces -/

section Rows

variable (r : CsvRow)

theorem isBlank_tail {x : Char} (h : x ∈ r.tail) : isBlank x = false := by
  have hvalues : ∀ v ∈ r.values, ∀ y ∈ ';' :: v, isBlank y = false := by
    intro v hv y hy
    rcases List.mem_cons.mp hy with rfl | hy
    · rfl
    · exact ((r.values_isColumn v hv).2 y hy).1
  rcases List.mem_append.mp h with h | h
  · exact (r.zone_isColumn.2 x h).1
  rcases List.mem_cons.mp h with rfl | h
  · rfl
  rcases List.mem_append.mp h with h | h
  · exact (r.device_isColumn.2 x h).1
  · obtain ⟨v, hv, hx⟩ := List.mem_flatMap.mp h
    exact hvalues v hv x hx

theorem isBlank_head {x : Char} (h : x ∈ r.head) : isBlank x = false := by
  simp only [CsvRow.head, List.mem_append, List.mem_cons] at h
  rcases h with h | rfl | h | rfl | h
  · exact (r.host_isColumn.2 x h).1
  · rfl
  · exact (r.interval_isColumn.2 x h).1
  · rfl
  · exact (r.date_isColumn.2 x h).1

/-- A row has three words. -/
theorem words_line : words r.line = [r.head, r.clock, r.tail] := by
  have hhead : r.head ≠ [] := by simp [CsvRow.head]
  have htail : r.tail ≠ [] := by simp [CsvRow.tail]
  rw [CsvRow.line, words_append_blank rfl, words_append_blank rfl,
    words_free hhead fun x hx => isBlank_head r hx,
    words_free r.clock_isColumn.1 fun x hx => (r.clock_isColumn.2 x hx).1,
    words_free htail fun x hx => isBlank_tail r hx]
  rfl

/-- The interface is found in its row. -/
theorem fieldBy_line : fieldBy ';' 2 (field 3 r.line) = r.device := by
  have hplain : ∀ w : List Char, IsColumn w → ';' ∉ w := fun w hw hin => (hw.2 ';' hin).2 rfl
  have hfield : field 3 r.line = r.tail := by
    rw [field, words_line]
    rfl
  rw [hfield, CsvRow.tail, fieldBy_succ (hplain _ r.zone_isColumn)]
  cases r.values with
  | nil =>
    rw [List.flatMap_nil, List.append_nil, fieldBy_last (hplain _ r.device_isColumn)]
  | cons v vs =>
    rw [List.flatMap_cons, List.cons_append, fieldBy_one (hplain _ r.device_isColumn)]

/-- A row is no header. -/
theorem line_ne_header (h : CsvHeader) : r.line ≠ h.line := by
  intro heq
  have hwords := words_line r
  rw [heq, h.words_line] at hwords
  exact absurd (congrArg List.length hwords) (by simp)

end Rows

/-- The header line is left out of the list. -/
theorem occursIn_header (h : CsvHeader) : occursIn "#".toList h.line = true := by
  rw [occursIn_iff, infix_iff_exists_word (by decide) (isBlank_of_all (by decide)), h.words_line]
  exact ⟨_, List.mem_cons_self, List.infix_rfl⟩

/-- **An interface is listed** when it is in the first sample, in a row without the mark of a
header: one that comes up later has no file. -/
theorem mem_devList_iff (c : NetworkCsv) (dev : List Char) :
    dev ∈ devList c.firstLines ↔ ∃ r ∈ c.samples.headD [], r.device = dev ∧ '#' ∉ r.line := by
  have hmark : ∀ r : CsvRow, occursIn "#".toList r.line = false ↔ '#' ∉ r.line := by
    intro r
    rw [← Bool.not_eq_true, occursIn_iff]
    exact not_congr (List.singleton_infix_iff _ _)
  unfold devList NetworkCsv.firstLines
  rw [List.filter_cons, occursIn_header, if_neg (by decide)]
  simp only [List.mem_filter, List.mem_map]
  constructor
  · rintro ⟨⟨l, ⟨⟨r, hr, rfl⟩, hplain⟩, rfl⟩, -⟩
    refine ⟨r, hr, (fieldBy_line r).symm, (hmark r).mp ?_⟩
    simpa using hplain
  · rintro ⟨r, hr, rfl, hplain⟩
    refine ⟨⟨r.line, ⟨⟨r, hr, rfl⟩, ?_⟩, fieldBy_line r⟩, ?_⟩
    · rw [(hmark r).mpr hplain]
      rfl
    · simpa using r.device_isColumn.1

/-! ### The files -/

section Files

variable {t : Tools} {time : List Char} {c : NetworkCsv}

/-- Different interfaces have different files. -/
theorem csvName_injective (time : List Char) : Function.Injective (csvName time) := by
  intro a b h
  unfold csvName at h
  rw [List.append_assoc, List.append_assoc, List.append_assoc, List.append_assoc] at h
  exact List.append_cancel_right h

/-- What the loop writes for an interface. -/
def deviceLines (t : Tools) (c : NetworkCsv) (dev : List Char) : List (List Char) :=
  c.header.line :: c.lines.filter (t.grep dev)

/-- **One turn of the loop** writes the file of its interface, and no other, as long as the CSV is
still there. -/
theorem splitDevice_eq {files : Files}
    (hcsv : files (csvName time "network".toList) = some c.lines) {dev : List Char}
    (hdev : dev ≠ "network".toList) :
    splitDevice t time files dev =
      Function.update files (csvName time dev) (some (deviceLines t c dev)) := by
  have hne : csvName time "network".toList ≠ csvName time dev :=
    fun h => hdev (csvName_injective time h).symm
  simp only [splitDevice, cat, Function.update_idem, Function.update_self,
    Function.update_of_ne hne, hcsv, Option.getD_some]
  rfl

/-- The loop keeps the CSV and writes the files of its interfaces. -/
theorem foldl_splitDevice {devs : List (List Char)} (hdevs : "network".toList ∉ devs)
    {files : Files} (hcsv : files (csvName time "network".toList) = some c.lines)
    (dev : List Char) :
    devs.foldl (splitDevice t time) files (csvName time dev) =
      if dev ∈ devs then some (deviceLines t c dev) else files (csvName time dev) := by
  induction devs generalizing files with
  | nil => rfl
  | cons d devs ih =>
    have hd : d ≠ "network".toList := fun h => hdevs (h ▸ List.mem_cons_self)
    have hne : csvName time "network".toList ≠ csvName time d :=
      fun h => hd (csvName_injective time h).symm
    have hrest : "network".toList ∉ devs := fun h => hdevs (List.mem_cons_of_mem d h)
    rw [List.foldl_cons, splitDevice_eq hcsv hd,
      ih hrest (by rw [Function.update_of_ne hne, hcsv])]
    by_cases hin : dev ∈ devs
    · rw [if_pos hin, if_pos (List.mem_cons_of_mem d hin)]
    · by_cases heq : dev = d
      · subst heq
        rw [if_neg hin, if_pos List.mem_cons_self, Function.update_self]
      · have hfile : csvName time dev ≠ csvName time d :=
          fun h => heq (csvName_injective time h)
        rw [if_neg hin, if_neg (by simp [heq, hin]), Function.update_of_ne hfile]

/-- **The file of an interface** behind the loop and the deletion. -/
theorem splitNetwork_file (hcsv : "network".toList ∉ devList c.firstLines) (files : Files)
    {dev : List Char} (hdev : dev ≠ "network".toList) :
    splitNetwork t time c files (csvName time dev) =
      if dev ∈ devList c.firstLines then some (deviceLines t c dev)
      else files (csvName time dev) := by
  have hfile : csvName time dev ≠ csvName time "network".toList :=
    fun h => hdev (csvName_injective time h)
  rw [splitNetwork, Function.update_of_ne hfile,
    foldl_splitDevice hcsv (Function.update_self ..), Function.update_of_ne hfile]

/-- The lines of a file that are no headers. -/
theorem filter_header {rs : List CsvRow} (hs : List (List Char)) (h : CsvHeader)
    (hheaders : ∀ l ∈ hs, l = h.line) :
    (hs ++ rs.map CsvRow.line).filter (fun l => !(l == h.line)) = rs.map CsvRow.line := by
  have hnone : hs.filter (fun l => !(l == h.line)) = [] := by
    rw [List.filter_eq_nil_iff]
    intro l hl
    simp [hheaders l hl]
  have hall : (rs.map CsvRow.line).filter (fun l => !(l == h.line)) = rs.map CsvRow.line := by
    rw [List.filter_eq_self]
    intro l hl
    obtain ⟨r, -, rfl⟩ := List.mem_map.mp hl
    simpa using line_ne_header r h
  rw [List.filter_append, hnone, hall, List.nil_append]

/-- The lines that are written: headers, and the rows in which the name is found. -/
theorem deviceLines_eq (t : Tools) (c : NetworkCsv) (dev : List Char) :
    ∃ n, deviceLines t c dev = List.replicate (n + 1) c.header.line ++
      (c.rows.filter fun r => t.grep dev r.line).map CsvRow.line := by
  have hrows : (c.rows.map CsvRow.line).filter (t.grep dev) =
      (c.rows.filter fun r => t.grep dev r.line).map CsvRow.line := List.filter_map
  unfold deviceLines NetworkCsv.lines
  rw [List.filter_cons, hrows]
  cases t.grep dev c.header.line with
  | true => exact ⟨1, rfl⟩
  | false => exact ⟨0, rfl⟩

/-- **A file is right** when `grep` finds the name in the rows of the interface only: it looks in
the whole row, so the rows of `eth10` are found for `eth1` as well. -/
theorem deviceLines_iff (dev : List Char) :
    (∃ n, deviceLines t c dev = List.replicate (n + 1) c.header.line ++
        (c.rows.filter fun r => r.device == dev).map CsvRow.line) ↔
      ∀ r ∈ c.rows, t.grep dev r.line = true ↔ r.device = dev := by
  have hheaders : ∀ k, ∀ l ∈ List.replicate k c.header.line, l = c.header.line :=
    fun k l hl => List.eq_of_mem_replicate hl
  have hbool : ∀ r : CsvRow, t.grep dev r.line = (r.device == dev) ↔
      (t.grep dev r.line = true ↔ r.device = dev) := by
    intro r
    rw [Bool.eq_iff_iff, beq_iff_eq]
  obtain ⟨k, hk⟩ := deviceLines_eq t c dev
  constructor
  · rintro ⟨n, hn⟩ r hr
    have hsame := congrArg (List.filter fun l => !(l == c.header.line)) (hk.symm.trans hn)
    rw [filter_header _ _ (hheaders _), filter_header _ _ (hheaders _)] at hsame
    have hfilter : (c.rows.map CsvRow.line).filter (t.grep dev) =
        (c.rows.filter fun r => r.device == dev).map CsvRow.line := by
      rw [← hsame]
      exact List.filter_map
    exact (hbool r).mp ((filter_map_eq_iff _ _ _ _).mp hfilter r hr)
  · intro h
    refine ⟨k, ?_⟩
    rw [hk, List.filter_congr fun r hr => (hbool r).mpr (h r hr)]

theorem mem_devices_of_mem_devList {dev : List Char} (h : dev ∈ devList c.firstLines) :
    dev ∈ c.devices := by
  obtain ⟨r, hr, rfl, -⟩ := (mem_devList_iff c dev).mp h
  refine List.mem_map_of_mem (List.mem_flatten.mpr ?_)
  cases hsamples : c.samples with
  | nil =>
    rw [hsamples] at hr
    exact absurd hr List.not_mem_nil
  | cons s ss =>
    rw [hsamples] at hr
    exact ⟨s, List.mem_cons_self, hr⟩

/-- The file of an interface `network` would be deleted with the CSV. -/
theorem SplitRight.notCsv (h : SplitRight t time c) : "network".toList ∉ c.devices := by
  intro hin
  obtain ⟨n, hn⟩ := h (fun _ => none) _ hin
  rw [splitNetwork, Function.update_self] at hn
  exact absurd hn (by simp)

/-- If nothing is lost, all interfaces are listed and have the right lines. -/
theorem SplitRight.file (h : SplitRight t time c) {dev : List Char} (hdev : dev ∈ c.devices) :
    dev ∈ devList c.firstLines ∧
      ∃ n, deviceLines t c dev = List.replicate (n + 1) c.header.line ++
        (c.rows.filter fun r => r.device == dev).map CsvRow.line := by
  -- in an empty directory, only the loop can have written the file
  obtain ⟨n, hn⟩ := h (fun _ => none) dev hdev
  rw [splitNetwork_file (fun hin => h.notCsv (mem_devices_of_mem_devList hin)) _
    fun heq => h.notCsv (heq ▸ hdev)] at hn
  split at hn
  · next hlisted => exact ⟨hlisted, n, Option.some.inj hn⟩
  · exact absurd hn (by simp)

end Files

/-- **No row is lost or put into a wrong file exactly when** the CSV meets the condition: a row
goes to each interface whose name `grep` finds anywhere in it. -/
theorem splitRight_iff (t : Tools) (time : List Char) (c : NetworkCsv) :
    SplitRight t time c ↔ SplitCondition t c := by
  constructor
  · intro h
    exact ⟨fun dev hdev => (mem_devList_iff c dev).mp (h.file hdev).1, h.notCsv,
      fun dev hdev => (deviceLines_iff dev).mp (h.file hdev).2⟩
  · intro h files dev hdev
    obtain ⟨n, hn⟩ := (deviceLines_iff dev).mpr (h.apart dev hdev)
    refine ⟨n, ?_⟩
    rw [splitNetwork_file (fun hin => h.notCsv (mem_devices_of_mem_devList hin)) _
      fun heq => h.notCsv (heq ▸ hdev), if_pos ((mem_devList_iff c dev).mpr (h.first dev hdev)), hn]

/-- A row of an idle interface. -/
def idleRow (device : List Char) (h : IsColumn device) : CsvRow where
  host := "host".toList
  interval := "1".toList
  date := "2017-11-08".toList
  clock := "12:00:01".toList
  zone := "UTC".toList
  device := device
  values := ["0.00".toList, "0.00".toList]
  host_isColumn := by decide
  interval_isColumn := by decide
  date_isColumn := by decide
  clock_isColumn := by decide
  zone_isColumn := by decide
  device_isColumn := h
  values_isColumn := by decide

/-- The CSV of a machine with the interfaces `eth1` and `eth10`. -/
def twoInterfaceCsv : NetworkCsv where
  header :=
    { line := "# hostname;interval;timestamp;IFACE;rxpck/s;txpck/s".toList
      columns := "hostname;interval;timestamp;IFACE;rxpck/s;txpck/s".toList
      words_line := by decide +kernel }
  samples := [[idleRow "eth1".toList (by decide), idleRow "eth10".toList (by decide)]]

/-- The row of `eth10` is in the file of `eth1` as well. -/
theorem not_splitRight_twoInterfaces :
    ¬ SplitRight plainTools "1108142559".toList twoInterfaceCsv := by
  intro h
  have hdevice : "eth1".toList ∈ twoInterfaceCsv.devices := List.mem_cons_self
  have hrow : idleRow "eth10".toList (by decide) ∈ twoInterfaceCsv.rows :=
    List.mem_cons_of_mem _ List.mem_cons_self
  have hapart := (deviceLines_iff _).mp (h.file hdevice).2 _ hrow
  have hfound : plainTools.grep "eth1".toList (idleRow "eth10".toList (by decide)).line = true := by
    decide +kernel
  have hother : "eth10".toList ≠ "eth1".toList := by decide
  exact hother (hapart.mp hfound)

end LinuxNote.Sar2csv
