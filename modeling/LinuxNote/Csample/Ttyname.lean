import LinuxNote.Base.CText
import Mathlib.Data.List.Nodup

/-!
# The name of a terminal

`get_ttyname_info` of `ttyname.c` searches `/dev` for a character device with a number, and the
directories in it by calling itself.  The patch for PCP has the same function with larger
buffers.  The name is kept in a static buffer, which every call
resets.  When `stat` fails, the result of the one before in the same directory is looked at
again, and before the first one whatever is in the memory.

## Main definitions

* `Entries`, `Dev` — a directory with its subdirectories.
* `readEntries`, `getTtynameInfo` — the search.
* `hits` — the devices with the number, in the order of the search.
* `shown` — the entries at which the search ends, if it gets there.
* `BufferHarmless` — the trees in which no old result is taken for an entry.

## Main results

* `readEntries_eq` — the search ends at the first entry that is shown.
* `map_shown_fresh` — those that are shown by their own `stat` are the devices.
* `nodup_shown` — no two entries have the same path.
* `nameRight_iff` — **the name is right exactly when** the buffer does no harm.
-/

namespace LinuxNote.Ttyname

open CText

/-! ### Directories -/

/-- What is looked at of the result of `stat`. -/
structure Stat where
  isChr : Bool
  rdev : ℕ
  deriving DecidableEq

/-- The type of an entry that is no directory, as `readdir` reports it. -/
inductive FileType
  | chr | blk | reg | lnk | fifo | sock | unknown
  deriving DecidableEq

/-- The entries of a directory in the order of `readdir`: files, with the result of `stat` if it
does not fail, and directories, which `opendir` may fail to open. -/
inductive Entries
  | nil
  | file (name : List Char) (type : FileType) (stat : Option Stat) (rest : Entries)
  | dir (name : List Char) (opens : Bool) (sub rest : Entries)

/-- The path of an entry. -/
def fullpath (devpath name : List Char) : List Char := devpath ++ '/' :: name

def Entries.names : Entries → List (List Char)
  | .nil => []
  | .file name _ _ rest => name :: rest.names
  | .dir name _ _ rest => name :: rest.names

/-- A tree as the file system has it: the names in a directory are different and have no slash in
them, and all paths fit into a buffer, so that `snprintf` never cuts one off. -/
def Entries.Sound (size : ℕ) : Entries → List Char → Prop
  | .nil, _ => True
  | .file name _ _ rest, devpath =>
    '/' ∉ name ∧ name ∉ rest.names ∧ (fullpath devpath name).length < size ∧
      rest.Sound size devpath
  | .dir name _ sub rest, devpath =>
    '/' ∉ name ∧ name ∉ rest.names ∧ (fullpath devpath name).length < size ∧
      sub.Sound size (fullpath devpath name) ∧ rest.Sound size devpath

/-- The directory `/dev`. -/
structure Dev (size : ℕ) where
  opens : Bool
  entries : Entries
  sound : entries.Sound size "/dev".toList

/-! ### The search -/

section Search

variable {size : ℕ} (garbage : List Char → Stat) (dev : ℕ)

def isHidden (name : List Char) : Bool := name.head? == some '.'

/-- The loop over the entries of a directory, with the buffer of `stat` and the static buffer
for the name.  In a call the buffer of `stat` starts with what is in the memory, which may depend
on the directory. -/
def readEntries (size : ℕ) : Entries → List Char → Stat → List Char → List Char
  | .nil, _, _, ttyname => ttyname
  | .file name type stat rest, devpath, statbuf, ttyname =>
    if isHidden name then readEntries size rest devpath statbuf ttyname
    else
      let path := snprintf size (fullpath devpath name)
      -- when `stat` fails, the buffer keeps what it has
      let statbuf := stat.getD statbuf
      if statbuf.isChr && type != .lnk && dev == statbuf.rdev then (path.drop 5).take (size - 1)
      else readEntries size rest devpath statbuf ttyname
  | .dir name opens sub rest, devpath, statbuf, ttyname =>
    if isHidden name then readEntries size rest devpath statbuf ttyname
    else
      let path := snprintf size (fullpath devpath name)
      -- the call for the subdirectory, which resets the name
      let ttyname := if opens then readEntries size sub path (garbage path) "?".toList else "?".toList
      if ttyname ≠ "?".toList then ttyname else readEntries size rest devpath statbuf ttyname

/-- `get_ttyname_info` for `/dev`: the name starts as `?`, and stays so if the directory cannot be
opened or the search finds nothing. -/
def getTtynameInfo (d : Dev size) : List Char :=
  if d.opens then
    readEntries garbage dev size d.entries "/dev".toList (garbage "/dev".toList) "?".toList
  else "?".toList

/-! ### The right name -/

/-- The test of the loop: the result is that of a character device with the number that is asked
for. -/
def Stat.shows (s : Stat) : Bool := s.isChr && s.rdev == dev

/-- The devices with the number that can be reached, in the order of the search.  Only an entry
whose own `stat` says so is one of them, which is what the name should be taken from. -/
def Entries.hits : Entries → List Char → List (List Char)
  | .nil, _ => []
  | .file name type stat rest, devpath =>
    (if !isHidden name && type != .lnk && stat.any (Stat.shows dev) then [fullpath devpath name]
      else []) ++ rest.hits devpath
  | .dir name opens sub rest, devpath =>
    (if !isHidden name && opens then sub.hits (fullpath devpath name) else []) ++ rest.hits devpath

def Dev.hits (d : Dev size) : List (List Char) := if d.opens then d.entries.hits dev "/dev".toList else []

/-- The name that is meant: the path of the first device relative to `/dev/`, or `?` if no device
has the number. -/
def ttynameOf (d : Dev size) : List Char :=
  match (d.hits dev).head? with
  | none => "?".toList
  | some path => path.drop 5

/-- The name that a call returns is the one that is meant, whatever `garbage` the buffer of `stat`
starts with in each directory. -/
def NameRight (d : Dev size) : Prop := getTtynameInfo garbage dev d = ttynameOf dev d

/-- An entry at which the buffer of `stat` shows the device, be it the entry's own result or one
that an earlier entry has left there. -/
structure Shown where
  /-- `stat` has not failed for it. -/
  fresh : Bool
  path : List Char

/-- The entries at which the buffer of `stat` shows the device, in the order of the search.  It
goes on with the buffer of the entry before when a `stat` fails, as the loop does. -/
def Entries.shown : Entries → List Char → Stat → List Shown
  | .nil, _, _ => []
  | .file name type stat rest, devpath, statbuf =>
    if isHidden name then rest.shown devpath statbuf
    else
      (if type != .lnk && (stat.getD statbuf).shows dev then
        [⟨stat.isSome, fullpath devpath name⟩] else []) ++ rest.shown devpath (stat.getD statbuf)
  | .dir name opens sub rest, devpath, statbuf =>
    if isHidden name then rest.shown devpath statbuf
    else
      (if opens then sub.shown (fullpath devpath name) (garbage (fullpath devpath name)) else []) ++
        rest.shown devpath statbuf

def Dev.shown (d : Dev size) : List Shown :=
  if d.opens then d.entries.shown garbage dev "/dev".toList (garbage "/dev".toList) else []

/-- The loop does not look at whether `stat` fails, and then finds in its buffer what an entry
before has left.  That does no harm if the first entry at which the buffer shows the device has a
result of its own, or if it is `/dev/?` and there is no device: then the name is the `?` that it
should be. -/
def BufferHarmless (d : Dev size) : Prop :=
  ∀ s, (d.shown garbage dev).head? = some s →
    s.fresh = true ∨ s.path = "/dev/?".toList ∧ d.hits dev = []

end Search

/-! ### Paths -/

section Paths

variable {size : ℕ} {garbage : List Char → Stat} {dev : ℕ} {devpath name : List Char}

theorem snprintf_fullpath (h : (fullpath devpath name).length < size) :
    snprintf size (fullpath devpath name) = fullpath devpath name :=
  List.take_of_length_le (Nat.le_sub_one_of_lt h)

theorem length_fullpath : (fullpath devpath name).length = devpath.length + (name.length + 1) :=
  List.length_append

/-- The path goes through an entry of the directory: it is that of the entry or leads into it.
Paths through different entries are different, as names have no slash. -/
def Through (devpath : List Char) (names : List (List Char)) (path : List Char) : Prop :=
  ∃ name ∈ names, ∃ tail, path = fullpath devpath name ++ tail ∧ (tail = [] ∨ ∃ t, tail = '/' :: t)

theorem Through.cons {names : List (List Char)} {path : List Char}
    (h : Through devpath names path) (name : List Char) : Through devpath (name :: names) path := by
  obtain ⟨other, hother, htail⟩ := h
  exact ⟨other, List.mem_cons_of_mem _ hother, htail⟩

theorem through_self (devpath name : List Char) (names : List (List Char)) :
    Through devpath (name :: names) (fullpath devpath name) :=
  ⟨name, List.mem_cons_self, [], (List.append_nil _).symm, Or.inl rfl⟩

/-- What goes through a subdirectory goes through its entry. -/
theorem Through.up {names : List (List Char)} {path : List Char}
    (h : Through (fullpath devpath name) names path) (others : List (List Char)) :
    Through devpath (name :: others) path := by
  obtain ⟨inner, -, tail, rfl, -⟩ := h
  refine ⟨name, List.mem_cons_self, '/' :: (inner ++ tail), ?_, Or.inr ⟨_, rfl⟩⟩
  rw [fullpath, List.append_assoc]
  rfl

/-- The entries that are shown are in the directory. -/
theorem through_of_mem_shown {entries : Entries} {statbuf : Stat} {s : Shown}
    (h : s ∈ entries.shown garbage dev devpath statbuf) :
    Through devpath entries.names s.path := by
  induction entries generalizing devpath statbuf with
  | nil => exact absurd h List.not_mem_nil
  | file name type stat rest ih =>
    rw [Entries.shown] at h
    split at h
    · exact (ih h).cons name
    · rcases List.mem_append.mp h with h | h
      · split at h
        · obtain rfl := List.mem_singleton.mp h
          exact through_self devpath name rest.names
        · exact absurd h List.not_mem_nil
      · exact (ih h).cons name
  | dir name opens sub rest ihsub ihrest =>
    rw [Entries.shown] at h
    split at h
    · exact (ihrest h).cons name
    · rcases List.mem_append.mp h with h | h
      · split at h
        · exact (ihsub h).up rest.names
        · exact absurd h List.not_mem_nil
      · exact (ihrest h).cons name

/-- The name of an entry in a subdirectory is not `?`. -/
theorem drop_ne_of_subdirectory (h : 4 ≤ devpath.length) (tail : List Char) :
    (fullpath devpath name ++ '/' :: tail).drop 5 ≠ "?".toList := by
  intro heq
  have hlength : 5 ≤ (fullpath devpath name).length := by
    rw [length_fullpath]
    omega
  have hslash : '/' ∈ (fullpath devpath name ++ '/' :: tail).drop 5 := by
    rw [List.drop_append_of_le_length hlength]
    exact List.mem_append_right _ List.mem_cons_self
  rw [heq] at hslash
  exact absurd hslash (by decide)

end Paths

/-! ### The end of the search -/

section Name

variable {size : ℕ} {garbage : List Char → Stat} {dev : ℕ} {devpath : List Char}

/-- The name that the search ends with. -/
def nameOf (shown : List Shown) : List Char :=
  match shown.head? with
  | none => "?".toList
  | some s => s.path.drop 5

/-- The test of the loop. -/
theorem Stat.shows_eq (s : Stat) (type : FileType) :
    (s.isChr && type != .lnk && dev == s.rdev) = (type != .lnk && s.shows dev) := by
  rw [Stat.shows, Bool.and_comm _ (type != .lnk), Bool.and_assoc, BEq.comm (a := dev)]

/-- **The search ends** at the first entry that is shown: the loop sets the name there, and all
loops around it stop because the name is not `?` any more. -/
theorem readEntries_eq {entries : Entries} (hsound : entries.Sound size devpath)
    (hlength : 4 ≤ devpath.length) (statbuf : Stat) :
    readEntries garbage dev size entries devpath statbuf "?".toList =
      nameOf (entries.shown garbage dev devpath statbuf) := by
  induction entries generalizing devpath statbuf with
  | nil => rfl
  | file name type stat rest ih =>
    obtain ⟨-, -, hshort, hrest⟩ := hsound
    rw [readEntries, Entries.shown]
    by_cases hhidden : isHidden name = true
    · rw [if_pos hhidden, if_pos hhidden, ih hrest hlength]
    · rw [if_neg hhidden, if_neg hhidden, snprintf_fullpath hshort]
      have hcut : ((fullpath devpath name).drop 5).take (size - 1) = (fullpath devpath name).drop 5 :=
        List.take_of_length_le (by rw [List.length_drop]; omega)
      simp only [Stat.shows_eq, hcut]
      -- `break`, or the next entry with the buffer as it is
      cases type != .lnk && (stat.getD statbuf).shows dev with
      | true => rfl
      | false => exact ih hrest hlength _
  | dir name opens sub rest ihsub ihrest =>
    obtain ⟨-, -, hshort, hsub, hrest⟩ := hsound
    rw [readEntries, Entries.shown]
    by_cases hhidden : isHidden name = true
    · rw [if_pos hhidden, if_pos hhidden, ihrest hrest hlength]
    · rw [if_neg hhidden, if_neg hhidden, snprintf_fullpath hshort]
      have hlength' : 4 ≤ (fullpath devpath name).length := by
        rw [length_fullpath]
        omega
      cases opens with
      | false => exact ihrest hrest hlength _
      | true =>
        simp only [if_pos, ihsub hsub hlength']
        cases hshown : sub.shown garbage dev (fullpath devpath name)
            (garbage (fullpath devpath name)) with
        | nil => exact ihrest hrest hlength _
        | cons s shown =>
          -- the name of an entry in the subdirectory is passed on
          have hne : nameOf (s :: shown) ≠ "?".toList := by
            have hmem : s ∈ sub.shown garbage dev (fullpath devpath name)
                (garbage (fullpath devpath name)) := by
              rw [hshown]
              exact List.mem_cons_self
            obtain ⟨other, -, tail, hpath, -⟩ := through_of_mem_shown hmem
            change s.path.drop 5 ≠ _
            rw [hpath, fullpath, List.append_assoc]
            exact drop_ne_of_subdirectory hlength _
          rw [if_pos hne]
          rfl

end Name

/-! ### Devices and entries that are shown -/

section Devices

variable {size : ℕ} {garbage : List Char → Stat} {dev : ℕ} {devpath : List Char}

/-- The entries that are shown by their own `stat` are the devices. -/
theorem map_shown_fresh (entries : Entries) (statbuf : Stat) :
    ((entries.shown garbage dev devpath statbuf).filter Shown.fresh).map Shown.path =
      entries.hits dev devpath := by
  induction entries generalizing devpath statbuf with
  | nil => rfl
  | file name type stat rest ih =>
    rw [Entries.shown, Entries.hits]
    cases isHidden name with
    | true => exact ih statbuf
    | false =>
      rw [if_neg Bool.false_ne_true, List.filter_append, List.map_append, ih]
      cases stat with
      -- an entry without a `stat` is no hit, whatever is left in the buffer
      | none =>
        simp only [Option.any_none, Bool.and_false, Option.isSome_none]
        split
        · rfl
        · rfl
      | some s =>
        simp only [Option.any_some, Option.getD_some, Option.isSome_some, Bool.not_false,
          Bool.true_and]
        split
        · rfl
        · rfl
  | dir name opens sub rest ihsub ihrest =>
    rw [Entries.shown, Entries.hits]
    cases isHidden name with
    | true => exact ihrest statbuf
    | false =>
      rw [if_neg Bool.false_ne_true, List.filter_append, List.map_append, ihrest]
      cases opens with
      | true => rw [if_pos rfl, ihsub]; rfl
      | false => rfl

theorem Entries.Sound.slash {entries : Entries} (h : entries.Sound size devpath) :
    ∀ name ∈ entries.names, '/' ∉ name := by
  induction entries with
  | nil => exact List.forall_mem_nil _
  | file name type stat rest ih => exact List.forall_mem_cons.mpr ⟨h.1, ih h.2.2.2⟩
  | dir name opens sub rest _ ih => exact List.forall_mem_cons.mpr ⟨h.1, ih h.2.2.2.2⟩

/-- The name of the entry behind the path of its directory. -/
theorem takeWhile_name {name tail : List Char} (hname : '/' ∉ name)
    (htail : tail = [] ∨ ∃ t, tail = '/' :: t) :
    (name ++ tail).takeWhile (fun c => c != '/') = name := by
  rcases htail with rfl | ⟨t, rfl⟩
  · exact (takeWhile_ne hname []).trans (List.append_nil name)
  · exact takeWhile_ne_append hname t

/-- A path goes through one entry of a directory only. -/
theorem Through.notMem {name path : List Char} {names : List (List Char)}
    (h : Through devpath [name] path) (hname : '/' ∉ name) (hnames : ∀ n ∈ names, '/' ∉ n)
    (hnew : name ∉ names) : ¬ Through devpath names path := by
  rintro ⟨other, hother, t, hpath, ht⟩
  obtain ⟨self, hself, u, rfl, hu⟩ := h
  obtain rfl := List.mem_singleton.mp hself
  rw [fullpath, fullpath, List.append_assoc, List.append_assoc, List.append_cancel_left_eq]
    at hpath
  have hrest : self ++ u = other ++ t := (List.cons.inj hpath).2
  have hsame : self = other := by
    rw [← takeWhile_name hname hu, hrest, takeWhile_name (hnames other hother) ht]
  exact hnew (hsame ▸ hother)

/-- **No two entries** that are shown have the same path, so the path of the first one says which
entry it is. -/
theorem nodup_shown {entries : Entries} (h : entries.Sound size devpath) (statbuf : Stat) :
    ((entries.shown garbage dev devpath statbuf).map Shown.path).Nodup := by
  induction entries generalizing devpath statbuf with
  | nil => exact List.nodup_nil
  | file name type stat rest ih =>
    obtain ⟨hslash, hname, -, hrest⟩ := h
    rw [Entries.shown]
    split
    · exact ih hrest statbuf
    · split
      · refine List.nodup_cons.mpr ⟨fun hin => ?_, ih hrest _⟩
        obtain ⟨s, hs, hpath⟩ := List.mem_map.mp hin
        have hself : Through devpath [name] s.path := by
          rw [hpath]
          exact through_self devpath name []
        exact hself.notMem hslash hrest.slash hname (through_of_mem_shown hs)
      · exact ih hrest _
  | dir name opens sub rest ihsub ihrest =>
    obtain ⟨hslash, hname, -, hsub, hrest⟩ := h
    rw [Entries.shown]
    split
    · exact ihrest hrest statbuf
    · split
      -- the paths below a directory have its name in them, and no other paths do
      · rw [List.map_append, List.nodup_append]
        refine ⟨ihsub hsub _, ihrest hrest _, ?_⟩
        rintro path hin other hother rfl
        obtain ⟨s, hs, rfl⟩ := List.mem_map.mp hin
        obtain ⟨s', hs', hpath⟩ := List.mem_map.mp hother
        have hsub' : Through devpath [name] s'.path := by
          rw [hpath]
          exact (through_of_mem_shown hs).up []
        exact hsub'.notMem hslash hrest.slash hname (through_of_mem_shown hs')
      · exact ihrest hrest _

end Devices

/-! ### The right name -/

section Right

variable {size : ℕ} {garbage : List Char → Stat} {dev : ℕ} (d : Dev size)

theorem getTtynameInfo_eq : getTtynameInfo garbage dev d = nameOf (d.shown garbage dev) := by
  rw [getTtynameInfo, Dev.shown]
  cases d.opens with
  | false => rfl
  | true => exact readEntries_eq d.sound (by decide) _

/-- The devices are those that are shown by their own `stat`. -/
theorem hits_eq (garbage : List Char → Stat) :
    d.hits dev = ((d.shown garbage dev).filter Shown.fresh).map Shown.path := by
  rw [Dev.hits, Dev.shown]
  cases d.opens with
  | false => rfl
  | true => exact (map_shown_fresh d.entries _).symm

theorem nodup_dev : ((d.shown garbage dev).map Shown.path).Nodup := by
  rw [Dev.shown]
  cases d.opens with
  | false => exact List.nodup_nil
  | true => exact nodup_shown d.sound _

/-- All paths start with `/dev/`. -/
theorem path_eq {s : Shown} (h : s ∈ d.shown garbage dev) :
    s.path = "/dev/".toList ++ s.path.drop 5 := by
  rw [Dev.shown] at h
  split at h
  · obtain ⟨name, -, tail, hpath, -⟩ := through_of_mem_shown h
    rw [hpath]
    rfl
  · exact absurd h List.not_mem_nil

/-- An entry that is shown later has another name. -/
theorem drop_ne_of_later {s : Shown} {rest : List Shown} (h : d.shown garbage dev = s :: rest)
    {q : List Char} (hq : q ∈ rest.map Shown.path) : s.path.drop 5 ≠ q.drop 5 := by
  intro heq
  have hnodup : ((d.shown garbage dev).map Shown.path).Nodup := nodup_dev d
  rw [h, List.map_cons, List.nodup_cons] at hnodup
  obtain ⟨s', hs', rfl⟩ := List.mem_map.mp hq
  have hs : s ∈ d.shown garbage dev := h ▸ List.mem_cons_self
  have hlater : s' ∈ d.shown garbage dev := h ▸ List.mem_cons_of_mem s hs'
  have hsame : s.path = s'.path := by rw [path_eq d hs, path_eq d hlater, heq]
  exact hnodup.1 (hsame ▸ hq)

/-- **The name is right exactly when** the buffer does no harm: a search that ends at an entry with
a result of its own ends at the first device, and one that ends at a leftover has passed none. -/
theorem nameRight_iff : NameRight garbage dev d ↔ BufferHarmless garbage dev d := by
  rw [NameRight, getTtynameInfo_eq, ttynameOf, BufferHarmless, hits_eq d garbage]
  cases hshown : d.shown garbage dev with
  | nil => exact iff_of_true rfl nofun
  | cons s rest =>
    simp only [List.head?_cons, Option.some.injEq, forall_eq']
    cases hfresh : s.fresh with
    | true =>
      rw [List.filter_cons_of_pos hfresh]
      exact iff_of_true rfl (Or.inl rfl)
    -- a stale path comes first: it is right as `?` only, when there is no fresh one
    | false =>
      rw [List.filter_cons_of_neg (by rw [hfresh]; exact Bool.false_ne_true)]
      simp only [Bool.false_eq_true, false_or]
      cases hhits : (rest.filter Shown.fresh).map Shown.path with
      | nil =>
        have hpath : s.path = "/dev/".toList ++ s.path.drop 5 :=
          path_eq d (hshown ▸ List.mem_cons_self)
        change s.path.drop 5 = "?".toList ↔ _
        constructor
        · intro heq
          rw [heq] at hpath
          exact ⟨hpath, rfl⟩
        · rintro ⟨heq, -⟩
          rw [heq]
          rfl
      | cons q hits =>
        refine iff_of_false (fun heq => ?_) fun h => List.cons_ne_nil _ _ h.2
        have hmem : q ∈ (rest.filter Shown.fresh).map Shown.path := by
          rw [hhits]
          exact List.mem_cons_self
        obtain ⟨s', hs', rfl⟩ := List.mem_map.mp hmem
        exact drop_ne_of_later d hshown (List.mem_map_of_mem (List.mem_of_mem_filter hs')) heq

/-- A link to the device, and a file whose `stat` fails. -/
def linkDev : Dev 1024 where
  opens := true
  entries := .file "link".toList .lnk (some ⟨true, 1025⟩) (.file "gone".toList .reg none .nil)
  sound := ⟨by decide, by decide, by decide, by decide, by decide, by decide, trivial⟩

/-- The file is taken for the device that the link leads to. -/
theorem not_nameRight_link : ¬ NameRight (fun _ => ⟨false, 0⟩) 1025 linkDev := by
  intro h
  rw [NameRight] at h
  exact absurd h (by decide)

end Right

end LinuxNote.Ttyname
