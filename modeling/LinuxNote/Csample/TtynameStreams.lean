import LinuxNote.Csample.Ttyname
import Mathlib.Algebra.Ring.Nat

/-!
# Directories left open by the search for a terminal

`get_ttyname_info` again, with the number of directory streams that are open.  A call closes its
own at the end of the listing and behind `break`, but not when it passes on the name that a call
for a subdirectory has found.

## Main definitions

* `Listing`, `Call` — the directories of a call, with what opening them gives.
* `searchEntries`, `getTtynameInfo`, `fetch` — the search with the streams, and calls one after
  the other.
* `depths` — how deep the entries lie at which the search ends, if it gets there.

## Main results

* `ttyname_searchEntries` — the name is the same as without the streams.
* `searchEntries_ok` — a call leaves as many streams open as the entry it ends at is deep.
* `streams_fetch` — so do the calls of a daemon.
* `streamsReleased_iff` — **all streams are closed exactly when** that entry is in the directory
  itself.
-/

namespace LinuxNote.Ttyname

open CText

/-! ### The search -/

/-- The entries of a directory in the order of `readdir`.  For a path that is cut they are what
`stat` and `opendir` find behind the rest of it.  A subdirectory has what a call for it finds in
the memory for its buffer of `stat`. -/
inductive Listing
  | nil
  | file (name : List Char) (type : FileType) (stat : Option Stat) (rest : Listing)
  | dir (name : List Char) (opens : Bool) (memory : Stat) (sub rest : Listing)

/-- What outlives a call: the static buffer for the name, and the number of streams that are open,
which `opendir` and `closedir` count. -/
structure State where
  ttyname : List Char
  streams : ℕ

def State.opendir (s : State) : State := { s with streams := s.streams + 1 }

def State.closedir (s : State) : State := { s with streams := s.streams - 1 }

def State.setName (s : State) (ttyname : List Char) : State := { s with ttyname := ttyname }

section Search

variable (dev size : ℕ)

/-- A call with its loop over the entries; a recursive call runs the same code, so it sets the name
to `?` before it looks at its directory. -/
def callWith (loop : Stat → State → State) (opens : Bool) (memory : Stat) (s : State) : State :=
  let s := s.setName "?".toList
  if opens then loop memory s.opendir else s

/-- The loop over the entries of a directory, with the buffer of `stat`, up to the end of the
call.  A `return` behind a recursive call that has found the device leaves it without `closedir`. -/
def searchEntries : Listing → List Char → Stat → State → State
  | .nil, _, _, s => s.closedir
  | .file name type stat rest, devpath, statbuf, s =>
    if isHidden name then searchEntries rest devpath statbuf s
    else
      let path := snprintf size (fullpath devpath name)
      let statbuf := stat.getD statbuf
      -- `break`, which leads to `closedir`
      if statbuf.isChr && type != .lnk && dev == statbuf.rdev then
        (s.setName ((path.drop 5).take (size - 1))).closedir
      else searchEntries rest devpath statbuf s
  | .dir name opens memory sub rest, devpath, statbuf, s =>
    if isHidden name then searchEntries rest devpath statbuf s
    else
      let path := snprintf size (fullpath devpath name)
      let s := callWith (searchEntries sub path) opens memory s
      -- `return ttyname`
      if s.ttyname ≠ "?".toList then s else searchEntries rest devpath statbuf s

end Search

/-- A call from outside: the number that is asked for, the directory with what it finds there, and
what the memory holds. -/
structure Call where
  dev : ℕ
  devpath : List Char
  /-- The callers give `/dev`. -/
  length_devpath : 4 ≤ devpath.length
  opens : Bool
  memory : Stat
  entries : Listing

/-- `get_ttyname_info`. -/
def Call.getTtynameInfo (size : ℕ) (c : Call) (s : State) : State :=
  callWith (searchEntries c.dev size c.entries c.devpath) c.opens c.memory s

/-- The calls of a daemon, which go on with the streams that the calls before have left open. -/
def fetch (size : ℕ) (calls : List Call) (s : State) : State :=
  calls.foldl (fun s c => c.getTtynameInfo size s) s

/-! ### The name -/

section Name

variable (garbage : List Char → Stat) (dev size : ℕ)

/-- A directory with the memory that its subdirectories find, as the model without the streams has
it, so that the two can be compared. -/
def Entries.listing : Entries → List Char → Listing
  | .nil, _ => .nil
  | .file name type stat rest, devpath => .file name type stat (rest.listing devpath)
  | .dir name opens sub rest, devpath =>
    let path := snprintf size (fullpath devpath name)
    .dir name opens (garbage path) (sub.listing path) (rest.listing devpath)

/-- The name behind a call. -/
theorem ttyname_callWith {loop : Stat → State → State} {opens : Bool} {memory : Stat} {s : State}
    {name : List Char}
    (hloop : (loop memory (s.setName "?".toList).opendir).ttyname = name) :
    (callWith loop opens memory s).ttyname = if opens then name else "?".toList := by
  cases opens with
  | false => rfl
  | true => exact hloop

/-- **The name** is the same as without the streams. -/
theorem ttyname_searchEntries (entries : Entries) (devpath : List Char) (statbuf : Stat)
    (s : State) :
    (searchEntries dev size (entries.listing garbage size devpath) devpath statbuf s).ttyname =
      readEntries garbage dev size entries devpath statbuf s.ttyname := by
  induction entries generalizing devpath statbuf s with
  | nil => rfl
  | file name type stat rest ih =>
    rw [Entries.listing, searchEntries, readEntries]
    split
    · exact ih devpath statbuf s
    · dsimp only
      split
      · rfl
      · exact ih devpath _ s
  | dir name opens sub rest ihsub ihrest =>
    rw [Entries.listing, searchEntries, readEntries]
    split
    · exact ihrest devpath statbuf s
    · dsimp only
      generalize snprintf size (fullpath devpath name) = path
      have hcall : (callWith (searchEntries dev size (sub.listing garbage size path) path) opens
          (garbage path) s).ttyname =
          if opens then readEntries garbage dev size sub path (garbage path) "?".toList
          else "?".toList := ttyname_callWith (ihsub path (garbage path) _)
      rw [← hcall]
      -- the state behind the call for the subdirectory
      generalize callWith _ opens _ s = s'
      split
      · rfl
      · exact ihrest devpath statbuf s'

end Name

/-! ### The streams -/

section Streams

variable {dev size : ℕ}

/-- How deep the entries lie at which the buffer of `stat` shows the device, in the order of the
search: 0 in the directory itself, and one more for each subdirectory. -/
def Listing.depths (dev : ℕ) : Listing → Stat → List ℕ
  | .nil, _ => []
  | .file name type stat rest, statbuf =>
    if isHidden name then rest.depths dev statbuf
    else
      (if type != .lnk && (stat.getD statbuf).shows dev then [0] else []) ++
        rest.depths dev (stat.getD statbuf)
  | .dir name opens memory sub rest, statbuf =>
    if isHidden name then rest.depths dev statbuf
    else
      (if opens then (sub.depths dev memory).map (· + 1) else []) ++ rest.depths dev statbuf

/-- How many streams are left open: one for each directory that the search has gone down to the
entry it ends at, as only the innermost closes its own. -/
def leftOpen (depths : List ℕ) : ℕ := depths.head?.getD 0

/-- The state behind a call: as many streams are left open as the first of the entries is deep,
and below a subdirectory the name tells whether there is one. -/
structure Ended (devpath : List Char) (depths : List ℕ) (n : ℕ) (s : State) : Prop where
  streams : s.streams = n + leftOpen depths
  ttyname_of_nil : depths = [] → s.ttyname = "?".toList
  ttyname_of_ne_nil : 5 ≤ devpath.length → depths ≠ [] → s.ttyname ≠ "?".toList

/-- The name of an entry below a subdirectory is not `?`, even if it is cut. -/
theorem cut_ne_of_subdirectory (hsize : 8 ≤ size) {devpath : List Char} (h : 5 ≤ devpath.length)
    (name : List Char) :
    ((snprintf size (fullpath devpath name)).drop 5).take (size - 1) ≠ "?".toList := by
  intro heq
  have hlength := congrArg List.length heq
  rw [snprintf, List.length_take, List.length_drop, List.length_take, length_fullpath] at hlength
  change min (size - 1) (min (size - 1) (devpath.length + (name.length + 1)) - 5) = 1 at hlength
  -- only the slash is left
  have hname : name = [] := List.length_eq_zero_iff.mp (by omega)
  have hdevpath : devpath.length = 5 := by omega
  have hcut : snprintf size (fullpath devpath name) = devpath ++ ['/'] := by
    rw [hname]
    exact List.take_of_length_le (by rw [length_fullpath, List.length_nil]; omega)
  rw [hcut, ← hdevpath, List.drop_left,
    List.take_of_length_le (by rw [List.length_singleton]; omega)] at heq
  exact absurd heq (by decide)

/-- A call, if its loop ends so. -/
theorem callWith_ok {loop : Stat → State → State} {devpath : List Char} {depths : List ℕ}
    {memory : Stat}
    (hloop : ∀ (s : State) (n : ℕ), s.ttyname = "?".toList → s.streams = n + 1 →
      Ended devpath depths n (loop memory s)) (opens : Bool) (s : State) :
    Ended devpath (if opens then depths else []) s.streams (callWith loop opens memory s) := by
  cases opens with
  | false => exact ⟨rfl, fun _ => rfl, fun _ hne => absurd rfl hne⟩
  | true => exact hloop _ s.streams rfl rfl

/-- **The loop**, by induction on the directory. -/
theorem searchEntries_ok (hsize : 8 ≤ size) (entries : Listing) {devpath : List Char}
    (hdevpath : 4 ≤ devpath.length) (statbuf : Stat) {s : State} {n : ℕ}
    (hname : s.ttyname = "?".toList) (hstreams : s.streams = n + 1) :
    Ended devpath (entries.depths dev statbuf) n
      (searchEntries dev size entries devpath statbuf s) := by
  induction entries generalizing devpath statbuf s n with
  | nil => exact ⟨by rw [searchEntries, State.closedir, hstreams]; rfl, fun _ => hname,
      fun _ hne => absurd rfl hne⟩
  | file name type stat rest ih =>
    rw [searchEntries, Listing.depths]
    split
    · exact ih hdevpath statbuf hname hstreams
    · simp only [Stat.shows_eq]
      cases type != .lnk && (stat.getD statbuf).shows dev with
      | true =>
        -- `break` and `closedir`
        refine ⟨?_, fun hnil => absurd hnil (List.cons_ne_nil _ _), fun h _ => ?_⟩
        · show s.streams - 1 = n + 0
          omega
        · exact cut_ne_of_subdirectory hsize h name
      | false => exact ih hdevpath _ hname hstreams
  | dir name opens memory sub rest ihsub ihrest =>
    rw [searchEntries, Listing.depths]
    split
    · exact ihrest hdevpath statbuf hname hstreams
    · dsimp only
      have hpath : 5 ≤ (snprintf size (fullpath devpath name)).length := by
        rw [snprintf, List.length_take, length_fullpath]
        omega
      generalize snprintf size (fullpath devpath name) = path at hpath ⊢
      have hsub : Ended path (if opens then sub.depths dev memory else []) s.streams
          (callWith (searchEntries dev size sub path) opens memory s) :=
        callWith_ok (fun _ _ hname hstreams => ihsub (by omega) memory hname hstreams) opens s
      generalize callWith _ opens memory s = s' at hsub ⊢
      have hmap : (if opens then (sub.depths dev memory).map (· + 1) else []) =
          (if opens then sub.depths dev memory else []).map (· + 1) := by
        cases opens with
        | false => rfl
        | true => rfl
      rw [hmap]
      cases hdepths : (if opens then sub.depths dev memory else []) with
      | nil =>
        rw [hdepths] at hsub
        have hname' : s'.ttyname = "?".toList := hsub.ttyname_of_nil rfl
        rw [if_neg (not_not.mpr hname')]
        exact ihrest hdevpath statbuf hname' (hsub.streams.trans hstreams)
      | cons depth depths =>
        -- `return ttyname`, which leaves the directory open
        rw [hdepths] at hsub
        have hne : s'.ttyname ≠ "?".toList :=
          hsub.ttyname_of_ne_nil hpath (List.cons_ne_nil depth depths)
        rw [if_pos hne]
        refine ⟨?_, fun hnil => absurd hnil (List.cons_ne_nil _ _), fun _ _ => hne⟩
        calc s'.streams = n + 1 + depth := by rw [hsub.streams, hstreams]; rfl
          _ = n + (depth + 1) := by omega

def Call.depths (c : Call) : List ℕ := if c.opens then c.entries.depths c.dev c.memory else []

/-- The first device that is shown, if any, is in the directory itself and in no subdirectory, so
that no recursive call returns with a name. -/
def Call.EndsInDirectory (c : Call) : Prop := ∀ depth ∈ c.depths.head?, depth = 0

/-- A call closes as many streams as it opens: after it there are as many of them as before. -/
def StreamsReleased (size : ℕ) (c : Call) (s : State) : Prop :=
  (c.getTtynameInfo size s).streams = s.streams

/-- **A call** leaves as many streams open as the entry it ends at is deep, whatever is open before
it. -/
theorem streams_getTtynameInfo (hsize : 8 ≤ size) (c : Call) (s : State) :
    (c.getTtynameInfo size s).streams = s.streams + leftOpen c.depths :=
  (callWith_ok (fun _ _ hname hstreams =>
    searchEntries_ok hsize c.entries c.length_devpath c.memory hname hstreams) c.opens s).streams

/-- **The calls of a daemon** leave open what each of them does, so the streams get more with each
call for a terminal in a subdirectory, until there are no descriptors left. -/
theorem streams_fetch (hsize : 8 ≤ size) (calls : List Call) (s : State) :
    (fetch size calls s).streams = s.streams + (calls.map fun c => leftOpen c.depths).sum := by
  induction calls generalizing s with
  | nil => rfl
  | cons c calls ih =>
    rw [fetch, List.foldl_cons, ← fetch, ih, streams_getTtynameInfo hsize, List.map_cons,
      List.sum_cons, Nat.add_assoc]

theorem leftOpen_eq_zero_iff (c : Call) : leftOpen c.depths = 0 ↔ c.EndsInDirectory := by
  rw [leftOpen, Call.EndsInDirectory]
  cases c.depths.head? with
  | none => exact iff_of_true rfl nofun
  | some depth => simp

/-- The streams of a daemon stay as many as they are exactly when each of its calls closes its
own. -/
theorem streams_fetch_eq_iff (hsize : 8 ≤ size) (calls : List Call) (s : State) :
    (fetch size calls s).streams = s.streams ↔ ∀ c ∈ calls, c.EndsInDirectory := by
  rw [streams_fetch hsize, Nat.add_eq_left, List.sum_eq_zero_iff_forall_eq_nat, List.forall_mem_map]
  exact forall₂_congr fun c _ => leftOpen_eq_zero_iff c

/-- **All streams are closed exactly when** the search ends in the directory itself.  A terminal in
`/dev/pts` is found by a recursive call, behind which the stream of `/dev` stays open. -/
theorem streamsReleased_iff (hsize : 8 ≤ size) (c : Call) (s : State) :
    StreamsReleased size c s ↔ c.EndsInDirectory := by
  rw [StreamsReleased, streams_getTtynameInfo hsize, Nat.add_eq_left]
  exact leftOpen_eq_zero_iff c

/-- A call for `/dev` with the directory `pts`, in which there is a terminal, and the console. -/
def ptsCall (dev : ℕ) : Call where
  dev := dev
  devpath := "/dev".toList
  length_devpath := by decide
  opens := true
  memory := ⟨false, 0⟩
  entries := .dir "pts".toList true ⟨false, 0⟩ (.file "0".toList .chr (some ⟨true, 34816⟩) .nil)
    (.file "console".toList .chr (some ⟨true, 1281⟩) .nil)

theorem streamsReleased_console : StreamsReleased 1024 (ptsCall 1281) ⟨[], 0⟩ :=
  (streamsReleased_iff (by decide) (ptsCall 1281) ⟨[], 0⟩).mpr (by
    intro depth hdepth
    exact (Option.mem_some_iff.mp hdepth).symm)

/-- For the terminal in `pts` the stream of `/dev` is left open. -/
theorem not_streamsReleased_pts : ¬ StreamsReleased 1024 (ptsCall 34816) ⟨[], 0⟩ := by
  intro h
  rw [StreamsReleased] at h
  exact absurd h (by decide)

end Streams

end LinuxNote.Ttyname
