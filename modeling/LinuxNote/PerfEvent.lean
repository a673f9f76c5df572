import LinuxNote.Base.CText
import LinuxNote.Base.Loop
import LinuxNote.Base.PerfGroup
import LinuxNote.Base.Readdir
import Mathlib.Logic.Function.Basic

/-!
# Opening trace events

What the three collectors of the repository share: the kvmstat PMDA, the
`kvm_trace` tool and the sample it grew from each contain a copy of `perf_event`,
which walks the tracefs directory once per CPU (or once per CPU and name) and
opens the events it finds as one perf group per CPU.  The copies differ in the
loops; the statements that open an event are the same and are modelled here.

* `Tracefs` — a tracefs directory with the events' identifiers.
* `isEvent`, `readConfig` — the entries that are skipped, and the event's number.
* `Opener`, `addEvent`, `beginCpu` — the state of `perf_event`, one opening, and
  the start of a CPU.
* `group_forEach` — **the groups all CPUs end up with**, for any traversal that
  says which openings it tries on each CPU.
-/

namespace LinuxNote

open CText PerfGroup

/-- A file name. -/
abbrev Name := List Char

/-- A directory of trace events: its entries in the order `readdir` lists them,
and the number the kernel gives each event, which is what its `id` file holds. -/
structure Tracefs where
  entries : List Name
  nodup : entries.Nodup
  id : Name → ℕ
  id_inj : ∀ a ∈ entries, ∀ b ∈ entries, id a = id b → a = b
  id_lt : ∀ a ∈ entries, id a < 2 ^ 31

/-- A directory with the two events of the shipped configuration. -/
def Tracefs.twoEvents : Tracefs where
  entries := [".".toList, "..".toList, "kvm_entry".toList, "kvm_exit".toList]
  nodup := by decide
  id := List.length
  id_inj := by decide
  id_lt := by decide

/-- The contents of `<name>/id`. -/
def Tracefs.idFile (fs : Tracefs) (name : Name) : List Char := decimal (fs.id name) ++ ['\n']

/-- `pe.config = atoi(fgets(temp, sizeof(temp), pFile))`: the number of an event, of
which as much is read as the buffer holds. -/
def readConfig (size : ℕ) (fs : Tracefs) (name : Name) : ℤ :=
  match fgets size (fs.idFile name) with
  | some (temp, _) => atoi temp
  | none => 0

/-- The entries that are not skipped: hidden files and the control files `enable` and
`filter` are, and so is an event whose name begins like one of these. -/
def isEvent (de : Name) : Bool :=
  !strncmpEq de ".".toList 1 && !(strncmpEq de "enable".toList 6 || strncmpEq de "filter".toList 6)

/-- The number read is the event's own. -/
theorem readConfig_eq {size : ℕ} (hsize : 12 ≤ size) {fs : Tracefs} {name : Name}
    (h : name ∈ fs.entries) : readConfig size fs name = fs.id name := by
  have hid := fs.id_lt name h
  have hlen : (decimal (fs.id name)).length ≤ 10 := length_decimal_le (by decide) (by omega)
  have hline : lines (fs.idFile name) = [decimal (fs.id name) ++ ['\n']] :=
    lines_append_newline (newline_notMem_decimal _) []
  obtain ⟨hfill, -⟩ := fill_of_lines hline (n := size - 1)
    (by rw [List.length_append, List.length_singleton]; omega)
  have hne : fs.idFile name ≠ [] := by simp [Tracefs.idFile]
  rw [readConfig, fgets, if_neg hne]
  change atoi (fill (size - 1) (fs.idFile name)).1 = _
  rw [hfill]
  refine atoi_decimal hid fun c t hct => ?_
  rw [List.cons.injEq] at hct
  rw [← hct.1]
  decide

/-! ### The state of `perf_event` -/

/-- The locals of `perf_event`, with the counters open in the kernel and the
position of the directory stream. -/
structure Opener where
  perf : Perf
  groupFd : ℕ → ℤ
  flag : Bool
  sts : ℤ
  offset : ℕ
  pos : ℕ

namespace Opener

/-- The part of the state that is about the group of one CPU. -/
def builder (s : Opener) (cpu : ℕ) : Builder := ⟨s.perf, s.groupFd cpu, s.flag⟩

/-- The state after `opendir`. -/
def init : Opener := ⟨Perf.init, fun _ => 0, false, 0, 0, 0⟩

end Opener

/-- `flag = 0; group_fd[cpu] = -1`. -/
def beginCpu (cpu : ℕ) (s : Opener) : Opener :=
  { s with flag := false, groupFd := Function.update s.groupFd cpu (-1) }

/-- Open one event: the first descriptor of the CPU, good or `-1`, becomes its group
descriptor, and the later ones join what it leads. -/
def addEvent (config : ℤ) (cpu : ℕ) (ok : Bool) (s : Opener) : Opener :=
  let r := s.perf.perfEventOpen config cpu (s.groupFd cpu) ok
  { s with
    perf := r.1
    sts := if r.2 = -1 then 1 else s.sts
    groupFd := if s.flag then s.groupFd else Function.update s.groupFd cpu r.2
    flag := true }

/-- `if (offset == 0) offset = telldir(kvm_dir)`.  It stands behind the first `readdir`,
so what is saved is the position of the second entry. -/
def saveOffset (pos : ℕ) (s : Opener) : Opener :=
  if s.offset = 0 then { s with offset := pos } else s

@[simp] theorem builder_beginCpu (cpu : ℕ) (s : Opener) :
    (beginCpu cpu s).builder cpu = ⟨s.perf, -1, false⟩ := by
  simp [beginCpu, Opener.builder]

theorem builder_addEvent (config : ℤ) (cpu : ℕ) (ok : Bool) (s : Opener) :
    (addEvent config cpu ok s).builder cpu = openOne cpu (s.builder cpu) (config, ok) := by
  cases hflag : s.flag <;> simp [addEvent, Opener.builder, openOne, hflag]

theorem groupFd_addEvent_of_ne {c cpu : ℕ} (h : c ≠ cpu) (config : ℤ) (ok : Bool) (s : Opener) :
    (addEvent config cpu ok s).groupFd c = s.groupFd c := by
  cases hflag : s.flag <;> simp [addEvent, hflag, h]

theorem groupFd_beginCpu_of_ne {c cpu : ℕ} (h : c ≠ cpu) (s : Opener) :
    (beginCpu cpu s).groupFd c = s.groupFd c := by
  simp [beginCpu, h]

@[simp] theorem offset_addEvent (config : ℤ) (cpu : ℕ) (ok : Bool) (s : Opener) :
    (addEvent config cpu ok s).offset = s.offset := rfl

@[simp] theorem pos_addEvent (config : ℤ) (cpu : ℕ) (ok : Bool) (s : Opener) :
    (addEvent config cpu ok s).pos = s.pos := rfl

@[simp] theorem offset_beginCpu (cpu : ℕ) (s : Opener) : (beginCpu cpu s).offset = s.offset := rfl

@[simp] theorem pos_beginCpu (cpu : ℕ) (s : Opener) : (beginCpu cpu s).pos = s.pos := rfl

@[simp] theorem perf_beginCpu (cpu : ℕ) (s : Opener) : (beginCpu cpu s).perf = s.perf := rfl

theorem saveOffset_of_ne {pos : ℕ} {s : Opener} (h : s.offset ≠ 0) : saveOffset pos s = s := by
  rw [saveOffset, if_neg h]

theorem saveOffset_of_eq {pos : ℕ} {s : Opener} (h : s.offset = 0) :
    saveOffset pos s = { s with offset := pos } := by
  rw [saveOffset, if_pos h]

/-- Open several events for a CPU. -/
def addEvents (cpu : ℕ) (as : List (ℤ × Bool)) (s : Opener) : Opener :=
  as.foldl (fun s a => addEvent a.1 cpu a.2 s) s

@[simp] theorem addEvents_nil (cpu : ℕ) (s : Opener) : addEvents cpu [] s = s := rfl

@[simp] theorem addEvents_cons (cpu : ℕ) (a : ℤ × Bool) (as : List (ℤ × Bool)) (s : Opener) :
    addEvents cpu (a :: as) s = addEvents cpu as (addEvent a.1 cpu a.2 s) := rfl

theorem builder_addEvents (cpu : ℕ) (as : List (ℤ × Bool)) (s : Opener) :
    (addEvents cpu as s).builder cpu = as.foldl (openOne cpu) (s.builder cpu) := by
  induction as generalizing s with
  | nil => rfl
  | cons a as ih => rw [addEvents_cons, ih, builder_addEvent, List.foldl_cons]

theorem groupFd_addEvents_of_ne {c cpu : ℕ} (h : c ≠ cpu) (as : List (ℤ × Bool)) (s : Opener) :
    (addEvents cpu as s).groupFd c = s.groupFd c := by
  induction as generalizing s with
  | nil => rfl
  | cons a as ih => rw [addEvents_cons, ih, groupFd_addEvent_of_ne h]

@[simp] theorem offset_addEvents (cpu : ℕ) (as : List (ℤ × Bool)) (s : Opener) :
    (addEvents cpu as s).offset = s.offset := by
  induction as generalizing s with
  | nil => rfl
  | cons a as ih => rw [addEvents_cons, ih, offset_addEvent]

/-! ### All CPUs -/

/-- What a traversal does for one CPU: it tries the openings `as` for that CPU,
starting with no group, and leaves the other CPUs' descriptors alone. -/
structure OpensFor (cpu : ℕ) (as : List (ℤ × Bool)) (s s' : Opener) : Prop where
  builder : s'.builder cpu = openAll cpu s.perf as
  other : ∀ c, c ≠ cpu → s'.groupFd c = s.groupFd c

theorem OpensFor.perf {cpu : ℕ} {as : List (ℤ × Bool)} {s s' : Opener}
    (h : OpensFor cpu as s s') : s'.perf = (openAll cpu s.perf as).perf :=
  congrArg Builder.perf h.builder

theorem OpensFor.groupFd {cpu : ℕ} {as : List (ℤ × Bool)} {s s' : Opener}
    (h : OpensFor cpu as s s') : s'.groupFd cpu = (openAll cpu s.perf as).fd :=
  congrArg Builder.fd h.builder

/-- The CPUs below `n` have the groups their openings build, with descriptors that are
open, whatever has been opened for other CPUs since. -/
def GroupsBuilt (as : ℕ → List (ℤ × Bool)) (n : ℕ) (s : Opener) : Prop :=
  ∀ c < n, s.groupFd c < s.perf.opened.length ∧
    ∃ leader, s.perf.group (s.groupFd c) = (groupOf (as c)).map fun cs => cs.map fun e => ⟨leader, e, c⟩

/-- One more CPU. -/
theorem GroupsBuilt.succ {as : ℕ → List (ℤ × Bool)} {n : ℕ} {s s' : Opener}
    (hs : GroupsBuilt as n s) (h : OpensFor n (as n) s s') : GroupsBuilt as (n + 1) s' := by
  intro c hc
  rcases Nat.lt_or_ge c n with hlt | hge
  · obtain ⟨hfd, leader, hgroup⟩ := hs c hlt
    have hlen := length_le_openAll n s.perf (as n)
    rw [h.other c (by omega), h.perf]
    exact ⟨by omega, leader, by rw [group_openAll_of_lt hfd, hgroup]⟩
  · have hcn : c = n := by omega
    subst hcn
    rw [h.groupFd, h.perf]
    exact ⟨fd_openAll_lt c s.perf (as c), _, group_openAll_self c s.perf (as c)⟩

/-- **The groups all CPUs end up with.**  A traversal whose body for CPU `c`, in
a state satisfying the traversal's own invariant `I`, tries the openings `as c`
builds for each CPU the group of its openings. -/
theorem group_forEach {body : Opener → ℕ → Opener} {as : ℕ → List (ℤ × Bool)}
    {I : ℕ → Opener → Prop} {n : ℕ} {s : Opener} (hI : I 0 s)
    (hbody : ∀ c < n, ∀ t, I c t → I (c + 1) (body t c) ∧ OpensFor c (as c) t (body t c)) :
    GroupsBuilt as n (Loop.forEach body n s) := by
  have key : I n (Loop.forEach body n s) ∧ GroupsBuilt as n (Loop.forEach body n s) := by
    refine Loop.forEach_inv (fun c t => I c t ∧ GroupsBuilt as c t) ⟨hI, ?_⟩ ?_
    · intro c hc; omega
    · rintro c hc t ⟨hIt, hbuilt⟩
      obtain ⟨hI', hopens⟩ := hbody c hc t hIt
      exact ⟨hI', hbuilt.succ hopens⟩
  exact key.2

theorem GroupsBuilt.length_le {as : ℕ → List (ℤ × Bool)} {n : ℕ} {s : Opener}
    (h : GroupsBuilt as n s) {c : ℕ} (hc : c < n) {es : List Event}
    (hes : s.perf.group (s.groupFd c) = some es) : es.length ≤ (as c).length := by
  obtain ⟨-, leader, hgroup⟩ := h c hc
  rw [hgroup, Option.map_eq_some_iff] at hes
  obtain ⟨cs, hcs, rfl⟩ := hes
  rw [List.length_map]
  exact length_groupOf_le hcs

/-- The words a read of the CPU's group delivers: the count, then the counters of
the group's events on that CPU. -/
def groupWords (count : ℤ → ℕ → ℤ) (cap cpu : ℕ) (cs : List ℤ) : Option (List ℤ) :=
  if cs.length + 1 ≤ cap then some ((cs.length : ℤ) :: cs.map fun e => count e cpu) else none

theorem GroupsBuilt.read {as : ℕ → List (ℤ × Bool)} {n : ℕ} {s : Opener} (h : GroupsBuilt as n s)
    {c : ℕ} (hc : c < n) (count : ℤ → ℕ → ℤ) (cap : ℕ) :
    s.perf.read count cap (s.groupFd c) = (groupOf (as c)).bind (groupWords count cap c) := by
  obtain ⟨-, leader, hgroup⟩ := h c hc
  cases hg : groupOf (as c) with
  | none => rw [hg] at hgroup; exact Perf.read_eq_none hgroup
  | some cs =>
    rw [hg, Option.map_some] at hgroup
    rw [Perf.read, hgroup, Option.bind_some, groupWords]
    simp [Function.comp_def]

end LinuxNote
