import LinuxNote.Base.HeapBlock
import LinuxNote.KvmTrace.Sampling

/-!
# The kvm_trace tool

`src/kvm/tool/kvm_trace.c` opens every event of the directory on every CPU.  The
walk for CPU 0 also collects the names that label the table; the walks for the
other CPUs start over at the saved offset, which is behind the first entry.  The
names go to blocks from `malloc(sizeof(char))`.  `main` allocates all of them before
it copies the first name, so they lie in a row, and a name that is too long for its
block runs into the next one, where the next name is written over it.

* `ToolState`, `collectBody`, `openCpu`, `perfEvent` — the source.
* `events`, `openings` — the events a CPU's walk meets, and what it opens.
* `perfEvent_ok`, `perfEvent_eq_none` — **what `perf_event` leaves behind**, and
  when it overflows the table of names.
* `NamesKept` — the names come through their blocks.
* `rightCounters_iff` — the table is labelled right exactly when the names come
  through and there is one CPU or the first entry of the directory is no event.
-/

namespace LinuxNote.KvmTrace.Tool

open CText HeapBlock PerfGroup Readdir

/-! ### The source -/

/-- The locals of `perf_event` and the table `trace_name` with its `trace_count`
names. -/
structure ToolState where
  opener : Opener
  traceName : List Name
  room : traceName.length ≤ TRACE_SIZE

namespace ToolState

/-- The state after `opendir`. -/
def init : ToolState := ⟨Opener.init, [], Nat.zero_le _⟩

/-- The same names with other locals. -/
def withOpener (s : ToolState) (o : Opener) : ToolState := { s with opener := o }

/-- `strcpy(trace_name[trace_count], de->d_name); trace_count++`, which faults when
the table is full.  The table has the names as they are written; what is left of them
in their blocks is `readBack`. -/
def addTraceName (s : ToolState) (de : Name) : Option ToolState :=
  if h : s.traceName.length < TRACE_SIZE then
    some
      { s with
        traceName := s.traceName ++ [de]
        room := by rw [List.length_append]; exact h }
  else none

/-- The table as it reads once all names are copied to their blocks, `TRACE_SIZE` in a
row; `heap` says what the blocks hold if a name runs over the end of the last. -/
def readBack (heap : List Name → ℕ → Name) (s : ToolState) : ToolState :=
  { s with
    traceName := rowReadBack BLOCK_DISTANCE TRACE_SIZE heap s.traceName
    room := by rw [length_rowReadBack]; exact s.room }

@[simp] theorem withOpener_opener (s : ToolState) (o : Opener) : (s.withOpener o).opener = o := rfl

@[simp] theorem withOpener_traceName (s : ToolState) (o : Opener) :
    (s.withOpener o).traceName = s.traceName := rfl

theorem addTraceName_of_lt {s : ToolState} (h : s.traceName.length < TRACE_SIZE) (de : Name) :
    ∃ t, s.addTraceName de = some t ∧ t.opener = s.opener ∧ t.traceName = s.traceName ++ [de] := by
  rw [addTraceName, dif_pos h]
  exact ⟨_, rfl, rfl, rfl⟩

theorem addTraceName_eq_none {s : ToolState} (h : ¬ s.traceName.length < TRACE_SIZE) (de : Name) :
    s.addTraceName de = none := by
  rw [addTraceName, dif_neg h]

end ToolState

section PerfEvent

variable (fs : Tracefs) (opens : ℕ → Name → Bool)

/-- The body of the `readdir` loop for a CPU; a fault ends it. -/
def collectBody (cpu pos : ℕ) (de : Name) : Option ToolState → Flow (Option ToolState)
  | none => .stop none
  | some s =>
    let s := s.withOpener (saveOffset pos s.opener)
    if isEvent de then
      let s := s.withOpener (addEvent (readConfig LENGTH fs de) cpu (opens cpu de) s.opener)
      if cpu = 0 then
        match s.addTraceName de with
        | none => .stop none
        | some s => .next (some s)
      else .next (some s)
    else .next (some s)

/-- One CPU, and `seekdir(kvm_dir, offset)`. -/
def openCpu (s : ToolState) (cpu : ℕ) : Option ToolState :=
  let s := s.withOpener (beginCpu cpu s.opener)
  let walk := whileReaddir (collectBody fs opens cpu) s.opener.pos
    (fs.entries.drop s.opener.pos) (some s)
  walk.map fun s => s.withOpener { s.opener with pos := s.opener.offset }

/-- The loop over the CPUs in `perf_event`; the stream stays open, and each walk starts
where `seekdir` has put it. -/
def openCpus (cpus : ℕ) : Option ToolState :=
  Loop.forRange (openCpu fs opens) cpus ToolState.init

/-- `perf_event(cpus, group_fd, trace_name)`, and the names as `main` reads them
afterwards; `none` when it writes outside the table. -/
def perfEvent (heap : List Name → ℕ → Name) (cpus : ℕ) : Option ToolState :=
  (openCpus fs opens cpus).map (ToolState.readBack heap)

/-! ### One walk -/

/-- The events the walk for a CPU meets, which are the members of its group in their
order. -/
def events (cpu : ℕ) : List Name := (visible fs cpu).filter isEvent

/-- The opening tried for an event. -/
def opening (cpu : ℕ) (de : Name) : ℤ × Bool := (readConfig LENGTH fs de, opens cpu de)

/-- The openings tried on a CPU. -/
def openings (cpu : ℕ) : List (ℤ × Bool) := (events fs cpu).map (opening fs opens cpu)

/-- The names the walk of a CPU collects. -/
def collected (cpu : ℕ) (evs : List Name) : List Name := if cpu = 0 then evs else []

/-- The locals and the names. -/
def ToolState.parts (s : ToolState) : Opener × List Name := (s.opener, s.traceName)

section Body

variable {s : ToolState} (hs : s.opener.offset ≠ 0)
include hs

/-- An entry that is not an event is passed over. -/
theorem collectBody_skip (cpu pos : ℕ) {de : Name} (hev : isEvent de = false) :
    collectBody fs opens cpu pos de (some s) = .next (some s) := by
  have hsave : s.withOpener (saveOffset pos s.opener) = s := by
    rw [saveOffset_of_ne hs, ToolState.withOpener]
  simp only [collectBody, hsave, hev, Bool.false_eq_true, if_false]

/-- On CPU 0 the name of an event is collected as well, if there is room. -/
theorem collectBody_zero (pos : ℕ) {de : Name} (hev : isEvent de = true) :
    collectBody fs opens 0 pos de (some s) =
      match (s.withOpener (addEvent (readConfig LENGTH fs de) 0 (opens 0 de) s.opener)).addTraceName
        de with
      | none => .stop none
      | some t => .next (some t) := by
  have hsave : s.withOpener (saveOffset pos s.opener) = s := by
    rw [saveOffset_of_ne hs, ToolState.withOpener]
  simp only [collectBody, hsave, hev, if_true]

/-- On the other CPUs an event is only opened. -/
theorem collectBody_succ {cpu : ℕ} (hcpu : cpu ≠ 0) (pos : ℕ) {de : Name} (hev : isEvent de = true) :
    collectBody fs opens cpu pos de (some s) = .next (some
      (s.withOpener (addEvent (readConfig LENGTH fs de) cpu (opens cpu de) s.opener))) := by
  have hsave : s.withOpener (saveOffset pos s.opener) = s := by
    rw [saveOffset_of_ne hs, ToolState.withOpener]
  simp only [collectBody, hsave, hev, if_true, if_neg hcpu]

end Body

/-- Once the offset is saved, a walk opens all events ahead, and collects them on
CPU 0 if there is room. -/
theorem whileReaddir_collectBody (cpu : ℕ) (rest : List Name) :
    ∀ (pos : ℕ) (s : ToolState), s.opener.offset ≠ 0 →
      (whileReaddir (collectBody fs opens cpu) pos rest (some s)).map ToolState.parts =
        if s.traceName.length + (collected cpu (rest.filter isEvent)).length ≤ TRACE_SIZE then
          some (addEvents cpu ((rest.filter isEvent).map (opening fs opens cpu)) s.opener,
            s.traceName ++ collected cpu (rest.filter isEvent))
        else none := by
  induction rest with
  | nil =>
    intro pos s _
    have hroom := s.room
    simp [collected, ToolState.parts, hroom]
  | cons de rest ih =>
    intro pos s hs
    cases hev : isEvent de with
    | false =>
      rw [whileReaddir_cons_next (collectBody_skip fs opens hs cpu (pos + 1) hev), ih _ s hs,
        List.filter_cons_of_neg (by simp [hev])]
    | true =>
      have hoff : (addEvent (readConfig LENGTH fs de) cpu (opens cpu de) s.opener).offset ≠ 0 := hs
      rw [List.filter_cons_of_pos hev]
      by_cases hcpu : cpu = 0
      · subst hcpu
        have htrue : collected 0 (de :: rest.filter isEvent) = de :: rest.filter isEvent := rfl
        have hrest : collected 0 (rest.filter isEvent) = rest.filter isEvent := rfl
        have hbody := collectBody_zero fs opens hs (pos + 1) hev
        by_cases hroom : s.traceName.length < TRACE_SIZE
        · obtain ⟨t, ht, hopener, hname⟩ := ToolState.addTraceName_of_lt
            (s := s.withOpener (addEvent (readConfig LENGTH fs de) 0 (opens 0 de) s.opener)) hroom de
          rw [ht] at hbody
          rw [ToolState.withOpener_opener] at hopener
          rw [ToolState.withOpener_traceName] at hname
          rw [whileReaddir_cons_next hbody, ih _ t (by rw [hopener]; exact hoff), hopener, hname,
            htrue, hrest, List.length_cons, List.length_append, List.length_singleton,
            Nat.add_assoc, Nat.add_comm 1, List.append_assoc, List.singleton_append]
          rfl
        · -- the name would be written behind the table
          rw [ToolState.addTraceName_eq_none (s := s.withOpener
            (addEvent (readConfig LENGTH fs de) 0 (opens 0 de) s.opener)) hroom de] at hbody
          rw [whileReaddir_cons_stop hbody, htrue, List.length_cons, if_neg (by omega)]
          rfl
      · have hnone : ∀ evs, collected cpu evs = [] := fun evs => if_neg hcpu
        rw [whileReaddir_cons_next (collectBody_succ fs opens hs hcpu (pos + 1) hev),
          ih _ (s.withOpener (addEvent (readConfig LENGTH fs de) cpu (opens cpu de) s.opener)) hoff,
          hnone, hnone]
        rfl

/-- The first entry of all saves the offset. -/
theorem whileReaddir_collectBody_first (cpu pos : ℕ) {rest : List Name} (hrest : rest ≠ [])
    {s : ToolState} (hs : s.opener.offset = 0) :
    whileReaddir (collectBody fs opens cpu) pos rest (some s) =
      whileReaddir (collectBody fs opens cpu) pos rest
        (some (s.withOpener { s.opener with offset := pos + 1 })) := by
  have hsaved : saveOffset (pos + 1) { s.opener with offset := pos + 1 } =
      { s.opener with offset := pos + 1 } := saveOffset_of_ne (Nat.succ_ne_zero pos)
  apply whileReaddir_of_first hrest
  intro de
  simp only [collectBody, ToolState.withOpener, saveOffset_of_eq hs, hsaved]

/-- The state a walk starts from; its offset is saved unless there is nothing to
read. -/
def saved (cpu : ℕ) (s : ToolState) : ToolState :=
  s.withOpener { beginCpu cpu s.opener with offset := min 1 fs.entries.length }

theorem whileReaddir_saved {cpu : ℕ} {s : ToolState} (hs : Rewound fs cpu s.opener) :
    whileReaddir (collectBody fs opens cpu) s.opener.pos (visible fs cpu)
      (some (s.withOpener (beginCpu cpu s.opener))) =
        whileReaddir (collectBody fs opens cpu) s.opener.pos (visible fs cpu)
          (some (saved fs cpu s)) := by
  rcases rewound_cases hs with hoff | ⟨hzero, hvis, hlen⟩
  · have hsame : saved fs cpu s = s.withOpener (beginCpu cpu s.opener) := by
      rw [saved, ← hoff]
      rfl
    rw [hsame]
  · rw [saved, hlen]
    exact whileReaddir_collectBody_first fs opens cpu s.opener.pos hvis hzero

theorem parts_walk_saved (cpu : ℕ) (s : ToolState) :
    (whileReaddir (collectBody fs opens cpu) s.opener.pos (visible fs cpu)
      (some (saved fs cpu s))).map ToolState.parts =
        if s.traceName.length + (collected cpu (events fs cpu)).length ≤ TRACE_SIZE then
          some (addEvents cpu (openings fs opens cpu) (saved fs cpu s).opener,
            s.traceName ++ collected cpu (events fs cpu))
        else none := by
  by_cases hempty : fs.entries = []
  · have hroom := s.room
    have hvis : visible fs cpu = [] := visible_eq_nil hempty
    simp [hvis, events, openings, collected, saved, ToolState.parts, hroom]
  · refine whileReaddir_collectBody fs opens cpu (visible fs cpu) _ (saved fs cpu s) ?_
    have := List.length_pos_iff.mpr hempty
    show min 1 fs.entries.length ≠ 0
    omega

/-- **One CPU**: it opens the events of its walk, and collects them on CPU 0 if there is
room; otherwise it has written outside the table. -/
theorem openCpu_parts {cpu : ℕ} {s : ToolState} (hs : Rewound fs cpu s.opener) :
    (openCpu fs opens s cpu).map ToolState.parts =
      if s.traceName.length + (collected cpu (events fs cpu)).length ≤ TRACE_SIZE then
        some (walked fs cpu (openings fs opens cpu) s.opener,
          s.traceName ++ collected cpu (events fs cpu))
      else none := by
  have hdrop : fs.entries.drop (s.withOpener (beginCpu cpu s.opener)).opener.pos =
      visible fs cpu := drop_pos hs
  have hopen : (openCpu fs opens s cpu).map ToolState.parts =
      ((whileReaddir (collectBody fs opens cpu) s.opener.pos (visible fs cpu)
        (some (saved fs cpu s))).map ToolState.parts).map
          fun p => ({ p.1 with pos := p.1.offset }, p.2) := by
    rw [openCpu]
    simp only [hdrop]
    rw [← whileReaddir_saved fs opens hs, Option.map_map, Option.map_map]
    rfl
  rw [hopen, parts_walk_saved]
  split <;> rfl

/-! ### All CPUs -/

/-- The CPUs below `n` have their groups, and the events of CPU 0 are collected. -/
structure Opened (n : ℕ) (s : ToolState) : Prop where
  rewound : Rewound fs n s.opener
  built : GroupsBuilt (openings fs opens) n s.opener
  names : s.traceName = if n = 0 then [] else events fs 0

theorem opened_zero : Opened fs opens 0 ToolState.init where
  rewound := rewound_init fs
  built := by intro c hc; omega
  names := rfl

/-- **One CPU** goes through when the names fit the table. -/
theorem opened_succ {n : ℕ} {s : ToolState} (hs : Opened fs opens n s)
    (hfit : (events fs 0).length ≤ TRACE_SIZE) :
    ∃ s', openCpu fs opens s n = some s' ∧ Opened fs opens (n + 1) s' := by
  have hcollected : s.traceName ++ collected n (events fs n) = events fs 0 := by
    rw [hs.names, collected]
    by_cases hn : n = 0
    · subst hn; rfl
    · rw [if_neg hn, if_neg hn, List.append_nil]
  have hparts := openCpu_parts fs opens hs.rewound
  rw [if_pos (by rw [← List.length_append, hcollected]; exact hfit), hcollected,
    Option.map_eq_some_iff] at hparts
  obtain ⟨s', hopen, hs'⟩ := hparts
  obtain ⟨hopener, hnames⟩ := Prod.mk.inj hs'
  refine ⟨s', hopen, ?_, ?_, ?_⟩
  · rw [hopener]
    exact rewound_walked fs n _ s.opener
  · rw [hopener]
    exact hs.built.succ (opensFor_walked fs n _ s.opener)
  · rw [if_neg (Nat.succ_ne_zero n)]
    exact hnames

theorem openCpus_ok (cpus : ℕ) (hfit : (events fs 0).length ≤ TRACE_SIZE) :
    ∃ s, openCpus fs opens cpus = some s ∧ Opened fs opens cpus s :=
  Loop.forRange_ok (Opened fs opens) (opened_zero fs opens) fun _ _ _ ht =>
    opened_succ fs opens ht hfit

/-- **What `perf_event` leaves behind**, when the names fit the table: a group for each
CPU with the events of its own walk, and the names of the walk of CPU 0 as they are read
back. -/
theorem perfEvent_ok (heap : List Name → ℕ → Name) (cpus : ℕ)
    (hfit : (events fs 0).length ≤ TRACE_SIZE) :
    ∃ s, perfEvent fs opens heap cpus = some s ∧ GroupsBuilt (openings fs opens) cpus s.opener ∧
      s.traceName =
        rowReadBack BLOCK_DISTANCE TRACE_SIZE heap (if cpus = 0 then [] else events fs 0) := by
  obtain ⟨s, hs, hopened⟩ := openCpus_ok fs opens cpus hfit
  refine ⟨s.readBack heap, by rw [perfEvent, hs]; rfl, hopened.built, ?_⟩
  rw [← hopened.names]
  rfl

/-- Otherwise the walk for CPU 0 writes outside the table. -/
theorem perfEvent_eq_none (heap : List Name → ℕ → Name) {cpus : ℕ} (hcpus : 0 < cpus)
    (hfull : TRACE_SIZE < (events fs 0).length) : perfEvent fs opens heap cpus = none := by
  rw [perfEvent, Option.map_eq_none_iff]
  by_contra hne
  obtain ⟨s, hs⟩ := Option.ne_none_iff_exists'.mp hne
  obtain ⟨u, v, hu, hv⟩ := Loop.forRange_prefix hs 0 hcpus
  rw [Loop.forRange_zero, Option.some.injEq] at hu
  subst hu
  have hparts := openCpu_parts fs opens (opened_zero fs opens).rewound
  have hlen : ¬ ToolState.init.traceName.length + (collected 0 (events fs 0)).length ≤ TRACE_SIZE := by
    simp only [ToolState.init, collected, if_true, List.length_nil]
    omega
  rw [if_neg hlen, hv] at hparts
  simp at hparts

end PerfEvent

/-! ### Labels -/

/-- **The table is labelled right**, whatever the heap holds behind the blocks: every
opening granted, `perf_event` goes through, the names are those of events, and in every
sampling round `trace_values[i][j]` is the counter of the event named `trace_name[j]`
on CPU `i`. -/
def RightCounters (fs : Tracefs) (cpus : ℕ) : Prop :=
  ∀ heap, ∃ s, perfEvent fs (fun _ _ => true) heap cpus = some s ∧
    (∀ n ∈ s.traceName, n ∈ fs.entries) ∧ TableRight fs s.opener cpus s.traceName

theorem mem_entries_of_mem_events {fs : Tracefs} {cpu : ℕ} {n : Name} (h : n ∈ events fs cpu) :
    n ∈ fs.entries := by
  have hvis := (List.mem_filter.mp h).1
  rw [visible] at hvis
  split at hvis
  · exact hvis
  · exact List.mem_of_mem_tail hvis

theorem length_events_le (fs : Tracefs) (cpu : ℕ) : (events fs cpu).length ≤ (events fs 0).length := by
  rw [events, visible]
  split
  · exact Nat.le_refl _
  · exact ((List.tail_sublist fs.entries).filter isEvent).length_le

/-- The other CPUs see the events of CPU 0 exactly when the first entry is none. -/
theorem events_succ_eq_iff (fs : Tracefs) (cpu : ℕ) :
    events fs (cpu + 1) = events fs 0 ↔ ∀ e ∈ fs.entries.head?, isEvent e = false := by
  have htail : events fs (cpu + 1) = fs.entries.tail.filter isEvent := rfl
  have hall : events fs 0 = fs.entries.filter isEvent := rfl
  rw [htail, hall]
  cases fs.entries with
  | nil => simp
  | cons e rest =>
    rw [List.tail_cons, List.head?_cons]
    cases hev : isEvent e with
    | false => simp [hev]
    | true =>
      rw [List.filter_cons_of_pos hev]
      refine iff_of_false (fun heq => ?_) fun h => ?_
      · have hlen := congrArg List.length heq
        rw [List.length_cons] at hlen
        omega
      · exact absurd (h e rfl) (by simp [hev])

/-- The names come through their blocks: none runs over the end of the last block, and
one that is too long for its own goes on as the next name, which is written over its
rest.  The last name has the blocks behind it to itself. -/
def NamesKept (names : List Name) : Prop :=
  WithinRow BLOCK_DISTANCE TRACE_SIZE names ∧ names.IsChain (GoesOnAs BLOCK_DISTANCE)

instance (names : List Name) : Decidable (NamesKept names) := inferInstanceAs (Decidable (_ ∧ _))

/-- A name of 24 bytes only reaches the size word behind its block. -/
example : NamesKept ["kvm_nested_vmexit_inject".toList, "kvm_entry".toList] := by decide

/-- A name of 32 bytes loses its end to the next name. -/
example : ¬ NamesKept [List.replicate 32 'k', "kvm_entry".toList] := by decide

/-- The names have to stay within the blocks: otherwise the heap may leave one that no
entry of the directory has. -/
theorem withinRow_of_rightCounters {fs : Tracefs} {cpus : ℕ} (hcpus : 0 < cpus)
    (hn : (fs.entries.filter isEvent).length < TRACE_SIZE) (h : RightCounters fs cpus) :
    WithinRow BLOCK_DISTANCE TRACE_SIZE (events fs 0) := by
  by_contra hrow
  have hne : events fs 0 ≠ [] := by
    intro hnil
    rw [hnil] at hrow
    exact hrow fun p hp => absurd hp List.not_mem_nil
  obtain ⟨heap, t, hmem, hnot⟩ := exists_leftOpen_notMem hne fs.entries
  obtain ⟨s, hs, hentries, -⟩ := h heap
  obtain ⟨s', hs', -, hnames⟩ := perfEvent_ok fs (fun _ _ => true) heap cpus (Nat.le_of_lt hn)
  rw [hs, Option.some.injEq] at hs'
  subst hs'
  rw [if_neg (by omega), rowReadBack, if_neg hrow] at hnames
  exact hnot (hentries t (hnames ▸ hmem))

/-- Names within the blocks are those of the table exactly when each CPU opens the events
that the table reads. -/
theorem tableRight_iff_readBack {fs : Tracefs} {cpus : ℕ} (hcpus : 0 < cpus)
    (hn : (fs.entries.filter isEvent).length < TRACE_SIZE) (heap : List Name → ℕ → Name) :
    ∃ s, perfEvent fs (fun _ _ => true) heap cpus = some s ∧
      s.traceName = rowReadBack BLOCK_DISTANCE TRACE_SIZE heap (events fs 0) ∧
      ((∀ n ∈ s.traceName, n ∈ fs.entries) →
        (TableRight fs s.opener cpus s.traceName ↔ ∀ c < cpus, events fs c = s.traceName)) := by
  obtain ⟨s, hs, hbuilt, hnames⟩ := perfEvent_ok fs (fun _ _ => true) heap cpus (Nat.le_of_lt hn)
  rw [if_neg (by omega)] at hnames
  have hlength : s.traceName.length = (events fs 0).length := by rw [hnames, length_rowReadBack]
  refine ⟨s, hs, hnames, fun hentries => ?_⟩
  exact tableRight_iff hbuilt (fun _ _ => mem_entries_of_mem_events) hentries
    (fun c => (length_events_le fs c).trans_eq hlength.symm) (hlength.trans_lt hn)

/-- The table is labelled right exactly when the names come through and every CPU opens the
events of CPU 0. -/
theorem rightCounters_iff_events {fs : Tracefs} {cpus : ℕ} (hcpus : 0 < cpus)
    (hn : (fs.entries.filter isEvent).length < TRACE_SIZE) :
    RightCounters fs cpus ↔
      NamesKept (events fs 0) ∧ ∀ c < cpus, events fs c = events fs 0 := by
  constructor
  · intro h
    have hrow := withinRow_of_rightCounters hcpus hn h
    obtain ⟨s, hs, hnames, hiff⟩ := tableRight_iff_readBack hcpus hn fun _ _ => []
    obtain ⟨s', hs', hentries, htable⟩ := h fun _ _ => []
    rw [hs, Option.some.injEq] at hs'
    subst hs'
    have hevents := (hiff hentries).mp htable
    -- CPU 0 says that what is read is what was written
    have hsame : s.traceName = events fs 0 := (hevents 0 hcpus).symm
    rw [hsame] at hevents hnames
    exact ⟨⟨hrow, (rowReadBack_eq_self_iff hrow).mp hnames.symm⟩, hevents⟩
  · rintro ⟨⟨hrow, hchain⟩, hevents⟩ heap
    obtain ⟨s, hs, hnames, hiff⟩ := tableRight_iff_readBack hcpus hn heap
    rw [(rowReadBack_eq_self_iff hrow).mpr hchain] at hnames
    have hentries : ∀ n ∈ s.traceName, n ∈ fs.entries := by
      rw [hnames]
      exact fun n hin => mem_entries_of_mem_events hin
    refine ⟨s, hs, hentries, (hiff hentries).mpr ?_⟩
    rw [hnames]
    exact hevents

/-- Without a CPU there are no names and nothing to label. -/
theorem rightCounters_zero (fs : Tracefs) : RightCounters fs 0 := by
  intro heap
  refine ⟨ToolState.init.readBack heap, rfl, fun n hin => ?_, fun counts count => ?_⟩
  · exact absurd hin List.not_mem_nil
  obtain ⟨values, hrun, -⟩ := sampleRun_ok 0 (show 0 < TRACE_SIZE by decide)
    (counts.map (readGroup Opener.init)) (readGroup Opener.init count)
  refine ⟨values, by rw [List.map_append]; exact hrun, ?_⟩
  intro i hi
  omega

/-- **The table is labelled right exactly when there is no CPU, or the names of the events
come through their blocks and there is one CPU or the first entry of the directory is no
event.** -/
theorem rightCounters_iff {fs : Tracefs} (cpus : ℕ)
    (hn : (fs.entries.filter isEvent).length < TRACE_SIZE) :
    RightCounters fs cpus ↔ cpus = 0 ∨ NamesKept (fs.entries.filter isEvent) ∧
      (cpus ≤ 1 ∨ ∀ e ∈ fs.entries.head?, isEvent e = false) := by
  rcases Nat.eq_zero_or_pos cpus with rfl | hcpus
  · exact iff_of_true (rightCounters_zero fs) (Or.inl rfl)
  · rw [rightCounters_iff_events hcpus hn, or_iff_right (Nat.pos_iff_ne_zero.mp hcpus)]
    refine and_congr_right fun _ => ?_
    constructor
    · intro h
      rcases Nat.lt_or_ge 1 cpus with hlt | hle
      · exact Or.inr ((events_succ_eq_iff fs 0).mp (h 1 hlt))
      · exact Or.inl hle
    · intro h c hc
      cases c with
      | zero => rfl
      | succ c =>
        refine (events_succ_eq_iff fs c).mpr (h.resolve_left ?_)
        omega

/-- A directory that lists itself first, as usual. -/
def dotFirst : Tracefs where
  entries := [".".toList, "..".toList, "kvm_exit".toList, "enable".toList, "kvm_entry".toList]
  nodup := by decide
  id := List.length
  id_inj := by decide
  id_lt := by decide

theorem rightCounters_dotFirst : RightCounters dotFirst 3 :=
  (rightCounters_iff 3 (by decide)).mpr (Or.inr ⟨by decide, Or.inr (by decide)⟩)

/-- A directory that lists an event first. -/
def eventFirst : Tracefs where
  entries := ["kvm_exit".toList, ".".toList, "..".toList, "kvm_entry".toList]
  nodup := by decide
  id := List.length
  id_inj := by decide
  id_lt := by decide

/-- On CPU 1 the column of `kvm_exit` shows the counter of `kvm_entry`. -/
theorem not_rightCounters_eventFirst : ¬ RightCounters eventFirst 2 := by
  rw [rightCounters_iff_events (by decide) (by decide)]
  rintro ⟨-, h⟩
  exact absurd (h 1 (by decide)) (by decide)

end LinuxNote.KvmTrace.Tool
