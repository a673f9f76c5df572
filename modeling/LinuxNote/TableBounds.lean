import LinuxNote.Kvmstat.Config
import LinuxNote.Kvmstat.Refresh
import LinuxNote.KvmTrace.Tool

/-!
# The tables of the two collectors

Both collectors fill a table of names in one function and copy counters through a
buffer of the same size in another.  The buffer also holds the count word, so it
is one slot short when the table of names is full, and nothing stops the loader at
the end of the table.

* `Kvmstat.InRange`, `KvmTrace.Tool.InRange` — no index leaves its table, and the
  buffer takes every group.
* `tablesInRange_iff` — **when that is so**, for both collectors.
-/

namespace LinuxNote

open CText PerfGroup

/-! ### kvmstat -/

namespace Kvmstat

/-- The number of events a configuration file names, as the loader counts them: by what
`fgets` reads, so a line that is longer than the buffer can count more than once. -/
def eventLines (text : List Char) : ℕ := ((fgetsAll BUFSIZ text).filterMap nameOf).length

/-- The loader and every run of refreshes stay inside the tables, and the buffer of a
refresh takes the count word and a word for each member of every group.  A table is
left behind only by a loader that stayed inside it, and a run has no state any more
once an index is out of range, so both are said by asking for a result; `heap` is what
the names read as that are too long for their blocks, which changes none of it. -/
def InRange (heap : List Name → ℕ → Name) (text : List Char) (fs : Tracefs) (opens : ℕ → ℕ → Bool)
    (cpus : ℕ) : Prop :=
  ∃ conf, extractTraceMetrices heap text = some conf ∧
    (∀ reads, ∃ cache, refreshRun cpus conf.nametab.length reads NameCache.empty = some cache) ∧
    ∀ c < cpus, ∀ es, (perfEvent fs conf.nametab opens cpus).perf.group
      ((perfEvent fs conf.nametab opens cpus).groupFd c) = some es → es.length + 1 ≤ MAX_TRACE_NUM

section Loader

variable (heap : List Name → ℕ → Name)

/-- The loader goes through exactly when the table takes all events. -/
theorem extractTraceMetrices_eq_some_iff (text : List Char) :
    (∃ conf, extractTraceMetrices heap text = some conf) ↔ eventLines text ≤ MAX_TRACE_NUM := by
  have hloop := foldlM_extractLine (fgetsAll BUFSIZ text) TraceConf.init
  have hzero : TraceConf.init.nametab.length + ((fgetsAll BUFSIZ text).filterMap nameOf).length =
      eventLines text := Nat.zero_add _
  rw [hzero] at hloop
  constructor
  · rintro ⟨conf, hconf⟩
    by_contra hgt
    rw [extractTraceMetrices, Option.map_eq_some_iff] at hconf
    obtain ⟨stored, hstored, -⟩ := hconf
    rw [hstored, if_neg hgt] at hloop
    simp at hloop
  · intro hle
    rw [if_pos hle, Option.map_eq_some_iff] at hloop
    obtain ⟨stored, hstored, -⟩ := hloop
    exact ⟨stored.readBack heap, by rw [extractTraceMetrices, hstored]; rfl⟩

/-- The table then has as many names as there are events. -/
theorem length_nametab {text : List Char} {conf : TraceConf}
    (h : extractTraceMetrices heap text = some conf) : conf.nametab.length = eventLines text := by
  have hle := (extractTraceMetrices_eq_some_iff heap text).mp ⟨conf, h⟩
  have hloop := foldlM_extractLine (fgetsAll BUFSIZ text) TraceConf.init
  rw [extractTraceMetrices, Option.map_eq_some_iff] at h
  obtain ⟨stored, hstored, rfl⟩ := h
  rw [hstored, if_pos (by exact (Nat.zero_add _).trans_le hle), Option.map_some,
    Option.some.injEq] at hloop
  rw [TraceConf.readBack, HeapBlock.length_readBack]
  exact congrArg List.length (Prod.mk.inj hloop).1

end Loader

theorem length_openings_le (fs : Tracefs) (names : List Name) (opens : ℕ → ℕ → Bool) (cpu : ℕ) :
    (openings fs names opens cpu).length ≤ names.length := by
  have hfound : (foundNames fs names cpu).length ≤ (List.range names.length).length :=
    List.filter_sublist.length_le
  rw [openings, List.length_map]
  rwa [List.length_range] at hfound

/-- A refresh with a CPU needs a slot for the count. -/
theorem eventLines_lt_of_inRange {heap : List Name → ℕ → Name} {text : List Char} {fs : Tracefs}
    {opens : ℕ → ℕ → Bool} {cpus : ℕ} (hcpus : 0 < cpus) (h : InRange heap text fs opens cpus) :
    eventLines text < MAX_TRACE_NUM := by
  obtain ⟨conf, hconf, hruns, -⟩ := h
  obtain ⟨cache, hrun⟩ := hruns [fun _ => none]
  have hlt := @lt_of_refreshRun _ _ hcpus [] _ _ _ hrun
  rwa [length_nametab heap hconf] at hlt

theorem inRange_kvmstat_iff (heap : List Name → ℕ → Name) (text : List Char) (fs : Tracefs)
    (opens : ℕ → ℕ → Bool) (cpus : ℕ) :
    InRange heap text fs opens cpus ↔
      eventLines text < MAX_TRACE_NUM ∨ cpus = 0 ∧ eventLines text ≤ MAX_TRACE_NUM := by
  constructor
  · intro h
    rcases Nat.eq_zero_or_pos cpus with hzero | hcpus
    · obtain ⟨conf, hconf, -⟩ := h
      exact Or.inr ⟨hzero, (extractTraceMetrices_eq_some_iff heap text).mp ⟨conf, hconf⟩⟩
    · exact Or.inl (eventLines_lt_of_inRange hcpus h)
  · intro h
    have hle : eventLines text ≤ MAX_TRACE_NUM := by
      rcases h with h | ⟨-, h⟩
      · exact Nat.le_of_lt h
      · exact h
    obtain ⟨conf, hconf⟩ := (extractTraceMetrices_eq_some_iff heap text).mpr hle
    refine ⟨conf, hconf, ?_, ?_⟩
    · intro reads
      rcases h with hlt | ⟨rfl, -⟩
      · exact refreshRun_ok cpus (by rwa [length_nametab heap hconf]) reads NameCache.empty
      · exact ⟨_, refreshRun_zero conf.nametab.length reads NameCache.empty⟩
    · intro c hc es hes
      have hbuilt := groupsBuilt_perfEvent fs conf.nametab opens cpus
      have hmembers := hbuilt.length_le hc hes
      have hopened := length_openings_le fs conf.nametab opens c
      rw [length_nametab heap hconf] at hopened
      rcases h with hlt | ⟨rfl, -⟩ <;> omega

end Kvmstat

/-! ### The kvm_trace tool -/

namespace KvmTrace.Tool

/-- `perf_event` and every run of sampling rounds stay inside the tables, and the
buffer takes the count word and a word for each member of every group.  As above, what
leaves a table leaves no state behind, and `heap` only changes what the names read as. -/
def InRange (heap : List Name → ℕ → Name) (fs : Tracefs) (opens : ℕ → Name → Bool) (cpus : ℕ) :
    Prop :=
  ∃ s, perfEvent fs opens heap cpus = some s ∧
    (∀ reads, ∃ values, sampleRun cpus s.traceName.length reads = some values) ∧
    ∀ c < cpus, ∀ es, s.opener.perf.group (s.opener.groupFd c) = some es →
      es.length + 1 ≤ TRACE_SIZE

/-- Sampling needs a slot for the count. -/
theorem length_lt_of_sampleRun {cpus n : ℕ} (hcpus : 0 < cpus)
    (h : ∀ reads, ∃ values, sampleRun cpus n reads = some values) : n < TRACE_SIZE := by
  obtain ⟨values, hrun⟩ := h [fun _ => none]
  rw [sampleRun, Option.map_eq_some_iff] at hrun
  obtain ⟨st, hrun, -⟩ := hrun
  rw [sampleRounds, Option.bind_eq_some_iff] at hrun
  obtain ⟨st', hround, -⟩ := hrun
  exact lt_of_sampleRound hcpus rfl hround

theorem exists_sampleRun (cpus : ℕ) {n : ℕ} (hn : n < TRACE_SIZE)
    (reads : List (ℕ → Option (List ℤ))) : ∃ values, sampleRun cpus n reads = some values := by
  obtain ⟨st, hrun, -⟩ := sampleRounds_ok hn reads
    (TraceValues.cleared cpus n, clearedValues) rfl
  exact ⟨st.1, by rw [sampleRun, hrun]; rfl⟩

theorem inRange_tool_iff (heap : List Name → ℕ → Name) (fs : Tracefs) (opens : ℕ → Name → Bool)
    (cpus : ℕ) : InRange heap fs opens cpus ↔
      cpus = 0 ∨ (fs.entries.filter isEvent).length < TRACE_SIZE := by
  have hevents : events fs 0 = fs.entries.filter isEvent := rfl
  rcases Nat.eq_zero_or_pos cpus with rfl | hcpus
  · refine iff_of_true ⟨ToolState.init.readBack heap, rfl, ?_, ?_⟩ (Or.inl rfl)
    · exact exists_sampleRun 0 (show 0 < TRACE_SIZE by decide)
    · intro c hc
      omega
  · constructor
    · rintro ⟨s, hs, hruns, -⟩
      right
      -- one name too many is written behind the table already
      have hfit : (events fs 0).length ≤ TRACE_SIZE := by
        by_contra hfull
        rw [perfEvent_eq_none fs opens heap hcpus (by omega)] at hs
        simp at hs
      obtain ⟨s', hs', -, hnames⟩ := perfEvent_ok fs opens heap cpus hfit
      rw [hs, Option.some.injEq] at hs'
      subst hs'
      have hlen : s.traceName.length = (events fs 0).length := by
        rw [hnames, HeapBlock.length_rowReadBack, if_neg (by omega)]
      rw [← hevents, ← hlen]
      exact length_lt_of_sampleRun hcpus hruns
    · intro h
      have hlt : (events fs 0).length < TRACE_SIZE := h.resolve_left (by omega)
      obtain ⟨s, hs, hbuilt, hnames⟩ := perfEvent_ok fs opens heap cpus (Nat.le_of_lt hlt)
      have hlen : s.traceName.length = (events fs 0).length := by
        rw [hnames, HeapBlock.length_rowReadBack, if_neg (by omega)]
      refine ⟨s, hs, exists_sampleRun cpus (by rwa [hlen]), ?_⟩
      -- a group has no more members than the table has names
      intro c hc es hes
      have hmembers := hbuilt.length_le hc hes
      have hopenings : (openings fs opens c).length ≤ (events fs 0).length := by
        rw [openings, List.length_map]
        exact length_events_le fs c
      omega

end KvmTrace.Tool

/-- **When the indices of the two collectors stay in range and their buffers take
every group**: for kvmstat, when the configuration names fewer than
`MAX_TRACE_NUM` events (or as many, without a CPU); for the tool, when the directory
has fewer than `TRACE_SIZE` events, or there is no CPU. -/
theorem tablesInRange_iff (heap : List Name → ℕ → Name) (text : List Char) (fs fs' : Tracefs)
    (opens : ℕ → ℕ → Bool) (opens' : ℕ → Name → Bool) (cpus cpus' : ℕ) :
    (Kvmstat.InRange heap text fs opens cpus ↔
      Kvmstat.eventLines text < Kvmstat.MAX_TRACE_NUM ∨
        cpus = 0 ∧ Kvmstat.eventLines text ≤ Kvmstat.MAX_TRACE_NUM) ∧
    (KvmTrace.Tool.InRange heap fs' opens' cpus' ↔
      cpus' = 0 ∨ (fs'.entries.filter isEvent).length < KvmTrace.TRACE_SIZE) :=
  ⟨Kvmstat.inRange_kvmstat_iff heap text fs opens cpus,
    KvmTrace.Tool.inRange_tool_iff heap fs' opens' cpus'⟩

/-- A configuration file with `n` lines `e`. -/
def eventFile (n : ℕ) : List Char := (List.replicate n "e\n".toList).flatten

theorem eventLines_eventFile : Kvmstat.eventLines (eventFile 200) = 200 := by decide +kernel

/-- With two hundred names, a refresh reads behind the end of its buffer.  The names are
short, so the blocks take them and the heap plays no part. -/
theorem not_inRange_two_hundred :
    ¬ Kvmstat.InRange (fun _ _ => []) (eventFile 200) KvmTrace.Tool.dotFirst (fun _ _ => true) 1 := by
  intro h
  have hlt := Kvmstat.eventLines_lt_of_inRange (by decide) h
  rw [eventLines_eventFile] at hlt
  exact absurd hlt (by decide)

end LinuxNote
