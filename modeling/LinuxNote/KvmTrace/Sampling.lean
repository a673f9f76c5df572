import LinuxNote.GroupRead
import LinuxNote.PerfEvent
import Mathlib.Data.List.GetD

/-!
# kvm_trace: walking the directory and sampling the groups

What the `kvm_trace` tool and the sample it grew from have in common.  Both walk
the whole tracefs directory once per CPU, starting over at an offset saved right
after the very first `readdir`, and both read all groups into a table in every
sampling round and print it with one row per name.

* `visible`, `walked` — the entries a CPU's walk sees, and the state it leaves.
* `sampleCpu`, `sampleRound`, `sampleRun` — the sampling loop of `main`.
* `sampleRun_ok` — **what the table holds after a run**.
* `tableRight_iff` — **the rows are labelled right exactly when** the events each
  CPU opened are the labels, in the same order.
-/

namespace LinuxNote.KvmTrace

open CText PerfGroup

/-- The size of the tables. -/
def TRACE_SIZE : ℕ := 100

/-- The size of the buffers for text. -/
def LENGTH : ℕ := 1024

/-! ### Walking the directory -/

/-- The entries the walk for a CPU sees.  The first one is missing from all walks but
that of CPU 0, as the offset that is saved is behind it. -/
def visible (fs : Tracefs) (cpu : ℕ) : List Name :=
  if cpu = 0 then fs.entries else fs.entries.tail

/-- The stream is rewound before the walk for a CPU: it stands at the saved offset, which
is 0 only as long as nothing has been read. -/
def Rewound (fs : Tracefs) (cpu : ℕ) (s : Opener) : Prop :=
  s.pos = s.offset ∧ s.offset = if cpu = 0 then 0 else min 1 fs.entries.length

/-- The state after the walk for a CPU that tries the openings `as`: they are all tried
for this CPU, and the stream is back at the offset. -/
def walked (fs : Tracefs) (cpu : ℕ) (as : List (ℤ × Bool)) (s : Opener) : Opener :=
  let s := addEvents cpu as { beginCpu cpu s with offset := min 1 fs.entries.length }
  { s with pos := s.offset }

theorem drop_pos {fs : Tracefs} {cpu : ℕ} {s : Opener} (hs : Rewound fs cpu s) :
    fs.entries.drop s.pos = visible fs cpu := by
  obtain ⟨hpos, hoff⟩ := hs
  rw [hpos, hoff, visible]
  split
  · rfl
  · cases fs.entries with
    | nil => rfl
    | cons de rest => simp

/-- The offset is saved before a walk, or the walk's first entry saves it. -/
theorem rewound_cases {fs : Tracefs} {cpu : ℕ} {s : Opener} (hs : Rewound fs cpu s) :
    s.offset = min 1 fs.entries.length ∨
      s.offset = 0 ∧ visible fs cpu ≠ [] ∧ min 1 fs.entries.length = s.pos + 1 := by
  have hdrop := drop_pos hs
  obtain ⟨hpos, hoff⟩ := hs
  split at hoff
  · by_cases hempty : fs.entries = []
    · left
      rw [hoff, hempty]
      rfl
    · right
      have hlen := List.length_pos_iff.mpr hempty
      refine ⟨hoff, ?_, by rw [hpos, hoff]; omega⟩
      rw [← hdrop, hpos, hoff]
      exact hempty
  · exact Or.inl hoff

theorem visible_eq_nil {fs : Tracefs} {cpu : ℕ} (h : fs.entries = []) : visible fs cpu = [] := by
  simp [visible, h]

theorem rewound_init (fs : Tracefs) : Rewound fs 0 Opener.init := ⟨rfl, rfl⟩

theorem rewound_walked (fs : Tracefs) (cpu : ℕ) (as : List (ℤ × Bool)) (s : Opener) :
    Rewound fs (cpu + 1) (walked fs cpu as s) := by
  refine ⟨rfl, ?_⟩
  rw [if_neg (Nat.succ_ne_zero cpu)]
  exact offset_addEvents cpu as _

theorem opensFor_walked (fs : Tracefs) (cpu : ℕ) (as : List (ℤ × Bool)) (s : Opener) :
    OpensFor cpu as s (walked fs cpu as s) where
  builder := by
    have hstart : Opener.builder { beginCpu cpu s with offset := min 1 fs.entries.length } cpu =
        ⟨s.perf, -1, false⟩ := builder_beginCpu cpu s
    have hadd := builder_addEvents cpu as { beginCpu cpu s with offset := min 1 fs.entries.length }
    rw [hstart] at hadd
    exact hadd
  other := by
    intro c hc
    exact (groupFd_addEvents_of_ne hc as _).trans (groupFd_beginCpu_of_ne hc s)

/-! ### Sampling -/

/-- `trace_values`: a row of counters for each CPU. -/
abbrev TraceValues (cpus traceCount : ℕ) := Vector (Vector ℤ traceCount) cpus

/-- `trace_values` as it is allocated. -/
def TraceValues.cleared (cpus traceCount : ℕ) : TraceValues cpus traceCount :=
  Vector.replicate cpus (Vector.replicate traceCount 0)

/-- `tmp_values`, cleared. -/
def clearedValues : List ℤ := List.replicate TRACE_SIZE 0

section Sampling

variable {cpus traceCount : ℕ}

/-- The body of the loop over the CPUs, on `trace_values` and `tmp_values`; `read i`
is what `read(group_fd[i], …)` delivers. -/
def sampleCpu (read : ℕ → Option (List ℤ)) (st : TraceValues cpus traceCount × List ℤ) (i : ℕ) :
    Option (TraceValues cpus traceCount × List ℤ) :=
  if h : i < cpus then
    match copyCounters (readInto st.2 (read i)) traceCount (st.1.get ⟨i, h⟩) with
    | none => none
    | some row => some (st.1.set i row h, clearedValues)
  else none

/-- One sampling round; `none` when it indexes outside a table. -/
def sampleRound (st : TraceValues cpus traceCount × List ℤ) (read : ℕ → Option (List ℤ)) :
    Option (TraceValues cpus traceCount × List ℤ) :=
  Loop.forRange (sampleCpu read) cpus st

/-- The loop `while (sec < duration)`, one `read` for each round. -/
def sampleRounds : List (ℕ → Option (List ℤ)) → TraceValues cpus traceCount × List ℤ →
    Option (TraceValues cpus traceCount × List ℤ)
  | [], st => some st
  | read :: reads, st => (sampleRound st read).bind (sampleRounds reads)

/-- `trace_values[i][j]`. -/
def cell (values : TraceValues cpus traceCount) (i j : ℕ) : Option ℤ := values[i]?.bind (·[j]?)

/-- The rows a round prints: each name with the counters of its row. -/
def printed (names : List Name) (values : TraceValues cpus traceCount) : List (Name × List ℤ) :=
  (List.range traceCount).map fun j =>
    (names.getD j [], (List.range cpus).map fun i => (cell values i j).getD 0)

theorem exists_cell (values : TraceValues cpus traceCount) {i j : ℕ} (hi : i < cpus)
    (hj : j < traceCount) : ∃ x, cell values i j = some x := by
  refine ⟨values[i][j], ?_⟩
  rw [cell, Vector.getElem?_eq_getElem hi, Option.bind_some, Vector.getElem?_eq_getElem hj]

/-- What is printed is what is in the table. -/
theorem printed_eq_iff {names : List Name} {values : TraceValues cpus traceCount} {f : ℕ → ℕ → ℤ} :
    (∀ j < traceCount, (printed names values)[j]? =
      some (names.getD j [], (List.range cpus).map fun i => f i j)) ↔
      ∀ i < cpus, ∀ j < traceCount, cell values i j = some (f i j) := by
  have hrow : ∀ j < traceCount, (printed names values)[j]? =
      some (names.getD j [], (List.range cpus).map fun i => (cell values i j).getD 0) := by
    intro j hj
    rw [printed, List.getElem?_map, List.getElem?_range hj]
    rfl
  constructor
  · intro h i hi j hj
    have heq := (hrow j hj).symm.trans (h j hj)
    have hmap := (Prod.mk.inj (Option.some.inj heq)).2
    have hcell := List.map_inj_left.mp hmap i (List.mem_range.mpr hi)
    obtain ⟨x, hx⟩ := exists_cell values hi hj
    rw [hx] at hcell ⊢
    exact congrArg some hcell
  · intro h j hj
    rw [hrow j hj]
    have hmap : (List.range cpus).map (fun i => (cell values i j).getD 0) =
        (List.range cpus).map fun i => f i j :=
      List.map_congr_left fun i hi => by rw [h i (List.mem_range.mp hi) j hj, Option.getD_some]
    rw [hmap]

/-- A row of the table shows the counters a read delivered, and `0` for those it did not,
as the buffer is cleared for each CPU. -/
def ShowsRow (read : ℕ → Option (List ℤ)) (values : TraceValues cpus traceCount) (i : ℕ) : Prop :=
  ∀ j < traceCount, cell values i j = some ((counterWord TRACE_SIZE (read i) j).getD 0)

/-- **One round**: it stays inside the tables when a slot is left over for the
count, and leaves in each row what was read for its CPU. -/
theorem sampleRound_ok (hn : traceCount < TRACE_SIZE) (read : ℕ → Option (List ℤ))
    {st : TraceValues cpus traceCount × List ℤ} (hst : st.2 = clearedValues) :
    ∃ st', sampleRound st read = some st' ∧ st'.2 = clearedValues ∧
      ∀ i < cpus, ShowsRow read st'.1 i := by
  obtain ⟨st', hrun, htmp, hrows⟩ := Loop.forRange_ok (f := sampleCpu read) (n := cpus) (s := st)
    (fun n st => st.2 = clearedValues ∧ ∀ i < n, ShowsRow read st.1 i)
    ⟨hst, by intro i hi; omega⟩ (by
      intro i hi t ht
      obtain ⟨htmp, hrows⟩ := ht
      obtain ⟨row, hrow, hval⟩ := copyCounters_readInto (read i) (t.1.get ⟨i, hi⟩)
        (Or.inr hn) (Nat.le_refl traceCount)
      refine ⟨(t.1.set i row hi, clearedValues), ?_, rfl, ?_⟩
      · rw [sampleCpu, dif_pos hi, htmp, clearedValues, hrow]
      · intro i' hi' j hj
        rw [cell, Vector.getElem?_set]
        by_cases heq : i = i'
        · subst heq
          rw [if_pos rfl]
          exact hval j hj
        · rw [if_neg heq]
          exact hrows i' (by omega) j hj)
  exact ⟨st', hrun, htmp, hrows⟩

/-- A round with a CPU leaves the tables when no slot is left over for the count. -/
theorem lt_of_sampleRound (hcpus : 0 < cpus) {read : ℕ → Option (List ℤ)}
    {st st' : TraceValues cpus traceCount × List ℤ} (hst : st.2 = clearedValues)
    (h : sampleRound st read = some st') : traceCount < TRACE_SIZE := by
  by_contra hge
  obtain ⟨u, v, hu, hv⟩ := Loop.forRange_prefix h 0 hcpus
  rw [Loop.forRange_zero, Option.some.injEq] at hu
  have hlen : (readInto u.2 (read 0)).length ≤ traceCount := by
    rw [length_readInto, ← hu, hst, clearedValues, List.length_replicate]
    omega
  have hpos : 0 < traceCount := Nat.lt_of_lt_of_le (by decide) (Nat.not_lt.mp hge)
  rw [sampleCpu, dif_pos hcpus, copyCounters_eq_none _ hpos (Or.inl hlen)] at hv
  simp at hv

/-- A run of rounds stays inside the tables and leaves in the table what its last
round read. -/
theorem sampleRounds_ok (hn : traceCount < TRACE_SIZE) (reads : List (ℕ → Option (List ℤ)))
    (st : TraceValues cpus traceCount × List ℤ) (hst : st.2 = clearedValues) :
    ∃ st', sampleRounds reads st = some st' ∧
      ∀ init read, reads = init ++ [read] → ∀ i < cpus, ShowsRow read st'.1 i := by
  induction reads generalizing st with
  | nil => exact ⟨st, rfl, fun init read h => by simp at h⟩
  | cons r reads ih =>
    obtain ⟨st₁, hround, htmp, hrows⟩ := sampleRound_ok hn r hst
    obtain ⟨st', hrest, hlast⟩ := ih st₁ htmp
    refine ⟨st', by rw [sampleRounds, hround, Option.bind_some, hrest], ?_⟩
    intro init read heq
    cases init with
    | nil =>
      obtain ⟨rfl, rfl⟩ := List.cons.inj heq
      rw [sampleRounds, Option.some.injEq] at hrest
      rw [← hrest]
      exact hrows
    | cons r' init => exact hlast init read (List.cons.inj heq).2

end Sampling

/-- The rounds of `main`, from the tables as they are allocated. -/
def sampleRun (cpus traceCount : ℕ) (reads : List (ℕ → Option (List ℤ))) :
    Option (TraceValues cpus traceCount) :=
  (sampleRounds reads (TraceValues.cleared cpus traceCount, clearedValues)).map Prod.fst

/-- **What the table holds after a run of rounds**: what was read in the last of them,
whatever the rounds before have left. -/
theorem sampleRun_ok (cpus : ℕ) {traceCount : ℕ} (hn : traceCount < TRACE_SIZE)
    (reads : List (ℕ → Option (List ℤ))) (read : ℕ → Option (List ℤ)) :
    ∃ values, sampleRun cpus traceCount (reads ++ [read]) = some values ∧
      ∀ i < cpus, ShowsRow read values i := by
  obtain ⟨st, hrun, hlast⟩ := sampleRounds_ok hn (reads ++ [read])
    (TraceValues.cleared cpus traceCount, clearedValues) rfl
  exact ⟨st.1, by rw [sampleRun, hrun]; rfl, hlast reads read rfl⟩

/-! ### Labels and counters -/

/-- `read(group_fd[i], tmp_values, sizeof(tmp_values))` after `perf_event`. -/
def readGroup (s : Opener) (count : ℤ → ℕ → ℤ) (i : ℕ) : Option (List ℤ) :=
  s.perf.read count TRACE_SIZE (s.groupFd i)

/-- The openings of the events `evs`, all of which the kernel grants. -/
def granted (fs : Tracefs) (evs : List Name) : List (ℤ × Bool) :=
  evs.map fun de => (readConfig LENGTH fs de, true)

/-- **The table is labelled right**: in every sampling round, row `j` holds for each
CPU the counter of the event with the name `labels[j]`. -/
def TableRight (fs : Tracefs) (s : Opener) (cpus : ℕ) (labels : List Name) : Prop :=
  ∀ (counts : List (ℤ → ℕ → ℤ)) (count : ℤ → ℕ → ℤ),
    ∃ values, sampleRun cpus labels.length ((counts ++ [count]).map (readGroup s)) = some values ∧
      ∀ i < cpus, ∀ j < labels.length,
        cell values i j = some (count (fs.id (labels.getD j [])) i)

/-- The counters of the events `evs` in their order are those of the labels only if
the events are the labels. -/
theorem slots_eq_iff {fs : Tracefs} (cpu : ℕ) {evs labels : List Name}
    (hevs : ∀ n ∈ evs, n ∈ fs.entries) (hlabels : ∀ n ∈ labels, n ∈ fs.entries)
    (hlen : evs.length ≤ labels.length) :
    (∀ count : ℤ → ℕ → ℤ, ∀ j < labels.length,
      (evs[j]?.map fun de => count (fs.id de) cpu).getD 0 = count (fs.id (labels.getD j [])) cpu) ↔
      evs = labels := by
  constructor
  · intro h
    apply List.ext_getElem?
    intro j
    rcases Nat.lt_or_ge j labels.length with hj | hj
    · -- a count that tells the label's event from all others
      have hslot := h (fun e _ => if e = (fs.id labels[j] : ℤ) then 1 else 2) j hj
      rw [List.getD_eq_getElem _ _ hj, if_pos rfl] at hslot
      cases hev : evs[j]? with
      | none => rw [hev] at hslot; simp at hslot
      | some de =>
        rw [hev, Option.map_some, Option.getD_some] at hslot
        have hid : (fs.id de : ℤ) = fs.id labels[j] := by
          by_contra hne
          rw [if_neg hne] at hslot
          omega
        rw [List.getElem?_eq_getElem hj, fs.id_inj de (hevs de (List.mem_of_getElem? hev)) labels[j]
          (hlabels _ (List.getElem_mem hj)) (by exact_mod_cast hid)]
    · rw [List.getElem?_eq_none hj, List.getElem?_eq_none (by omega)]
  · rintro rfl count j hj
    rw [List.getD_eq_getElem _ _ hj, List.getElem?_eq_getElem hj]
    rfl

/-- **The table is labelled right exactly when every CPU opened the labels, in their
order**: the counters of a group come in the order in which they joined, and no two
events have the same number, so one that is out of place shows. -/
theorem tableRight_iff {fs : Tracefs} {s : Opener} {cpus : ℕ} {evs : ℕ → List Name}
    {labels : List Name} (hbuilt : GroupsBuilt (fun c => granted fs (evs c)) cpus s)
    (hevs : ∀ c, ∀ n ∈ evs c, n ∈ fs.entries) (hlabels : ∀ n ∈ labels, n ∈ fs.entries)
    (hlen : ∀ c, (evs c).length ≤ labels.length) (hn : labels.length < TRACE_SIZE) :
    TableRight fs s cpus labels ↔ ∀ c < cpus, evs c = labels := by
  -- the word read for a slot is the counter of the event opened there
  have hword : ∀ count, ∀ c < cpus, ∀ j, counterWord TRACE_SIZE (readGroup s count c) j =
      (evs c)[j]?.map fun de => count (fs.id de) c := by
    intro count c hc j
    rw [readGroup, hbuilt.read hc, granted]
    cases hev : evs c with
    | nil => rfl
    | cons de rest =>
      have hmem := hevs c
      have hshort := hlen c
      rw [hev] at hmem hshort
      have hgroup : groupOf ((de :: rest).map fun de => (readConfig LENGTH fs de, true)) =
          some ((de :: rest).map fun de => (fs.id de : ℤ)) := by
        have hconfig : (de :: rest).map (fun de => readConfig LENGTH fs de) =
            (de :: rest).map fun de => (fs.id de : ℤ) :=
          List.map_congr_left fun n hin => readConfig_eq (by decide) (hmem n hin)
        rw [← hconfig, List.map_cons, groupOf_cons_true, List.filter_eq_self.mpr (by simp)]
        simp
      rw [hgroup, Option.bind_some, counterWord_groupWords (by rw [List.length_map]; omega),
        List.getElem?_map, Option.map_map]
      rfl
  constructor
  · intro hright c hc
    refine (slots_eq_iff c (hevs c) hlabels (hlen c)).mp fun count j hj => ?_
    obtain ⟨values, hrun, hcells⟩ := hright [] count
    obtain ⟨values', hrun', hrows⟩ := sampleRun_ok cpus hn [] (readGroup s count)
    have hsame : values = values' := by
      have heq := hrun.symm.trans hrun'
      exact Option.some.inj heq
    have hcell := hcells c hc j hj
    rw [hsame, hrows c hc j hj, hword count c hc j, Option.some.injEq] at hcell
    exact hcell
  · intro heq counts count
    obtain ⟨values, hrun, hrows⟩ := sampleRun_ok cpus hn (counts.map (readGroup s)) (readGroup s count)
    refine ⟨values, by rw [List.map_append]; exact hrun, fun c hc j hj => ?_⟩
    rw [hrows c hc j hj, hword count c hc j, Option.some.injEq]
    exact (slots_eq_iff c (hevs c) hlabels (hlen c)).mpr (heq c hc) count j hj

end LinuxNote.KvmTrace
