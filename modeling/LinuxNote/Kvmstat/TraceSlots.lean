import LinuxNote.Kvmstat.Pmda
import Mathlib.Data.List.GetD

/-!
# kvmstat: whose counter a trace metric reports

The trace metrics are labelled by position: item `j` is registered under the name
`trace_nametab[j]`, and its value is the `j`-th counter of the CPU's group.  The
group however holds only the events that were found and opened, so a name that
was not shifts the counters of all names after it.

* `Collector`, `Tick` — a configured PMDA on a machine, and what one refresh
  meets.
* `openedNames` — the names whose events are the members of a CPU's group.
* `callback_of_run` — what the callback delivers after a run of refreshes.
* `ownCounters_iff` — **every metric reports its own counter or `0` exactly when**
  the opened names are the first ones of the table, without a gap.
-/

namespace LinuxNote.Kvmstat

open CText PerfGroup

/-- A configured PMDA on a machine: the tracefs directory, the name table, the
CPUs, and which openings the kernel grants. -/
structure Collector where
  fs : Tracefs
  names : List Name
  cpus : ℕ
  opens : ℕ → ℕ → Bool

/-- What one refresh meets: the counter of each event on each CPU, and the CPUs
whose group the kernel lets it read. -/
structure Tick where
  count : ℤ → ℕ → ℤ
  readable : ℕ → Bool

namespace Collector

variable (c : Collector)

/-- `read(group_fd[i], tmp_values, sizeof(tmp_values))` after `perf_event`. -/
def read (t : Tick) (i : ℕ) : Option (List ℤ) :=
  let s := perfEvent c.fs c.names c.opens c.cpus
  if t.readable i then s.perf.read t.count MAX_TRACE_NUM (s.groupFd i) else none

/-- The cache after a run of refreshes. -/
def run (ticks : List Tick) : Option (NameCache TraceValue) :=
  refreshRun c.cpus c.names.length (ticks.map c.read) NameCache.empty

/-- The names whose events are the members of a CPU's group, as indices into the name
table.  There is no group when the first name found cannot be opened: the later ones are
then opened in groups of their own, which nobody reads. -/
def openedNames (cpu : ℕ) : Option (List ℕ) :=
  match foundNames c.fs c.names cpu with
  | [] => none
  | i :: is => if c.opens cpu i then some (i :: is.filter (c.opens cpu)) else none

/-! ### The group of a CPU -/

/-- The members of a group are found names, in the order of the table. -/
theorem openedNames_sublist {cpu : ℕ} {js : List ℕ} (h : c.openedNames cpu = some js) :
    js.Sublist (foundNames c.fs c.names cpu) := by
  rw [openedNames] at h
  split at h
  · simp at h
  · next i is hfound =>
    split at h
    · rw [Option.some.injEq] at h
      rw [hfound, ← h]
      exact List.Sublist.cons_cons i List.filter_sublist
    · simp at h

theorem lt_of_mem_openedNames {cpu : ℕ} {js : List ℕ} (h : c.openedNames cpu = some js) {j : ℕ}
    (hj : j ∈ js) : j < c.names.length := by
  have hmem := (c.openedNames_sublist h).subset hj
  exact List.mem_range.mp (List.mem_filter.mp hmem).1

theorem mem_entries_of_mem_openedNames {cpu : ℕ} {js : List ℕ} (h : c.openedNames cpu = some js)
    {j : ℕ} (hj : j ∈ js) : traceName c.names j ∈ c.fs.entries := by
  have hmem := (c.openedNames_sublist h).subset hj
  exact mem_entries_of_found c.fs c.names (List.mem_filter.mp hmem).2

/-- The members come in increasing order. -/
theorem pairwise_openedNames {cpu : ℕ} {js : List ℕ} (h : c.openedNames cpu = some js) :
    js.Pairwise (· < ·) :=
  (List.pairwise_lt_range.filter _).sublist (c.openedNames_sublist h)

theorem length_openedNames_le {cpu : ℕ} {js : List ℕ} (h : c.openedNames cpu = some js) :
    js.length ≤ c.names.length := by
  have hle := ((c.openedNames_sublist h).trans List.filter_sublist).length_le
  rwa [List.length_range] at hle

/-- The group the openings of a CPU build has the opened names' events. -/
theorem groupOf_openings (cpu : ℕ) :
    groupOf (openings c.fs c.names c.opens cpu) =
      (c.openedNames cpu).map fun js => js.map fun j => (c.fs.id (traceName c.names j) : ℤ) := by
  have hconfig : ∀ j ∈ foundNames c.fs c.names cpu,
      (opening c.fs c.names c.opens cpu j).1 = c.fs.id (traceName c.names j) := fun j hj =>
    readConfig_eq (by decide) (mem_entries_of_found c.fs c.names (List.mem_filter.mp hj).2)
  cases hfound : foundNames c.fs c.names cpu with
  -- nothing is found, so there is no group
  | nil => rw [openings, openedNames, hfound]; rfl
  | cons i is =>
    rw [hfound] at hconfig
    have hi := hconfig i List.mem_cons_self
    have hopenings : openings c.fs c.names c.opens cpu =
        ((c.fs.id (traceName c.names i) : ℤ), c.opens cpu i) ::
          is.map (opening c.fs c.names c.opens cpu) := by
      rw [openings, hfound, List.map_cons, ← hi]
      rfl
    rw [hopenings, openedNames, hfound]
    cases hok : c.opens cpu i with
    -- the opening that would lead the group has failed
    | false => simp [hok]
    | true =>
      have hfilter : (is.map (opening c.fs c.names c.opens cpu)).filter (·.2) =
          (is.filter (c.opens cpu)).map (opening c.fs c.names c.opens cpu) := by
        rw [List.filter_map]
        rfl
      have hmap : ((is.filter (c.opens cpu)).map (opening c.fs c.names c.opens cpu)).map (·.1) =
          (is.filter (c.opens cpu)).map fun j => (c.fs.id (traceName c.names j) : ℤ) := by
        rw [List.map_map]
        refine List.map_congr_left fun j hj => ?_
        exact hconfig j (List.mem_cons_of_mem _ (List.mem_filter.mp hj).1)
      rw [groupOf_cons_true, hfilter, hmap]
      simp [hok]

/-- **The counter a read delivers for slot `j`** is that of the `j`-th opened
name. -/
theorem counterWord_read (hn : c.names.length < MAX_TRACE_NUM) (t : Tick) {i : ℕ}
    (hi : i < c.cpus) (j : ℕ) :
    counterWord MAX_TRACE_NUM (c.read t i) j =
      if t.readable i then
        (c.openedNames i).bind fun js => js[j]?.map fun k => t.count (c.fs.id (traceName c.names k)) i
      else none := by
  rw [read]
  split
  · rw [(groupsBuilt_perfEvent c.fs c.names c.opens c.cpus).read hi, groupOf_openings]
    cases hjs : c.openedNames i with
    | none => rfl
    | some js =>
      have hlen := c.length_openedNames_le hjs
      rw [Option.map_some, Option.bind_some, counterWord_groupWords (by rw [List.length_map]; omega),
        List.getElem?_map, Option.map_map, Option.bind_some]
      rfl
  · rfl

/-! ### What is reported -/

/-- **What the callback delivers after a run**: for the instance of a CPU, the
counters read for the last CPU that shares its name. -/
theorem callback_of_run {ticks : List Tick} {t : Tick} {cache : NameCache TraceValue}
    (h : c.run (ticks ++ [t]) = some cache) {i : ℕ} (hi : i < c.cpus) :
    ∃ inst va, cache.lookup inst = some (instName i, va) ∧
      ∀ j < c.names.length, ∀ kvmstat, kvmFetchCallBack ⟨kvmstat, cache⟩ ⟨CLUSTER_TRACE, j⟩ inst =
        .value ((counterWord MAX_TRACE_NUM (c.read t (lastSharing c.cpus i)) j).getD 0) := by
  rw [run, List.map_append] at h
  obtain ⟨hshows, -⟩ := refreshRun_spec (by simp) h
  obtain ⟨va, hva, hval⟩ := hshows i hi
  obtain ⟨inst, hinst⟩ := NameCache.exists_lookup_of_lookupName hva
  exact ⟨inst, va, hinst, fun j hj kvmstat => kvmFetchCallBack_trace hinst (hval j hj)⟩

/-- An instance of a CPU delivers what any other number for the same name does. -/
theorem callback_congr {cache : NameCache TraceValue} {name : Name} {inst inst' : ℕ}
    {va va' : TraceValue} (h : cache.lookup inst = some (name, va))
    (h' : cache.lookup inst' = some (name, va')) (kvmstat : KvmStat) (item : ℕ) :
    kvmFetchCallBack ⟨kvmstat, cache⟩ ⟨CLUSTER_TRACE, item⟩ inst =
      kvmFetchCallBack ⟨kvmstat, cache⟩ ⟨CLUSTER_TRACE, item⟩ inst' := by
  have heq := (NameCache.lookupName_of_lookup h).symm.trans (NameCache.lookupName_of_lookup h')
  rw [Option.some.injEq] at heq
  rw [kvmFetchCallBack, kvmFetchCallBack, h, h', heq]

/-- What may be reported for the event `name` on CPU `i`: its own counter, if there is
such an event, or `0`, but never the counter of another event or of another CPU. -/
def Own (t : Tick) (name : Name) (i : ℕ) (v : ℤ) : Prop :=
  v = 0 ∨ name ∈ c.fs.entries ∧ v = t.count (c.fs.id name) i

/-- **Every trace metric reports its own counter**: after every run of refreshes,
the metric registered for `trace_nametab[j]` delivers, for the instance of CPU
`i`, the counter of that event on that CPU or `0`. -/
def OwnCounters : Prop :=
  ∀ (ticks : List Tick) (t : Tick), ∃ cache, c.run (ticks ++ [t]) = some cache ∧
    ∀ i < c.cpus, ∃ inst va, cache.lookup inst = some (instName i, va) ∧
      ∀ j node kvmstat, (traceNodes c.names)[j]? = some node →
        ∃ v, kvmFetchCallBack ⟨kvmstat, cache⟩ node.2 inst = .value v ∧
          c.Own t (traceName c.names j) i v

/-- The group read for the instance of CPU `i` is its own and has the first names of the
table, without a gap.  A group has no names in it, only counters in the order in which
they joined, so slot `j` of the instance is the `j`-th name exactly when no name before
it is missing. -/
def Aligned (i : ℕ) : Prop :=
  ∀ js, c.openedNames (lastSharing c.cpus i) = some js →
    lastSharing c.cpus i = i ∧ js = List.range js.length

/-- An aligned CPU's slots hold its own counters. -/
theorem own_of_aligned (hn : c.names.length < MAX_TRACE_NUM) {t : Tick} {i j : ℕ} (hi : i < c.cpus)
    (h : c.Aligned i) :
    c.Own t (traceName c.names j) i
      ((counterWord MAX_TRACE_NUM (c.read t (lastSharing c.cpus i)) j).getD 0) := by
  rw [c.counterWord_read hn t (lastSharing_lt hi)]
  split
  · cases hjs : c.openedNames (lastSharing c.cpus i) with
    | none => exact Or.inl rfl
    | some js =>
      obtain ⟨hlast, hrange⟩ := h js hjs
      rw [Option.bind_some]
      cases hj : js[j]? with
      | none => exact Or.inl rfl
      | some k =>
        -- slot `j` of a range holds `j`
        have hkj : k = j := by
          rw [hrange] at hj
          obtain ⟨hlt, heq⟩ := List.getElem?_eq_some_iff.mp hj
          rw [← heq, List.getElem_range]
        subst hkj
        refine Or.inr ⟨c.mem_entries_of_mem_openedNames hjs (List.mem_of_getElem? hj), ?_⟩
        rw [Option.map_some, Option.getD_some, hlast]
  · exact Or.inl rfl

/-- The first member of an increasing list that is not in its place lies above
it. -/
theorem exists_gap {js : List ℕ} (hsorted : js.Pairwise (· < ·)) (hne : js ≠ List.range js.length) :
    ∃ j k : ℕ, js[j]? = some k ∧ j < k := by
  by_contra hnone
  push Not at hnone
  refine hne (List.ext_getElem? fun j => ?_)
  rcases Nat.lt_or_ge j js.length with hlt | hge
  · rw [List.getElem?_range hlt, List.getElem?_eq_getElem hlt, Option.some.injEq]
    have hle := hnone j js[j] (List.getElem?_eq_getElem hlt)
    have hge : ∀ n (hn : n < js.length), n ≤ js[n] := by
      intro n
      induction n with
      | zero => intro hn; omega
      | succ n ih =>
        intro hn
        have hstep := List.pairwise_iff_getElem.mp hsorted n (n + 1) (by omega) hn (by omega)
        have := ih (by omega)
        omega
    have := hge j hlt
    omega
  · have hrange : (List.range js.length).length ≤ j := by rwa [List.length_range]
    rw [List.getElem?_eq_none hge, List.getElem?_eq_none hrange]

/-- A tick in which one event stands out on one CPU, so that a counter that is reported
in its place can be told from it. -/
def standOut (config : ℤ) (cpu : ℕ) : Tick where
  count := fun e i => if e = config ∧ i = cpu then 1 else 2
  readable := fun _ => true

/-- **A CPU that is not aligned reports a foreign counter**: there is a tick in which the
value reported for one of its names is neither that name's own counter nor `0`. -/
theorem exists_foreign (hnodup : c.names.Nodup) (hn : c.names.length < MAX_TRACE_NUM) {i : ℕ}
    (hi : i < c.cpus) (h : ¬ c.Aligned i) :
    ∃ t, ∃ j < c.names.length, ¬ c.Own t (traceName c.names j) i
      ((counterWord MAX_TRACE_NUM (c.read t (lastSharing c.cpus i)) j).getD 0) := by
  rw [Aligned] at h
  push Not at h
  obtain ⟨js, hjs, himp⟩ := h
  -- slot `j` of the group read holds the counter of name `k`
  have hslot : ∀ j k, js[j]? = some k →
      (counterWord MAX_TRACE_NUM (c.read (standOut (c.fs.id (traceName c.names k))
        (lastSharing c.cpus i)) (lastSharing c.cpus i)) j).getD 0 = 1 := by
    intro j k hk
    rw [c.counterWord_read hn _ (lastSharing_lt hi), hjs, Option.bind_some, hk]
    simp [standOut]
  have hlt : ∀ j k, js[j]? = some k → j < c.names.length := fun j k hk =>
    Nat.lt_of_lt_of_le (List.getElem?_eq_some_iff.mp hk).1 (c.length_openedNames_le hjs)
  by_cases hlast : lastSharing c.cpus i = i
  · -- the group is its own but leaves out a name
    obtain ⟨j, k, hk, hjk⟩ := exists_gap (c.pairwise_openedNames hjs) (himp hlast)
    refine ⟨standOut (c.fs.id (traceName c.names k)) (lastSharing c.cpus i), j, hlt j k hk, ?_⟩
    rw [hslot j k hk]
    rintro (hzero | ⟨hmem, hval⟩)
    · exact absurd hzero (by decide)
    · -- the two names have different identifiers
      have hkmem := List.mem_of_getElem? hk
      have hklt := c.lt_of_mem_openedNames hjs hkmem
      have hid : ¬ ((c.fs.id (traceName c.names j) : ℤ) = c.fs.id (traceName c.names k)) := by
        intro heq
        have hname := c.fs.id_inj _ hmem _ (c.mem_entries_of_mem_openedNames hjs hkmem)
          (by exact_mod_cast heq)
        rw [traceName, traceName, List.getD_eq_getElem _ _ (hlt j k hk),
          List.getD_eq_getElem _ _ hklt] at hname
        have := (List.Nodup.getElem_inj_iff hnodup).mp hname
        omega
      simp [standOut, hid] at hval
  · -- the group is that of a later CPU with the same name
    have hne : js ≠ [] := by
      rintro rfl
      rw [openedNames] at hjs
      split at hjs
      · simp at hjs
      · split at hjs <;> simp at hjs
    obtain ⟨k, js', rfl⟩ := List.exists_cons_of_ne_nil hne
    refine ⟨standOut (c.fs.id (traceName c.names k)) (lastSharing c.cpus i), 0, hlt 0 k rfl, ?_⟩
    rw [hslot 0 k rfl]
    rintro (hzero | ⟨-, hval⟩)
    · exact absurd hzero (by decide)
    · simp [standOut, Ne.symm hlast] at hval

/-- One CPU that is not aligned is enough for some run to report a foreign
counter. -/
theorem not_ownCounters (hnodup : c.names.Nodup) (hn : c.names.length < MAX_TRACE_NUM) {i : ℕ}
    (hi : i < c.cpus) (h : ¬ c.Aligned i) : ¬ c.OwnCounters := by
  intro hown
  obtain ⟨t, j, hj, hforeign⟩ := c.exists_foreign hnodup hn hi h
  obtain ⟨cache, hrun, hinst⟩ := hown [] t
  obtain ⟨inst, va, hlook, hval⟩ := hinst i hi
  obtain ⟨inst', va', hlook', hval'⟩ := c.callback_of_run hrun hi
  obtain ⟨node, hnode⟩ := exists_traceNode hj
  obtain ⟨v, hv, hvown⟩ := hval j node Pmda.init.kvmstat hnode
  rw [(snd_of_traceNodes hnode).2, callback_congr hlook hlook', hval' j hj,
    FetchResult.value.injEq] at hv
  rw [hv] at hforeign
  exact hforeign hvown

/-- **Every metric reports its own counter or `0` exactly when every CPU is aligned**:
the counters of a group are copied by position, so each gap before a counter moves it to
the name before it. -/
theorem ownCounters_iff (hnodup : c.names.Nodup) (hn : c.names.length < MAX_TRACE_NUM) :
    c.OwnCounters ↔ ∀ i < c.cpus, c.Aligned i := by
  constructor
  · intro hown i hi
    by_contra hal
    exact c.not_ownCounters hnodup hn hi hal hown
  · intro hal ticks t
    obtain ⟨cache, hrun⟩ := refreshRun_ok c.cpus hn ((ticks ++ [t]).map c.read) NameCache.empty
    refine ⟨cache, hrun, fun i hi => ?_⟩
    obtain ⟨inst, va, hlook, hval⟩ := c.callback_of_run hrun hi
    refine ⟨inst, va, hlook, fun j node kvmstat hnode => ?_⟩
    obtain ⟨hj, hitem⟩ := snd_of_traceNodes hnode
    rw [hitem, hval j hj]
    exact ⟨_, rfl, c.own_of_aligned hn hi (hal i hi)⟩

/-- Two events on two CPUs, listed in the other order than they are configured. -/
def twoEvents : Collector where
  fs := .twoEvents
  names := ["kvm_exit".toList, "kvm_entry".toList]
  cpus := 2
  opens := fun _ _ => true

theorem ownCounters_twoEvents : twoEvents.OwnCounters := by
  refine (ownCounters_iff twoEvents (by decide) (by decide)).mpr ?_
  have hal : ∀ i < 2, lastSharing 2 i = i ∧ twoEvents.openedNames i = some [0, 1] := by decide
  intro i hi js hjs
  obtain ⟨hlast, hopened⟩ := hal i hi
  have hlast' : lastSharing twoEvents.cpus i = i := hlast
  rw [hlast', hopened, Option.some.injEq] at hjs
  exact ⟨hlast', by rw [← hjs]; rfl⟩

/-- The first configured event is not in the directory. -/
def firstMissing : Collector where
  fs :=
    { entries := [".".toList, "..".toList, "kvm_entry".toList]
      nodup := by decide
      id := List.length
      id_inj := by decide
      id_lt := by decide }
  names := ["kvm_exit".toList, "kvm_entry".toList]
  cpus := 1
  opens := fun _ _ => true

/-- `kvmstat.trace.kvm_exit` reports the counter of `kvm_entry`. -/
theorem not_ownCounters_firstMissing : ¬ firstMissing.OwnCounters := by
  refine firstMissing.not_ownCounters (by decide) (by decide) (show 0 < 1 by decide) ?_
  intro hal
  obtain ⟨-, hrange⟩ := hal [1] (by decide)
  exact absurd hrange (by decide)

end Collector

end LinuxNote.Kvmstat
