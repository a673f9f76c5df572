import LinuxNote.Base.CText
import LinuxNote.Base.NameCache
import LinuxNote.GroupRead
import LinuxNote.Kvmstat.PerfEvent
import Mathlib.Data.Nat.Find
import Mathlib.Data.Set.Function
import Mathlib.Order.Interval.Set.Defs

/-!
# kvmstat: refreshing the trace instances

`refresh_kvm_trace` of `kvmstat.c`.  For every CPU it prints the instance name
`cpu<i>` into a buffer of six bytes, looks the name up in the PMDA's cache, reads
the CPU's group into the value found there (or into a fresh one) and stores it
back under the name.

* `instName`, `refreshCpu`, `refreshKvmTrace`, `refreshRun` — the source, and a
  run of refreshes.
* `lastSharing` — the last CPU that prints the same name as a given one.
* `refreshKvmTrace_spec` — **what a refresh leaves in the cache**: under the name
  of a CPU, the counters read for the last CPU that shares the name.
* `instances_right_iff` — the cache holds one right instance per CPU exactly when
  there are at most a hundred CPUs and the names leave a slot for the count.
-/

namespace LinuxNote.Kvmstat

open CText

/-! ### The source -/

/-- The counters of one instance, `calloc`ed: as many as the table of names can have, all
of them 0 before the first read. -/
abbrev TraceValue := Vector ℤ MAX_TRACE_NUM

/-- What a fresh `trace_value` holds. -/
def TraceValue.calloc : TraceValue := Vector.replicate MAX_TRACE_NUM 0

/-- The format `cpu%d`. -/
def cpuName (i : ℕ) : Name := "cpu".toList ++ decimal i

/-- `pmsprintf(cpu, sizeof(cpu), "cpu%d", i)` with `char cpu[6]`, which has room for two
digits: from `cpu100` on the name is cut off. -/
def instName (i : ℕ) : Name := snprintf 6 (cpuName i)

/-- `tmp_values`, cleared. -/
def clearedValues : List ℤ := List.replicate MAX_TRACE_NUM 0

/-- The loop body for CPU `i`, on the cache and `tmp_values`; `read i` is what
`read(group_fd[i], …)` delivers. -/
def refreshCpu (ntrace : ℕ) (read : ℕ → Option (List ℤ)) (st : NameCache TraceValue × List ℤ)
    (i : ℕ) : Option (NameCache TraceValue × List ℤ) :=
  let cpu := instName i
  -- a name that is not in the cache yet gets a cleared entry
  let traceV := (st.1.lookupName cpu).getD TraceValue.calloc
  let tmpValues := readInto st.2 (read i)
  match copyCounters tmpValues ntrace traceV with
  | none => none
  | some traceV => some (st.1.store cpu traceV, clearedValues)

/-- `refresh_kvm_trace()`, a loop over the CPUs that fetches the instance of each by its
name; `none` when it indexes outside a table. -/
def refreshKvmTrace (cpus ntrace : ℕ) (read : ℕ → Option (List ℤ)) (cache : NameCache TraceValue) :
    Option (NameCache TraceValue) :=
  (Loop.forRange (refreshCpu ntrace read) cpus (cache, clearedValues)).map Prod.fst

/-- A run of refreshes. -/
def refreshRun (cpus ntrace : ℕ) :
    List (ℕ → Option (List ℤ)) → NameCache TraceValue → Option (NameCache TraceValue)
  | [], cache => some cache
  | read :: reads, cache =>
    (refreshKvmTrace cpus ntrace read cache).bind (refreshRun cpus ntrace reads)

/-! ### Instance names -/

theorem cpuName_injective {i j : ℕ} (h : cpuName i = cpuName j) : i = j :=
  decimal_injective (List.append_cancel_left h)

/-- Two digits fit. -/
theorem instName_of_lt {i : ℕ} (h : i < 100) : instName i = cpuName i := by
  have hlen : (decimal i).length ≤ 2 := length_decimal_le (by decide) (by omega)
  refine List.take_of_length_le ?_
  rw [cpuName, List.length_append]
  exact Nat.add_le_add_left hlen 3

/-- Three digits do not: the last one is cut off. -/
theorem instName_of_ge {i : ℕ} (h : 100 ≤ i) : instName i = instName (i / 10) := by
  have hten : ¬ decimal (i / 10) = [] := decimal_ne_nil _
  have hlen : 2 ≤ (decimal (i / 10)).length := by
    rw [decimal_of_ten_le (by omega), List.length_append, List.length_singleton]
    have := List.length_pos_iff.mpr (decimal_ne_nil (i / 10 / 10))
    omega
  have hcut : cpuName i = cpuName (i / 10) ++ [(i % 10).digitChar] := by
    rw [cpuName, decimal_of_ten_le (show 10 ≤ i by omega), cpuName, List.append_assoc]
  have hfive : 5 ≤ (cpuName (i / 10)).length := by
    rw [cpuName, List.length_append]
    exact Nat.add_le_add_left hlen 3
  -- the five characters that fit all belong to the shorter name
  rw [instName, instName, snprintf, snprintf, hcut, List.take_append_of_le_length hfive]

/-- Every instance name is that of a CPU below a hundred. -/
theorem exists_instName_eq (i : ℕ) : ∃ k < 100, k ≤ i ∧ instName k = instName i := by
  induction i using Nat.strong_induction_on with
  | _ i ih =>
    rcases Nat.lt_or_ge i 100 with hlt | hge
    · exact ⟨i, hlt, Nat.le_refl i, rfl⟩
    · obtain ⟨k, hk, hki, heq⟩ := ih (i / 10) (by omega)
      exact ⟨k, hk, by omega, heq.trans (instName_of_ge hge).symm⟩

theorem instName_injOn_iff (cpus : ℕ) : Set.InjOn instName (Set.Iio cpus) ↔ cpus ≤ 100 := by
  constructor
  · intro hinj
    by_contra hgt
    have h := hinj (Set.mem_Iio.mpr (show 100 < cpus by omega))
      (Set.mem_Iio.mpr (show 10 < cpus by omega)) (instName_of_ge (Nat.le_refl 100))
    omega
  · intro hle i hi j hj heq
    rw [Set.mem_Iio] at hi hj
    rw [instName_of_lt (by omega), instName_of_lt (by omega)] at heq
    exact cpuName_injective heq

/-- The last of the first `cpus` CPUs whose instance name is that of CPU `i`.  They all
write to the same instance, so it is the one whose counters are left there. -/
def lastSharing (cpus i : ℕ) : ℕ :=
  Nat.findGreatest (fun k => instName k = instName i) (cpus - 1)

theorem lastSharing_succ (n i : ℕ) :
    lastSharing (n + 1) i = if instName n = instName i then n else lastSharing n i := by
  cases n with
  | zero =>
    rw [lastSharing, lastSharing]
    simp
  | succ n => rw [lastSharing, Nat.add_sub_cancel, Nat.findGreatest_succ, lastSharing, Nat.add_sub_cancel]

theorem lastSharing_lt {cpus i : ℕ} (hi : i < cpus) : lastSharing cpus i < cpus := by
  have := Nat.findGreatest_le (P := fun k => instName k = instName i) (cpus - 1)
  rw [lastSharing]
  omega

theorem instName_lastSharing {cpus i : ℕ} (hi : i < cpus) :
    instName (lastSharing cpus i) = instName i :=
  Nat.findGreatest_spec (P := fun k => instName k = instName i) (show i ≤ cpus - 1 by omega) rfl

theorem lastSharing_eq_of_le {cpus i : ℕ} (hcpus : cpus ≤ 100) (hi : i < cpus) :
    lastSharing cpus i = i :=
  (instName_injOn_iff cpus).mpr hcpus (lastSharing_lt hi) hi (instName_lastSharing hi)

/-! ### One refresh -/

/-- A value shows the counters a read delivered, and `0` for those it did not, be it that
the read failed or that the group has fewer members. -/
def Shows (ntrace : ℕ) (r : Option (List ℤ)) (v : TraceValue) : Prop :=
  ∀ j < ntrace, v[j]? = some ((counterWord MAX_TRACE_NUM r j).getD 0)

/-- The loop invariant: the CPUs below `n` have an instance each, which shows what
was read for the last of them that shares the name. -/
structure Refreshed (ntrace : ℕ) (read : ℕ → Option (List ℤ)) (cache : NameCache TraceValue)
    (n : ℕ) (st : NameCache TraceValue × List ℤ) : Prop where
  cleared : st.2 = clearedValues
  shows : ∀ i < n, ∃ v, st.1.lookupName (instName i) = some v ∧
    Shows ntrace (read (lastSharing n i)) v
  names : ∀ name, name ∈ st.1.names ↔ name ∈ cache.names ∨ ∃ i < n, instName i = name

theorem refreshed_zero (ntrace : ℕ) (read : ℕ → Option (List ℤ)) (cache : NameCache TraceValue) :
    Refreshed ntrace read cache 0 (cache, clearedValues) where
  cleared := rfl
  shows := by intro i hi; omega
  names := by intro name; simp

/-- A CPU's copy leaves the tables unless one slot is left over for the count. -/
theorem lt_of_refreshCpu {ntrace n : ℕ} {read : ℕ → Option (List ℤ)}
    {st st' : NameCache TraceValue × List ℤ} (hst : st.2 = clearedValues)
    (h : refreshCpu ntrace read st n = some st') : ntrace < MAX_TRACE_NUM := by
  by_contra hge
  have hlen : (readInto st.2 (read n)).length ≤ ntrace := by
    rw [length_readInto, hst, clearedValues, List.length_replicate]
    omega
  have hpos : 0 < ntrace := Nat.lt_of_lt_of_le (by decide) (Nat.not_lt.mp hge)
  rw [refreshCpu, copyCounters_eq_none _ hpos (Or.inl hlen)] at h
  simp at h

/-- **One CPU** preserves the invariant: it is the last with its name now, and the
instances of the other names stay as they are. -/
theorem refreshed_succ {ntrace n : ℕ} {read : ℕ → Option (List ℤ)} {cache : NameCache TraceValue}
    {st st' : NameCache TraceValue × List ℤ} (hst : Refreshed ntrace read cache n st)
    (h : refreshCpu ntrace read st n = some st') : Refreshed ntrace read cache (n + 1) st' := by
  have hbound := lt_of_refreshCpu hst.cleared h
  rw [refreshCpu, hst.cleared] at h
  cases hcopy : copyCounters (readInto clearedValues (read n)) ntrace
      ((st.1.lookupName (instName n)).getD TraceValue.calloc) with
  | none => simp [hcopy] at h
  | some v =>
    rw [hcopy, Option.some.injEq] at h
    subst h
    obtain ⟨v', hv', hshows⟩ := copyCounters_readInto (read n)
      ((st.1.lookupName (instName n)).getD TraceValue.calloc) (Or.inr hbound) (by omega)
    rw [clearedValues, hv', Option.some.injEq] at hcopy
    subst hcopy
    refine ⟨rfl, ?_, ?_⟩
    · -- the CPUs that share the name now show what this one has stored
      intro i hi
      rw [NameCache.lookupName_store, lastSharing_succ]
      by_cases hname : instName i = instName n
      · rw [if_pos hname, if_pos hname.symm]
        exact ⟨v', rfl, hshows⟩
      · rw [if_neg hname, if_neg fun hc => hname hc.symm]
        have hne : i ≠ n := fun hc => hname (by rw [hc])
        exact hst.shows i (by omega)
    · intro name
      rw [NameCache.mem_names_store, hst.names]
      constructor
      · rintro (rfl | hmem | ⟨i, hi, rfl⟩)
        · exact Or.inr ⟨n, by omega, rfl⟩
        · exact Or.inl hmem
        · exact Or.inr ⟨i, by omega, rfl⟩
      · rintro (hmem | ⟨i, hi, rfl⟩)
        · exact Or.inr (Or.inl hmem)
        · rcases Nat.lt_or_ge i n with hlt | hge
          · exact Or.inr (Or.inr ⟨i, hlt, rfl⟩)
          · exact Or.inl (by rw [show i = n by omega])

/-- **What a refresh leaves in the cache**: the instances that were there and one for
each name of a CPU, with the counters of the last CPU that has it. -/
theorem refreshKvmTrace_spec {cpus ntrace : ℕ} {read : ℕ → Option (List ℤ)}
    {cache cache' : NameCache TraceValue}
    (h : refreshKvmTrace cpus ntrace read cache = some cache') :
    Refreshed ntrace read cache cpus (cache', clearedValues) := by
  rw [refreshKvmTrace, Option.map_eq_some_iff] at h
  obtain ⟨st, hst, rfl⟩ := h
  have hinv := Loop.forRange_inv (Refreshed ntrace read cache) (refreshed_zero ntrace read cache)
    (fun _ _ _ _ hP hf => refreshed_succ hP hf) st hst
  exact ⟨rfl, hinv.shows, hinv.names⟩

/-- A refresh of at least one CPU leaves the tables unless one slot is left over
for the count. -/
theorem lt_of_refreshKvmTrace {cpus ntrace : ℕ} (hcpus : 0 < cpus) {read : ℕ → Option (List ℤ)}
    {cache cache' : NameCache TraceValue}
    (h : refreshKvmTrace cpus ntrace read cache = some cache') : ntrace < MAX_TRACE_NUM := by
  rw [refreshKvmTrace, Option.map_eq_some_iff] at h
  obtain ⟨st, hst, -⟩ := h
  -- the first CPU works on a cleared buffer
  obtain ⟨u, v, hu, hv⟩ := Loop.forRange_prefix hst 0 hcpus
  rw [Loop.forRange_zero, Option.some.injEq] at hu
  exact lt_of_refreshCpu (by rw [← hu]) hv

/-- A refresh stays inside the tables when one slot is left over for the count. -/
theorem refreshKvmTrace_ok (cpus : ℕ) {ntrace : ℕ} (hn : ntrace < MAX_TRACE_NUM)
    (read : ℕ → Option (List ℤ)) (cache : NameCache TraceValue) :
    ∃ cache', refreshKvmTrace cpus ntrace read cache = some cache' := by
  obtain ⟨st, hst, -⟩ := Loop.forRange_ok (f := refreshCpu ntrace read) (n := cpus)
    (s := (cache, clearedValues)) (fun _ st => st.2 = clearedValues) rfl (by
      intro i _ st hcl
      obtain ⟨v, hv, -⟩ := copyCounters_readInto (read i)
        ((st.1.lookupName (instName i)).getD TraceValue.calloc) (Or.inr hn) (by omega)
      refine ⟨(st.1.store (instName i) v, clearedValues), ?_, rfl⟩
      rw [refreshCpu, hcl, clearedValues, hv])
  exact ⟨st.1, by rw [refreshKvmTrace, hst]; rfl⟩

/-! ### Runs -/

/-- After a run of at least one refresh, the cache is that of its last refresh,
from a cache with no other names. -/
theorem refreshRun_spec {cpus ntrace : ℕ} {reads : List (ℕ → Option (List ℤ))}
    {read : ℕ → Option (List ℤ)} {cache cache' : NameCache TraceValue}
    (hcache : ∀ name ∈ cache.names, ∃ i < cpus, instName i = name)
    (h : refreshRun cpus ntrace (reads ++ [read]) cache = some cache') :
    (∀ i < cpus, ∃ v, cache'.lookupName (instName i) = some v ∧
      Shows ntrace (read (lastSharing cpus i)) v) ∧
      ∀ name, name ∈ cache'.names ↔ ∃ i < cpus, instName i = name := by
  -- the last refresh decides what is shown; those before it must not add foreign names
  induction reads generalizing cache with
  | nil =>
    rw [List.nil_append, refreshRun, Option.bind_eq_some_iff] at h
    obtain ⟨c, hc, heq⟩ := h
    rw [refreshRun, Option.some.injEq] at heq
    subst heq
    have hspec := refreshKvmTrace_spec hc
    refine ⟨hspec.shows, fun name => ?_⟩
    rw [hspec.names name]
    exact ⟨fun h => h.elim (hcache name) id, Or.inr⟩
  | cons r reads ih =>
    rw [List.cons_append, refreshRun, Option.bind_eq_some_iff] at h
    obtain ⟨c, hc, hrest⟩ := h
    refine ih (fun name hname => ?_) hrest
    exact ((refreshKvmTrace_spec hc).names name).mp hname |>.elim (hcache name) id

/-- A run of at least one refresh leaves the tables unless one slot is left over
for the count. -/
theorem lt_of_refreshRun {cpus ntrace : ℕ} (hcpus : 0 < cpus)
    {reads : List (ℕ → Option (List ℤ))} {read : ℕ → Option (List ℤ)}
    {cache cache' : NameCache TraceValue}
    (h : refreshRun cpus ntrace (reads ++ [read]) cache = some cache') :
    ntrace < MAX_TRACE_NUM := by
  cases reads with
  | nil =>
    obtain ⟨c, hc, -⟩ := Option.bind_eq_some_iff.mp h
    exact lt_of_refreshKvmTrace hcpus hc
  | cons r reads =>
    obtain ⟨c, hc, -⟩ := Option.bind_eq_some_iff.mp h
    exact lt_of_refreshKvmTrace hcpus hc

/-- A run stays inside the tables when one slot is left over for the count. -/
theorem refreshRun_ok (cpus : ℕ) {ntrace : ℕ} (hn : ntrace < MAX_TRACE_NUM)
    (reads : List (ℕ → Option (List ℤ))) (cache : NameCache TraceValue) :
    ∃ cache', refreshRun cpus ntrace reads cache = some cache' := by
  induction reads generalizing cache with
  | nil => exact ⟨cache, rfl⟩
  | cons r reads ih =>
    obtain ⟨c, hc⟩ := refreshKvmTrace_ok cpus hn r cache
    obtain ⟨c', hc'⟩ := ih c
    exact ⟨c', by rw [refreshRun, hc, Option.bind_some, hc']⟩

/-- Without a CPU a run does nothing. -/
theorem refreshRun_zero (ntrace : ℕ) (reads : List (ℕ → Option (List ℤ)))
    (cache : NameCache TraceValue) : refreshRun 0 ntrace reads cache = some cache := by
  induction reads with
  | nil => rfl
  | cons r reads ih => rw [refreshRun, refreshKvmTrace, Loop.forRange_zero, Option.map_some,
      Option.bind_some, ih]

/-! ### One instance per CPU -/

/-- The names of the first `cpus` CPUs, listed without repetition, are as many as
there are CPUs, up to a hundred. -/
theorem size_of_names {cpus : ℕ} {cache : NameCache TraceValue}
    (h : ∀ name, name ∈ cache.names ↔ ∃ i < cpus, instName i = name) :
    cache.size = min cpus 100 := by
  have hlow : ((List.range (min cpus 100)).map instName).Nodup := by
    refine List.Nodup.map_on ?_ List.nodup_range
    intro i hi j hj heq
    rw [List.mem_range] at hi hj
    exact (instName_injOn_iff 100).mpr (Nat.le_refl _) (Set.mem_Iio.mpr (by omega))
      (Set.mem_Iio.mpr (by omega)) heq
  have hmem : ∀ name, name ∈ cache.names ↔ name ∈ (List.range (min cpus 100)).map instName := by
    intro name
    rw [h, List.mem_map]
    constructor
    · rintro ⟨i, hi, rfl⟩
      obtain ⟨k, hk, hki, heq⟩ := exists_instName_eq i
      exact ⟨k, List.mem_range.mpr (by omega), heq⟩
    · rintro ⟨k, hk, rfl⟩
      exact ⟨k, by rw [List.mem_range] at hk; omega, rfl⟩
  -- lists without repetition that have the same members are equally long
  have hperm := (List.perm_ext_iff_of_nodup cache.nodup hlow).mpr hmem
  rw [← NameCache.length_names, NameCache.names, hperm.length_eq, List.length_map,
    List.length_range]

/-- The instance domain is right: the instance names of distinct CPUs are distinct, there
is one instance per CPU, and the instance named `cpu<i>` shows what was read from the
group of CPU `i`, so that a client finds under a name what the name says. -/
structure InstancesRight (cpus ntrace : ℕ) (read : ℕ → Option (List ℤ))
    (cache : NameCache TraceValue) : Prop where
  distinct : Set.InjOn instName (Set.Iio cpus)
  size : cache.size = cpus
  shows : ∀ i < cpus, ∃ v, cache.lookupName (cpuName i) = some v ∧ Shows ntrace (read i) v

/-- **The instance domain is right exactly up to a hundred CPUs**, after every run of
refreshes, which stays inside the tables when the names leave a slot for the count.  With
more CPUs `cpu100` is cut off to the name of CPU 10, and both share an instance. -/
theorem instances_right_iff {cpus : ℕ} (hcpus : 0 < cpus) (ntrace : ℕ)
    (reads : List (ℕ → Option (List ℤ))) (read : ℕ → Option (List ℤ)) :
    (∃ cache, refreshRun cpus ntrace (reads ++ [read]) NameCache.empty = some cache ∧
      InstancesRight cpus ntrace read cache) ↔ cpus ≤ 100 ∧ ntrace < MAX_TRACE_NUM := by
  constructor
  · rintro ⟨cache, h, hright⟩
    exact ⟨(instName_injOn_iff cpus).mp hright.distinct, lt_of_refreshRun hcpus h⟩
  · rintro ⟨hle, hn⟩
    obtain ⟨cache, h⟩ := refreshRun_ok cpus hn (reads ++ [read]) NameCache.empty
    obtain ⟨hshows, hnames⟩ := refreshRun_spec (by simp) h
    refine ⟨cache, h, (instName_injOn_iff cpus).mpr hle, ?_, ?_⟩
    · rw [size_of_names hnames]
      omega
    · intro i hi
      obtain ⟨v, hv, hval⟩ := hshows i hi
      rw [instName_of_lt (by omega)] at hv
      rw [lastSharing_eq_of_le hle hi] at hval
      exact ⟨v, hv, hval⟩

/-- Two refreshes with a hundred CPUs, the second of which reads nothing. -/
theorem instances_right_hundred :
    ∃ cache, refreshRun 100 1 [fun i => some [1, i], fun _ => none] NameCache.empty = some cache ∧
      InstancesRight 100 1 (fun _ => none) cache :=
  (instances_right_iff (by decide) 1 [fun i => some [1, i]] fun _ => none).mpr
    ⟨Nat.le_refl 100, by decide⟩

/-- With a hundred and one CPUs, the last one takes over the instance of CPU 10. -/
theorem instances_wrong_hundred_one : ∃ cache, refreshRun 101 1 [fun _ => none] NameCache.empty =
    some cache ∧ ¬ InstancesRight 101 1 (fun _ => none) cache := by
  obtain ⟨cache, h⟩ := refreshRun_ok 101 (show 1 < MAX_TRACE_NUM by decide)
    [fun _ => none] NameCache.empty
  refine ⟨cache, h, fun hright => ?_⟩
  have hsame := hright.distinct (Set.mem_Iio.mpr (show 100 < 101 by decide))
    (Set.mem_Iio.mpr (show 10 < 101 by decide)) (by decide)
  omega

end LinuxNote.Kvmstat
