import LinuxNote.Kvmstat.Pmda

/-!
# kvmstat: whether delivered data is valid

`kvm_fetch` refreshes both clusters and hands over to `pmdaFetch`, which calls
`kvm_fetchCallBack` for the requested metrics.  The status of `refresh_kvm` is
dropped, a failed `read` is only reported, and the callback returns `1` for every
slot there is.

* `Fetch`, `kvmFetch` — one request with what the kernel answers, and the source.
* `Delivers`, `Valid` — the callback returns `1` with a value; the value was read
  in the same fetch from a source that could be read.
* `AllValid` — everything a run of fetches delivers is valid.
* `allValid_iff` — **that is so exactly when** in every fetch of the run the
  sources of all requested metrics are read.
-/

namespace LinuxNote.Kvmstat

open CText

/-! ### The source -/

/-- One call of `kvm_fetch`: the metrics requested, and what this refresh finds in
`/sys/kernel/debug/kvm` and reads from the group of each CPU. -/
structure Fetch where
  pmidlist : List PmID
  debugfs : DebugFs
  read : ℕ → Option (List ℤ)

/-- `if (pmID_cluster(*idp) < NUM_CLUSTERS) need_refresh[pmID_cluster(*idp)]++`. -/
def countCluster (need : Vector ℕ NUM_CLUSTERS) (idp : PmID) : Vector ℕ NUM_CLUSTERS :=
  if h : idp.cluster < NUM_CLUSTERS then
    need.set idp.cluster (need.get ⟨idp.cluster, h⟩ + 1)
  else need

/-- `need_refresh` after the loop over `pmidlist`. -/
def needRefresh (pmidlist : List PmID) : Vector ℕ NUM_CLUSTERS :=
  pmidlist.foldl countCluster (Vector.replicate NUM_CLUSTERS 0)

/-- `kvm_refresh(pmda, need_refresh)`: only the debug cluster is refreshed here, and only
if one of its metrics is asked for; the status of `refresh_kvm` is dropped, so nobody
learns of a failure. -/
def kvmRefresh (fs : DebugFs) (need : Vector ℕ NUM_CLUSTERS) (kvmstat : KvmStat) : KvmStat :=
  if need.get ⟨CLUSTER_DEBUG, by decide⟩ ≠ 0 then (refreshKvm fs kvmstat).1 else kvmstat

/-- `kvm_fetch` up to its call of `pmdaFetch`, with the refresh of the trace cluster,
which is done for every request; `none` when it indexes outside a table. -/
def kvmFetch (cpus ntrace : ℕ) (s : Pmda) (f : Fetch) : Option Pmda :=
  let kvmstat := kvmRefresh f.debugfs (needRefresh f.pmidlist) s.kvmstat
  match refreshKvmTrace cpus ntrace f.read s.cache with
  | none => none
  | some cache => some ⟨kvmstat, cache⟩

/-! ### Valid data -/

/-- The callback returns `1` and delivers `v` for a metric of the request, in the
state `s` after the refresh. -/
def Delivers (names : List Name) (f : Fetch) (s : Pmda) (pmid : PmID) (inst : ℕ) (v : ℤ) : Prop :=
  pmid ∈ f.pmidlist ∧ pmid ∈ registered names ∧ kvmFetchCallBack s pmid inst = .value v

/-- The metric's own file could be read, and `v` is the number on a line that was read
for the slot in this fetch, not one that was left from a fetch before. -/
def ValidDebug (fs : DebugFs) (k : Fin DEBUG_SIZE) (v : ℤ) : Prop :=
  (∃ line, (metricName k, line) ∈ fs.linesRead) ∧
    ∃ e ∈ fs.linesRead, debugSlot e.1 = some k ∧ v = atol e.2

/-- The groups of the CPUs with that instance name could be read, and `v` is the counter
one of them delivered, not the `0` that a failed read leaves in its place. -/
def ValidTrace (cpus : ℕ) (read : ℕ → Option (List ℤ)) (name : Name) (j : ℕ) (v : ℤ) : Prop :=
  (∀ i < cpus, instName i = name → ∃ w, counterWord MAX_TRACE_NUM (read i) j = some w) ∧
    ∃ i < cpus, instName i = name ∧ counterWord MAX_TRACE_NUM (read i) j = some v

/-- The value was read from the kernel in this fetch.  That is what `1` promises to the
caller, while a value that could not be read should be reported with `0`, as one that is
not valid. -/
def Valid (cpus : ℕ) (f : Fetch) (s : Pmda) (pmid : PmID) (inst : ℕ) (v : ℤ) : Prop :=
  (∃ k : Fin DEBUG_SIZE, pmid = ⟨CLUSTER_DEBUG, k⟩ ∧ ValidDebug f.debugfs k v) ∨
    ∃ j name va, pmid = ⟨CLUSTER_TRACE, j⟩ ∧ s.cache.lookup inst = some (name, va) ∧
      ValidTrace cpus f.read name j v

/-- **Everything a run of fetches delivers is valid**, and no fetch indexes outside a
table; each fetch goes on with the state that the one before has left. -/
def AllValid (cpus : ℕ) (names : List Name) : List Fetch → Pmda → Prop
  | [], _ => True
  | f :: fs, s =>
    ∃ s', kvmFetch cpus names.length s f = some s' ∧
      (∀ pmid inst v, Delivers names f s' pmid inst v → Valid cpus f s' pmid inst v) ∧
      AllValid cpus names fs s'

/-- In a fetch, the source of every requested metric is read: the metric's own file
has a line, and is not the one the chain never stores; the group of every CPU
delivers the metric's counter. -/
def SourcesRead (cpus : ℕ) (names : List Name) (f : Fetch) : Prop :=
  (∀ k : Fin DEBUG_SIZE, ⟨CLUSTER_DEBUG, k⟩ ∈ f.pmidlist →
    k.val ≠ 10 ∧ ∃ line, (metricName k, line) ∈ f.debugfs.linesRead) ∧
  ∀ j < names.length, ⟨CLUSTER_TRACE, j⟩ ∈ f.pmidlist →
    ∀ i < cpus, ∃ w, counterWord MAX_TRACE_NUM (f.read i) j = some w

/-! ### One fetch -/

theorem get_countCluster (need : Vector ℕ NUM_CLUSTERS) (idp : PmID) (c : Fin NUM_CLUSTERS) :
    (countCluster need idp).get c = need.get c + if idp.cluster = c then 1 else 0 := by
  rw [countCluster]
  split
  · next h =>
    by_cases hc : idp.cluster = c
    · have hfin : (⟨idp.cluster, h⟩ : Fin NUM_CLUSTERS) = c := Fin.ext hc
      rw [if_pos hc, hfin]
      simp only [hc]
      exact Vector.getElem_set_self c.isLt
    · rw [if_neg hc]
      exact Vector.getElem_set_ne h c.isLt hc
  · next h =>
    have hc : idp.cluster ≠ c := fun heq => h (heq ▸ c.isLt)
    rw [if_neg hc]
    rfl

/-- The counts are those of the clusters in the request. -/
theorem get_needRefresh (pmidlist : List PmID) (c : Fin NUM_CLUSTERS) :
    (needRefresh pmidlist).get c = pmidlist.countP fun idp : PmID => idp.cluster == c.val := by
  have key : ∀ need : Vector ℕ NUM_CLUSTERS, (pmidlist.foldl countCluster need).get c =
      need.get c + pmidlist.countP fun idp : PmID => idp.cluster == c.val := by
    induction pmidlist with
    | nil => intro need; rfl
    | cons idp rest ih =>
      intro need
      rw [List.foldl_cons, ih, get_countCluster, List.countP_cons]
      simp only [beq_iff_eq]
      omega
  change (pmidlist.foldl countCluster (Vector.replicate NUM_CLUSTERS 0)).get c = _
  rw [key]
  have hzero : (Vector.replicate NUM_CLUSTERS 0).get c = 0 := Vector.getElem_replicate c.isLt
  rw [hzero, Nat.zero_add]

/-- A requested debug metric has its cluster refreshed. -/
theorem kvmRefresh_of_mem {pmidlist : List PmID} {k : ℕ} (h : ⟨CLUSTER_DEBUG, k⟩ ∈ pmidlist)
    (fs : DebugFs) (kvmstat : KvmStat) :
    kvmRefresh fs (needRefresh pmidlist) kvmstat = (refreshKvm fs kvmstat).1 := by
  rw [kvmRefresh, if_pos]
  rw [get_needRefresh]
  have hpos : 0 < pmidlist.countP fun idp : PmID => idp.cluster == CLUSTER_DEBUG :=
    List.countP_pos_iff.mpr ⟨_, h, beq_self_eq_true _⟩
  exact Nat.ne_of_gt hpos

theorem kvmFetch_eq_some {cpus ntrace : ℕ} {s s' : Pmda} {f : Fetch}
    (h : kvmFetch cpus ntrace s f = some s') :
    refreshKvmTrace cpus ntrace f.read s.cache = some s'.cache ∧
      s'.kvmstat = kvmRefresh f.debugfs (needRefresh f.pmidlist) s.kvmstat := by
  rw [kvmFetch] at h
  cases hc : refreshKvmTrace cpus ntrace f.read s.cache with
  | none => rw [hc] at h; simp at h
  | some cache =>
    rw [hc] at h
    simp only [Option.some.injEq] at h
    rw [← h]
    exact ⟨rfl, rfl⟩

/-- The instances are those of CPUs. -/
def CpuInstances (cpus : ℕ) (s : Pmda) : Prop :=
  ∀ name ∈ s.cache.names, ∃ i < cpus, instName i = name

theorem cpuInstances_kvmFetch {cpus ntrace : ℕ} {s s' : Pmda} {f : Fetch}
    (hs : CpuInstances cpus s) (h : kvmFetch cpus ntrace s f = some s') : CpuInstances cpus s' := by
  intro name hname
  have hspec := refreshKvmTrace_spec (kvmFetch_eq_some h).1
  exact ((hspec.names name).mp hname).elim (hs name) id

/-- What is delivered for a debug metric. -/
theorem deliver_debug {cpus ntrace : ℕ} {s s' : Pmda} {f : Fetch}
    (h : kvmFetch cpus ntrace s f = some s') {k : Fin DEBUG_SIZE}
    (hmem : ⟨CLUSTER_DEBUG, k⟩ ∈ f.pmidlist) (inst : ℕ) :
    kvmFetchCallBack s' ⟨CLUSTER_DEBUG, k⟩ inst =
      .value (((f.debugfs.linesRead.filterMap (lineFor k)).getLast?).getD (s.kvmstat.get k)) := by
  rw [kvmFetchCallBack_debug, (kvmFetch_eq_some h).2, kvmRefresh_of_mem hmem, slot_refreshKvm]

/-- What is delivered for a trace metric and the instance of a CPU. -/
theorem deliver_trace {cpus ntrace : ℕ} {s s' : Pmda} {f : Fetch}
    (h : kvmFetch cpus ntrace s f = some s') {i j : ℕ} (hi : i < cpus) (hj : j < ntrace) :
    ∃ inst va, s'.cache.lookup inst = some (instName i, va) ∧
      kvmFetchCallBack s' ⟨CLUSTER_TRACE, j⟩ inst =
        .value ((counterWord MAX_TRACE_NUM (f.read (lastSharing cpus i)) j).getD 0) := by
  have hspec := refreshKvmTrace_spec (kvmFetch_eq_some h).1
  obtain ⟨va, hva, hshows⟩ := hspec.shows i hi
  obtain ⟨inst, hinst⟩ := NameCache.exists_lookup_of_lookupName hva
  exact ⟨inst, va, hinst, kvmFetchCallBack_trace hinst (hshows j hj)⟩

/-- Whether what is delivered for a debug metric is valid. -/
theorem validDebug_iff {fs : DebugFs} {k : Fin DEBUG_SIZE} {old v : ℤ}
    (hv : v = ((fs.linesRead.filterMap (lineFor k)).getLast?).getD old) :
    ValidDebug fs k v ↔ k.val ≠ 10 ∧ ∃ line, (metricName k, line) ∈ fs.linesRead := by
  constructor
  · rintro ⟨hown, e, -, hslot, -⟩
    refine ⟨?_, hown⟩
    intro hten
    rw [show k = 10 from Fin.ext hten] at hslot
    exact debugSlot_ne_ten e.1 hslot
  · rintro ⟨hten, line, hline⟩
    have hk : k ≠ 10 := fun h => hten (congrArg Fin.val h)
    refine ⟨⟨line, hline⟩, ?_⟩
    -- the own file's line is among those for the slot, so the last one was read now
    have hown : atol line ∈ fs.linesRead.filterMap (lineFor k) :=
      List.mem_filterMap.mpr ⟨_, hline, by rw [lineFor, debugSlot_metricName, if_neg hk, if_pos rfl]⟩
    have hne := List.ne_nil_of_mem hown
    rw [List.getLast?_eq_some_getLast hne, Option.getD_some] at hv
    obtain ⟨e, he, hlast⟩ := List.mem_filterMap.mp (List.getLast_mem hne)
    rw [← hv, lineFor] at hlast
    split at hlast
    · next hslot => exact ⟨e, he, hslot, (Option.some.inj hlast).symm⟩
    · simp at hlast

/-- What is delivered for a trace metric is valid when the counters of all CPUs are
read. -/
theorem validTrace_of_read {cpus : ℕ} {names : List Name} {s s' : Pmda} {f : Fetch}
    (hs : CpuInstances cpus s) (h : kvmFetch cpus names.length s f = some s') {j : ℕ}
    (hj : j < names.length)
    (hread : ∀ i < cpus, ∃ w, counterWord MAX_TRACE_NUM (f.read i) j = some w) {inst : ℕ} {v : ℤ}
    (hcall : kvmFetchCallBack s' ⟨CLUSTER_TRACE, j⟩ inst = .value v) :
    ∃ name va, s'.cache.lookup inst = some (name, va) ∧ ValidTrace cpus f.read name j v := by
  cases hlook : s'.cache.lookup inst with
  | none =>
    rw [kvmFetchCallBack, if_pos rfl, hlook] at hcall
    simp at hcall
  | some entry =>
    obtain ⟨name, va⟩ := entry
    obtain ⟨i, hi, rfl⟩ := cpuInstances_kvmFetch hs h name (NameCache.mem_names_of_lookup hlook)
    have hspec := refreshKvmTrace_spec (kvmFetch_eq_some h).1
    obtain ⟨va', hva', hshows⟩ := hspec.shows i hi
    have hsame : va' = va := by
      rw [NameCache.lookupName_of_lookup hlook, Option.some.injEq] at hva'
      exact hva'.symm
    rw [hsame] at hshows
    -- the instance shows what was read for the last CPU with its name
    obtain ⟨w, hw⟩ := hread (lastSharing cpus i) (lastSharing_lt hi)
    rw [kvmFetchCallBack_trace hlook (hshows j hj), FetchResult.value.injEq, hw,
      Option.getD_some] at hcall
    subst hcall
    exact ⟨_, va, rfl, fun i' hi' _ => hread i' hi', lastSharing cpus i, lastSharing_lt hi,
      instName_lastSharing hi, hw⟩

/-- **One fetch delivers valid data only, exactly when the sources are read**: the
callback looks at the state alone, which does not say where a value comes from. -/
theorem valid_kvmFetch_iff {cpus : ℕ} (names : List Name) {s s' : Pmda} {f : Fetch}
    (hs : CpuInstances cpus s) (h : kvmFetch cpus names.length s f = some s') :
    (∀ pmid inst v, Delivers names f s' pmid inst v → Valid cpus f s' pmid inst v) ↔
      SourcesRead cpus names f := by
  constructor
  · intro hvalid
    refine ⟨fun k hk => ?_, fun j hj hmem i hi => ?_⟩
    · have hcall := deliver_debug h hk 0
      rcases hvalid _ 0 _ ⟨hk, mem_registered_debug names k, hcall⟩ with
        ⟨k', hpmid, hdebug⟩ | ⟨j, name, va, hpmid, -⟩
      · have hkk : k = k' := Fin.ext (PmID.mk.inj hpmid).2
        subst hkk
        exact (validDebug_iff rfl).mp hdebug
      -- the two clusters have no metric in common
      · exact absurd (PmID.mk.inj hpmid).1 (by decide)
    · obtain ⟨inst, va, hinst, hcall⟩ := deliver_trace h hi hj
      rcases hvalid _ inst _ ⟨hmem, mem_registered_trace hj, hcall⟩ with
        ⟨k, hpmid, -⟩ | ⟨j', name, va', hpmid, hlook, hread, -⟩
      · exact absurd (PmID.mk.inj hpmid).1 (by decide)
      · have hname : instName i = name := by
          rw [hinst, Option.some.injEq] at hlook
          exact (Prod.mk.inj hlook).1
        have hjj : j = j' := (PmID.mk.inj hpmid).2
        subst hjj
        exact hread i hi hname
  · rintro ⟨hdebug, htrace⟩ pmid inst v ⟨hmem, hreg, hcall⟩
    rcases cases_of_mem_registered hreg with ⟨k, rfl⟩ | ⟨j, hj, rfl⟩
    · rw [deliver_debug h hmem, FetchResult.value.injEq] at hcall
      exact Or.inl ⟨k, rfl, (validDebug_iff hcall.symm).mpr (hdebug k hmem)⟩
    · obtain ⟨name, va, hlook, hread⟩ := validTrace_of_read hs h hj (htrace j hj hmem) hcall
      exact Or.inr ⟨j, name, va, rfl, hlook, hread⟩

/-! ### Runs -/

/-- A fetch stays inside the tables exactly when the names leave a slot for the
count, or there is no CPU. -/
theorem exists_kvmFetch_iff (cpus ntrace : ℕ) (s : Pmda) (f : Fetch) :
    (∃ s', kvmFetch cpus ntrace s f = some s') ↔ (0 < cpus → ntrace < MAX_TRACE_NUM) := by
  constructor
  · rintro ⟨s', h⟩ hcpus
    exact lt_of_refreshKvmTrace hcpus (kvmFetch_eq_some h).1
  · intro hn
    have hcache : ∃ cache, refreshKvmTrace cpus ntrace f.read s.cache = some cache := by
      rcases Nat.eq_zero_or_pos cpus with rfl | hcpus
      · exact ⟨s.cache, rfl⟩
      · exact refreshKvmTrace_ok cpus (hn hcpus) f.read s.cache
    obtain ⟨cache, hcache⟩ := hcache
    exact ⟨_, by rw [kvmFetch, hcache]⟩

theorem allValid_iff_of_cpuInstances {cpus : ℕ} {names : List Name} (fetches : List Fetch) {s : Pmda}
    (hs : CpuInstances cpus s) : AllValid cpus names fetches s ↔
      (fetches ≠ [] → 0 < cpus → names.length < MAX_TRACE_NUM) ∧
        ∀ f ∈ fetches, SourcesRead cpus names f := by
  induction fetches generalizing s with
  | nil => simp [AllValid]
  | cons f fs ih =>
    rw [AllValid]
    constructor
    · rintro ⟨s', hf, hvalid, hrest⟩
      refine ⟨fun _ => (exists_kvmFetch_iff cpus names.length s f).mp ⟨s', hf⟩, ?_⟩
      intro g hg
      rcases List.mem_cons.mp hg with rfl | hg
      · exact (valid_kvmFetch_iff names hs hf).mp hvalid
      · exact ((ih (cpuInstances_kvmFetch hs hf)).mp hrest).2 g hg
    · rintro ⟨hbound, hread⟩
      have hn := hbound (by simp)
      obtain ⟨s', hf⟩ := (exists_kvmFetch_iff cpus names.length s f).mpr hn
      refine ⟨s', hf, (valid_kvmFetch_iff names hs hf).mpr (hread f List.mem_cons_self), ?_⟩
      exact (ih (cpuInstances_kvmFetch hs hf)).mpr
        ⟨fun _ => hn, fun g hg => hread g (List.mem_cons_of_mem _ hg)⟩

theorem cpuInstances_init (cpus : ℕ) : CpuInstances cpus Pmda.init := by
  intro name hname
  simp [Pmda.init] at hname

/-- **A run of fetches delivers valid data only, exactly when** the sources of all
requested metrics are read in every fetch, and the names leave a slot for the count.
Whatever fails, the callback answers with what is there. -/
theorem allValid_iff (cpus : ℕ) (names : List Name) (fetches : List Fetch) :
    AllValid cpus names fetches Pmda.init ↔
      (fetches ≠ [] → 0 < cpus → names.length < MAX_TRACE_NUM) ∧
        ∀ f ∈ fetches, SourcesRead cpus names f :=
  allValid_iff_of_cpuInstances fetches (cpuInstances_init cpus)

/-- Two fetches of `kvmstat.efer_reload`; the directory cannot be opened in the
second. -/
def failingFetches : List Fetch :=
  [⟨[⟨CLUSTER_DEBUG, 0⟩], .ok [("efer_reload".toList, .ok "5\n".toList)], fun _ => none⟩,
   ⟨[⟨CLUSTER_DEBUG, 0⟩], .error ⟨13, by decide⟩, fun _ => none⟩]

/-- The value of the first fetch is delivered as valid in the second. -/
theorem not_allValid_failingFetches : ¬ AllValid 1 [] failingFetches Pmda.init := by
  rintro ⟨s₁, h₁, -, s₂, h₂, hvalid, -⟩
  have hs := cpuInstances_kvmFetch (cpuInstances_init 1) h₁
  obtain ⟨hdebug, -⟩ := (valid_kvmFetch_iff [] hs h₂).mp hvalid
  obtain ⟨-, line, hline⟩ := hdebug 0 (by decide)
  simp [DebugFs.linesRead] at hline

end LinuxNote.Kvmstat
