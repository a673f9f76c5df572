import LinuxNote.Kvmstat.Debug
import LinuxNote.Kvmstat.Refresh

/-!
# kvmstat: the PMDA's state and what it delivers

The static state of `kvmstat.c`, the metrics `kvmstat_init` registers and
`kvm_fetchCallBack`, which `pmdaFetch` calls for each metric and instance.

* `PmID`, `Pmda` — metric identifiers and the state.
* `traceNodes`, `registered` — what `kvmstat_init` registers.
* `kvmFetchCallBack` — the source.
-/

namespace LinuxNote.Kvmstat

open CText

/-- `CLUSTER_DEBUG`. -/
def CLUSTER_DEBUG : ℕ := 0

/-- `CLUSTER_TRACE`. -/
def CLUSTER_TRACE : ℕ := 1

/-- `NUM_CLUSTERS`. -/
def NUM_CLUSTERS : ℕ := 2

/-- `MAXPATHLEN`. -/
def MAXPATHLEN : ℕ := 4096

/-- A metric identifier within the PMDA's domain. -/
structure PmID where
  cluster : ℕ
  item : ℕ
  deriving DecidableEq

/-- The state the fetches work on: `kvmstat` and the cache of the trace instance domain,
both of which stay from one fetch to the next. -/
structure Pmda where
  kvmstat : KvmStat
  cache : NameCache TraceValue

/-- The state at start-up: static storage is zero. -/
def Pmda.init : Pmda := ⟨Vector.replicate DEBUG_SIZE 0, NameCache.empty⟩

/-- The nodes `kvmstat_init` adds to the dynamic name space: item `m` of the trace
cluster under `kvmstat.trace.<trace_nametab[m]>`. -/
def traceNodes (names : List Name) : List (Name × PmID) :=
  (List.range names.length).map fun m =>
    (snprintf MAXPATHLEN ("kvmstat.trace.".toList ++ traceName names m), ⟨CLUSTER_TRACE, m⟩)

/-- The identifiers in `metrictab_t`. -/
def registered (names : List Name) : List PmID :=
  (List.range DEBUG_SIZE).map (PmID.mk CLUSTER_DEBUG) ++ (traceNodes names).map Prod.snd

/-- What the callback returns: `1` with a value in `atom`, one of its two errors,
or nothing, when it reads outside the table of an instance. -/
inductive FetchResult
  | value (v : ℤ)
  | errInst
  | errPmid
  | outOfTable
  deriving DecidableEq

/-- `kvm_fetchCallBack(mdesc, inst, atom)`, which returns what is stored for the metric.
The inner `switch` of the debug cluster has one case for each slot of `kvmstat_t`. -/
def kvmFetchCallBack (s : Pmda) (pmid : PmID) (inst : ℕ) : FetchResult :=
  if pmid.cluster = CLUSTER_TRACE then
    match s.cache.lookup inst with
    | none => .errInst
    | some (_, va) =>
      match va[pmid.item]? with
      | some v => .value v
      | none => .outOfTable
  else if pmid.cluster = CLUSTER_DEBUG then
    match s.kvmstat[pmid.item]? with
    | some v => .value v
    | none => .errPmid
  else .errPmid

@[simp] theorem length_traceNodes (names : List Name) :
    (traceNodes names).length = names.length := by
  simp [traceNodes]

/-- The node at position `j` has item `j`. -/
theorem snd_of_traceNodes {names : List Name} {j : ℕ} {node : Name × PmID}
    (h : (traceNodes names)[j]? = some node) : j < names.length ∧ node.2 = ⟨CLUSTER_TRACE, j⟩ := by
  have hj : j < names.length := by
    rw [← length_traceNodes names]
    exact (List.getElem?_eq_some_iff.mp h).1
  rw [traceNodes, List.getElem?_map, List.getElem?_range hj, Option.map_some,
    Option.some.injEq] at h
  exact ⟨hj, by rw [← h]⟩

theorem exists_traceNode {names : List Name} {j : ℕ} (hj : j < names.length) :
    ∃ node, (traceNodes names)[j]? = some node := by
  rw [← length_traceNodes names] at hj
  exact ⟨_, List.getElem?_eq_getElem hj⟩

/-- A debug item delivers its slot. -/
theorem kvmFetchCallBack_debug (s : Pmda) (k : Fin DEBUG_SIZE) (inst : ℕ) :
    kvmFetchCallBack s ⟨CLUSTER_DEBUG, k⟩ inst = .value (s.kvmstat.get k) := by
  rw [kvmFetchCallBack, if_neg (show ¬ CLUSTER_DEBUG = CLUSTER_TRACE by decide), if_pos rfl]
  have hget : s.kvmstat[k.val]? = some (s.kvmstat.get k) := Vector.getElem?_eq_getElem k.isLt
  rw [hget]

/-- A trace item delivers the slot of the instance. -/
theorem kvmFetchCallBack_trace {s : Pmda} {inst item : ℕ} {name : Name} {va : TraceValue} {v : ℤ}
    (h : s.cache.lookup inst = some (name, va)) (hv : va[item]? = some v) :
    kvmFetchCallBack s ⟨CLUSTER_TRACE, item⟩ inst = .value v := by
  rw [kvmFetchCallBack, if_pos rfl, h]
  simp only [hv]

theorem mem_registered_debug (names : List Name) (k : Fin DEBUG_SIZE) :
    ⟨CLUSTER_DEBUG, k⟩ ∈ registered names :=
  List.mem_append_left _ (List.mem_map.mpr ⟨k, List.mem_range.mpr k.isLt, rfl⟩)

theorem mem_registered_trace {names : List Name} {j : ℕ} (hj : j < names.length) :
    ⟨CLUSTER_TRACE, j⟩ ∈ registered names := by
  refine List.mem_append_right _ (List.mem_map.mpr ?_)
  exact ⟨_, List.mem_map.mpr ⟨j, List.mem_range.mpr hj, rfl⟩, rfl⟩

/-- The registered metrics are the items of the two clusters. -/
theorem cases_of_mem_registered {names : List Name} {pmid : PmID} (h : pmid ∈ registered names) :
    (∃ k : Fin DEBUG_SIZE, pmid = ⟨CLUSTER_DEBUG, k⟩) ∨
      ∃ j < names.length, pmid = ⟨CLUSTER_TRACE, j⟩ := by
  rcases List.mem_append.mp h with h | h
  · obtain ⟨k, hk, rfl⟩ := List.mem_map.mp h
    exact Or.inl ⟨⟨k, List.mem_range.mp hk⟩, rfl⟩
  · obtain ⟨node, hnode, rfl⟩ := List.mem_map.mp h
    obtain ⟨j, hj⟩ := List.mem_iff_getElem?.mp hnode
    obtain ⟨hlt, heq⟩ := snd_of_traceNodes hj
    exact Or.inr ⟨j, hlt, heq⟩

end LinuxNote.Kvmstat
