import LinuxNote.Kvmstat.Pmda
import Mathlib.Data.List.Nodup

/-!
# kvmstat: which file a debug metric reports

The chain of `refresh_kvm` compares as many characters as its own names have, so
it takes a file for every metric whose name the file's name *starts* with.  A
directory is harmless when no file name extends a metric name; `insn_emulation_fail`
itself extends `insn_emulation`.

* `listing` — a directory in which every entry can be opened.
* `SlotsRight` — every slot holds the number in the metric's own file, or is left
  alone, and the order of the entries does not matter.
* `slotsRight_iff` — **the slots are right for all contents exactly when** no
  entry's name properly extends a metric name.
-/

namespace LinuxNote.Kvmstat

open CText

/-- The directory with the entries `names`, all of which can be opened. -/
def listing (names : List Name) (contents : Name → List Char) : DebugFs :=
  .ok (names.map fun n => (n, .ok (contents n)))

/-- What slot `k` should hold after a refresh: the number on the first line of the
metric's own file, or what it held before if there is no such line. -/
def slotValue (names : List Name) (contents : Name → List Char) (kvm : KvmStat)
    (k : Fin DEBUG_SIZE) : ℤ :=
  if metricName k ∈ names then
    ((firstLine (contents (metricName k))).map atol).getD (kvm.get k)
  else kvm.get k

/-- The slots are right: for all contents and every prior state the refresh succeeds,
each slot and the value fetched for it are the metric's own, and no other order of the
entries gives another state. -/
def SlotsRight (names : List Name) : Prop :=
  ∀ (contents : Name → List Char) (kvm : KvmStat),
    (refreshKvm (listing names contents) kvm).2 = 0 ∧
    (∀ k : Fin DEBUG_SIZE,
      (refreshKvm (listing names contents) kvm).1.get k = slotValue names contents kvm k ∧
      ∀ cache inst, kvmFetchCallBack ⟨(refreshKvm (listing names contents) kvm).1, cache⟩
        ⟨CLUSTER_DEBUG, k⟩ inst = .value (slotValue names contents kvm k)) ∧
    ∀ names', names'.Perm names →
      refreshKvm (listing names' contents) kvm = refreshKvm (listing names contents) kvm

/-! ### The lines a listing delivers -/

theorem refreshKvm_listing_sts (names : List Name) (contents : Name → List Char) (kvm : KvmStat) :
    (refreshKvm (listing names contents) kvm).2 = 0 := by
  have h := whileReaddir_refreshBody_sts 0 (names.map fun n => (n, contents n)) (kvm, 0)
  rw [List.map_map] at h
  exact h

/-- What one entry delivers for slot `k`. -/
def entryFor (contents : Name → List Char) (k : Fin DEBUG_SIZE) (n : Name) : Option ℤ :=
  if isHidden n = false ∧ debugSlot n = some k then (firstLine (contents n)).map atol else none

theorem filterMap_lineFor_linesRead (names : List Name) (contents : Name → List Char)
    (k : Fin DEBUG_SIZE) :
    (linesRead (names.map fun n => (n, .ok (contents n)))).filterMap (lineFor k) =
      names.filterMap (entryFor contents k) := by
  induction names with
  | nil => rfl
  | cons n names ih =>
    rw [List.map_cons, List.filterMap_cons, linesRead]
    by_cases hhid : isHidden n = true
    · have hentry : entryFor contents k n = none := by simp [entryFor, hhid]
      rw [if_pos hhid, hentry, ih]
    · rw [if_neg hhid]
      have hvis : isHidden n = false := by simpa using hhid
      cases hline : firstLine (contents n) with
      | none =>
        have hentry : entryFor contents k n = none := by simp [entryFor, hline]
        simp only [hentry, ih]
      | some line =>
        dsimp only
        rw [List.filterMap_cons, ih]
        by_cases hslot : debugSlot n = some k <;> simp [entryFor, lineFor, hline, hslot, hvis]

/-- **The slots after a refresh**: each keeps what the last entry sent to it delivers, be
it the file of its own metric or not. -/
theorem slot_refreshKvm_listing (names : List Name) (contents : Name → List Char) (kvm : KvmStat)
    (k : Fin DEBUG_SIZE) :
    (refreshKvm (listing names contents) kvm).1.get k =
      ((names.filterMap (entryFor contents k)).getLast?).getD (kvm.get k) := by
  rw [slot_refreshKvm, ← filterMap_lineFor_linesRead]
  rfl

/-! ### Harmless directories -/

/-- No entry's name properly extends a metric name.  The comparisons of the chain look at
the beginning of a name only, so such an entry is taken for the metric. -/
def NoExtension (names : List Name) : Prop :=
  ∀ n ∈ names, ∀ k, metricName k <+: n → n = metricName k

/-- Without repetitions, at most one entry can deliver something that only `a`
delivers. -/
theorem filterMap_of_only {α β : Type*} [DecidableEq α] {f : α → Option β} {a : α} {l : List α}
    (hl : l.Nodup) (hf : ∀ n ∈ l, n ≠ a → f n = none) :
    l.filterMap f = if a ∈ l then (f a).toList else [] := by
  induction l with
  | nil => rfl
  | cons n l ih =>
    obtain ⟨hn, hl'⟩ := List.nodup_cons.mp hl
    have ih' := ih hl' fun m hm => hf m (List.mem_cons_of_mem _ hm)
    by_cases hna : n = a
    · subst hna
      rw [if_neg hn] at ih'
      rw [List.filterMap_cons, ih', if_pos List.mem_cons_self]
      cases f n <;> rfl
    · have hmem : a ∈ n :: l ↔ a ∈ l := by
        rw [List.mem_cons]
        exact or_iff_right fun h => hna h.symm
      rw [List.filterMap_cons, hf n List.mem_cons_self hna, ih']
      simp only [hmem]

/-- A metric's own file is read into its own slot when nothing extends a metric
name. -/
theorem entryFor_metricName {names : List Name} (h : NoExtension names) {k : Fin DEBUG_SIZE}
    (hk : metricName k ∈ names) (contents : Name → List Char) :
    entryFor contents k (metricName k) = (firstLine (contents (metricName k))).map atol := by
  have hten : k ≠ 10 := by
    rintro rfl
    have hext := h _ hk 9 (startsWith_iff.mp (by decide))
    exact absurd hext (by decide)
  rw [entryFor, if_pos ⟨metricName_not_hidden k, by rw [debugSlot_metricName, if_neg hten]⟩]

theorem slot_of_noExtension {names : List Name} (hnodup : names.Nodup) (h : NoExtension names)
    (contents : Name → List Char) (kvm : KvmStat) (k : Fin DEBUG_SIZE) :
    (refreshKvm (listing names contents) kvm).1.get k = slotValue names contents kvm k := by
  have honly : ∀ n ∈ names, n ≠ metricName k → entryFor contents k n = none := by
    intro n hn hne
    rw [entryFor, if_neg]
    rintro ⟨-, hslot⟩
    exact hne (h n hn k (prefix_of_debugSlot hslot))
  rw [slot_refreshKvm_listing, filterMap_of_only hnodup honly, slotValue]
  by_cases hk : metricName k ∈ names
  · rw [if_pos hk, if_pos hk, entryFor_metricName h hk]
    cases firstLine (contents (metricName k)) <;> rfl
  · rw [if_neg hk, if_neg hk]
    rfl

/-! ### Directories that do harm -/

/-- What extends a metric name is not hidden. -/
theorem not_hidden_of_extends {n : Name} {k : Fin DEBUG_SIZE} (h : metricName k <+: n) :
    isHidden n = false := by
  obtain ⟨t, rfl⟩ := h
  obtain ⟨c, s, hcs⟩ := List.exists_cons_of_ne_nil (metricName_ne_nil k)
  have hhid := metricName_not_hidden k
  rw [hcs] at hhid
  rw [hcs]
  exact hhid

/-- The slot an extension is sent to is another metric's. -/
theorem metricName_ne_of_debugSlot {n : Name} {k k' : Fin DEBUG_SIZE} (h : metricName k <+: n)
    (hne : n ≠ metricName k) (hslot : debugSlot n = some k') : metricName k' ≠ n := by
  rintro rfl
  rcases metricName_prefix k k' (startsWith_iff.mpr h) with rfl | ⟨-, rfl⟩
  · exact hne rfl
  · exact debugSlot_ne_ten _ hslot

/-- **An extension spoils a slot**: if its file alone has a line, the slot of another
metric changes, though the file of that metric is empty or not there. -/
theorem not_slotsRight {names : List Name} (hext : ¬ NoExtension names) : ¬ SlotsRight names := by
  rw [NoExtension] at hext
  push Not at hext
  obtain ⟨n, hn, k, hpre, hne⟩ := hext
  obtain ⟨k', hslot⟩ := exists_debugSlot hpre
  intro hright
  let contents : Name → List Char := fun m => if m = n then "1\n".toList else []
  let zero : KvmStat := Vector.replicate DEBUG_SIZE 0
  have hwrong := ((hright contents zero).2.1 k').1
  have hfile : firstLine (contents n) = some "1\n".toList := by
    have hself : contents n = "1\n".toList := if_pos rfl
    rw [hself]
    decide +kernel
  have hempty : ∀ m, m ≠ n → firstLine (contents m) = none := by
    intro m hm
    have hnil : contents m = [] := if_neg hm
    rw [hnil]
    rfl
  -- every line that reaches the slot is the one of `n`
  have hone : ∀ v ∈ names.filterMap (entryFor contents k'), v = 1 := by
    intro v hv
    obtain ⟨m, -, hm⟩ := List.mem_filterMap.mp hv
    by_cases hmn : m = n
    · rw [hmn, entryFor, if_pos ⟨not_hidden_of_extends hpre, hslot⟩, hfile, Option.map_some,
        Option.some.injEq] at hm
      rw [← hm]
      decide
    · rw [entryFor, hempty m hmn, Option.map_none, ite_self] at hm
      exact absurd hm (by simp)
  have hmem : (1 : ℤ) ∈ names.filterMap (entryFor contents k') := by
    refine List.mem_filterMap.mpr ⟨n, hn, ?_⟩
    rw [entryFor, if_pos ⟨not_hidden_of_extends hpre, hslot⟩, hfile, Option.map_some]
    decide
  have hlast : (names.filterMap (entryFor contents k')).getLast? = some 1 := by
    have hne' := List.ne_nil_of_mem hmem
    rw [List.getLast?_eq_some_getLast hne', hone _ (List.getLast_mem hne')]
  have hzero : zero.get k' = 0 := Vector.getElem_replicate k'.isLt
  have hval : slotValue names contents zero k' = 0 := by
    rw [slotValue, hempty _ (metricName_ne_of_debugSlot hpre hne hslot), hzero]
    exact ite_self _
  rw [slot_refreshKvm_listing, hlast, hval, Option.getD_some] at hwrong
  exact absurd hwrong (by decide)

/-- **The slots are right for all contents exactly when no entry's name properly extends
a metric name.** Then each line is read from the file of a metric, and two metrics never
share a slot. -/
theorem slotsRight_iff {names : List Name} (hnodup : names.Nodup) :
    SlotsRight names ↔ ∀ n ∈ names, ∀ k, metricName k <+: n → n = metricName k := by
  constructor
  · intro hright
    by_contra hext
    exact not_slotsRight hext hright
  · intro h contents kvm
    have hslot := slot_of_noExtension hnodup h contents kvm
    refine ⟨refreshKvm_listing_sts names contents kvm, fun k => ⟨hslot k, ?_⟩, ?_⟩
    · intro cache inst
      rw [kvmFetchCallBack_debug, hslot k]
    · intro names' hperm
      have h' : NoExtension names' := fun n hn => h n (hperm.mem_iff.mp hn)
      refine Prod.ext (Vector.ext fun i hi => ?_) ?_
      · have hslot' := slot_of_noExtension (hperm.nodup_iff.mpr hnodup) h' contents kvm ⟨i, hi⟩
        have hsame : slotValue names' contents kvm ⟨i, hi⟩ = slotValue names contents kvm ⟨i, hi⟩ := by
          simp only [slotValue, hperm.mem_iff]
        exact hslot'.trans (hsame.trans (hslot ⟨i, hi⟩).symm)
      · rw [refreshKvm_listing_sts, refreshKvm_listing_sts]

/-- A directory of an old kernel, without the failure counter. -/
theorem slotsRight_small :
    SlotsRight [".".toList, "..".toList, "tlb_flush".toList, "exits".toList, "vm".toList] :=
  (slotsRight_iff (by decide)).mpr (by
    simp only [← startsWith_iff]
    decide +kernel)

/-- The failures to emulate are counted in the slot of the emulations. -/
theorem not_slotsRight_insn_emulation_fail :
    ¬ SlotsRight [".".toList, "..".toList, "insn_emulation".toList, "insn_emulation_fail".toList] := by
  refine not_slotsRight fun h => ?_
  have hext := h "insn_emulation_fail".toList (by decide) 9 (startsWith_iff.mp (by decide))
  exact absurd hext (by decide)

end LinuxNote.Kvmstat
