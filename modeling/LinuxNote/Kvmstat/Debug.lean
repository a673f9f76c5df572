import LinuxNote.Base.CText
import LinuxNote.Base.Readdir
import LinuxNote.PerfEvent
import Mathlib.Data.PNat.Notation

/-!
# kvmstat: the debug counters

`refresh_kvm` of `kvm_debug.c`.  It walks `/sys/kernel/debug/kvm` and decides by a
chain of length-limited comparisons which of the 34 slots of `kvmstat_t` a file
belongs to; the slot gets the number on the file's first line.

* `debugChain`, `debugSlot` — the chain, and the slot it sends a file name to.
* `pmnsDebug`, `metricName` — the metric names of the file `pmns`.
* `refreshKvm` — the source.
* `slot_refreshKvm` — the state it leaves: each slot keeps the number of the last
  line read for it.
* `prefix_of_debugSlot`, `debugSlot_metricName` — what the chain does to names.
-/

namespace LinuxNote.Kvmstat

open CText Readdir

/-! ### The tables -/

/-- The number of slots of `kvmstat_t`. -/
abbrev DEBUG_SIZE : ℕ := 34

/-- `kvmstat_t`. -/
abbrev KvmStat := Vector ℤ DEBUG_SIZE

/-- One link `if (!strncmp(de->d_name, name, len)) kvm->debug[slot] = …` of the
chain. -/
structure DebugCase where
  name : String
  len : ℕ
  slot : Fin DEBUG_SIZE
  deriving DecidableEq

/-- The chain of `refresh_kvm`, in its order. -/
def debugChain : List DebugCase :=
  [⟨"efer_reload", 11, 0⟩, ⟨"exits", 5, 1⟩, ⟨"fpu_reload", 10, 2⟩,
   ⟨"halt_attempted_poll", 19, 3⟩, ⟨"halt_exits", 10, 4⟩, ⟨"halt_successful_poll", 20, 5⟩,
   ⟨"halt_wakeup", 11, 6⟩, ⟨"host_state_reload", 17, 7⟩, ⟨"hypercalls", 10, 8⟩,
   ⟨"insn_emulation", 14, 9⟩, ⟨"insn_emulation_fail", 19, 10⟩, ⟨"invlpg", 6, 11⟩,
   ⟨"io_exits", 8, 12⟩, ⟨"irq_exits", 9, 13⟩, ⟨"irq_injections", 14, 14⟩,
   ⟨"irq_window", 10, 15⟩, ⟨"largepages", 10, 16⟩, ⟨"mmio_exits", 10, 17⟩,
   ⟨"mmu_cache_miss", 14, 18⟩, ⟨"mmu_flooded", 11, 19⟩, ⟨"mmu_pde_zapped", 14, 20⟩,
   ⟨"mmu_pte_updated", 15, 21⟩, ⟨"mmu_pte_write", 13, 22⟩, ⟨"mmu_recycled", 12, 23⟩,
   ⟨"mmu_shadow_zapped", 17, 24⟩, ⟨"mmu_unsync", 10, 25⟩, ⟨"nmi_injections", 14, 26⟩,
   ⟨"nmi_window", 10, 27⟩, ⟨"pf_fixed", 8, 28⟩, ⟨"pf_guest", 8, 29⟩,
   ⟨"remote_tlb_flush", 16, 30⟩, ⟨"request_irq", 11, 31⟩, ⟨"signal_exits", 12, 32⟩,
   ⟨"tlb_flush", 9, 33⟩]

/-- The slot the chain sends a file to: that of the first link whose comparison, over a
fixed number of characters, says that the names are equal. -/
def debugSlot (dName : Name) : Option (Fin DEBUG_SIZE) :=
  (debugChain.find? fun c => strncmpEq dName c.name.toList c.len).map DebugCase.slot

/-- The lines `name 260:0:item` of `pmns`. -/
def pmnsDebug : List (String × ℕ) :=
  [("efer_reload", 0), ("exits", 1), ("fpu_reload", 2), ("halt_attempted_poll", 3),
   ("halt_exits", 4), ("halt_successful_poll", 5), ("halt_wakeup", 6), ("host_state_reload", 7),
   ("hypercalls", 8), ("insn_emulation", 9), ("insn_emulation_fail", 10), ("invlpg", 11),
   ("io_exits", 12), ("irq_exits", 13), ("irq_injections", 14), ("irq_window", 15),
   ("largepages", 16), ("mmio_exits", 17), ("mmu_cache_miss", 18), ("mmu_flooded", 19),
   ("mmu_pde_zapped", 20), ("mmu_pte_updated", 21), ("mmu_pte_write", 22), ("mmu_recycled", 23),
   ("mmu_shadow_zapped", 24), ("mmu_unsync", 25), ("nmi_injections", 26), ("nmi_window", 27),
   ("pf_fixed", 28), ("pf_guest", 29), ("remote_tlb_flush", 30), ("request_irq", 31),
   ("signal_exits", 32), ("tlb_flush", 33)]

/-- The metric name of an item of the debug cluster. -/
def metricName (k : Fin DEBUG_SIZE) : Name :=
  match pmnsDebug.find? fun e => e.2 == k.val with
  | some e => e.1.toList
  | none => []

/-! ### The source -/

/-- `oserror()`. -/
abbrev Errno := ℕ+

/-- `/sys/kernel/debug/kvm` as one refresh finds it: `opendir` fails, or there are
entries in `readdir` order, each with its contents or the error `fopen` fails
with. -/
abbrev DebugFs := Except Errno (List (Name × Except Errno (List Char)))

/-- `while (fgets(buffer, BUFSIZ, fp) != NULL)` with the chain as its body: the first
line of a file is stored and ends the loop, while a file that no link knows is read to
its end for nothing. -/
def scanFile (dName : Name) : List (List Char) → KvmStat → KvmStat
  | [], kvm => kvm
  | buffer :: rest, kvm =>
    match debugSlot dName with
    | some k => kvm.set k (atol buffer)
    | none => scanFile dName rest kvm

/-- Hidden entries are skipped. -/
def isHidden (dName : Name) : Bool := strncmpEq dName ".".toList 1

/-- The body of the `readdir` loop, on `kvm` and `sts`; a file that cannot be opened ends
the refresh, and the slots of the files behind it keep what they had. -/
def refreshBody (_pos : ℕ) (de : Name × Except Errno (List Char)) (s : KvmStat × ℤ) :
    Flow (KvmStat × ℤ) :=
  if isHidden de.1 then .next s
  else
    match de.2 with
    | .error e => .stop (s.1, -(e : ℤ))
    | .ok contents => .next (scanFile de.1 (fgetsAll BUFSIZ contents) s.1, s.2)

/-- `refresh_kvm(kvm)`: the new state, which a failure leaves half refreshed, and the
status, which says that there was one. -/
def refreshKvm (fs : DebugFs) (kvm : KvmStat) : KvmStat × ℤ :=
  match fs with
  | .error e => (kvm, -(e : ℤ))
  | .ok entries => whileReaddir refreshBody 0 entries (kvm, 0)

/-! ### What a refresh reads and stores -/

/-- The first line of a file, as much of it as the buffer takes. -/
def firstLine (contents : List Char) : Option (List Char) := (fgetsAll BUFSIZ contents).head?

/-- The files a refresh reads a line from: those before the first that cannot be
opened, without the hidden and the empty ones. -/
def linesRead : List (Name × Except Errno (List Char)) → List (Name × List Char)
  | [] => []
  | (name, file) :: rest =>
    if isHidden name then linesRead rest
    else
      match file with
      | .error _ => []
      | .ok contents =>
        match firstLine contents with
        | none => linesRead rest
        | some line => (name, line) :: linesRead rest

/-- The lines a refresh reads, each with the name of its file. -/
def DebugFs.linesRead : DebugFs → List (Name × List Char)
  | .error _ => []
  | .ok entries => Kvmstat.linesRead entries

/-- The assignment a line leads to. -/
def storeLine (kvm : KvmStat) (e : Name × List Char) : KvmStat :=
  match debugSlot e.1 with
  | some k => kvm.set k (atol e.2)
  | none => kvm

/-- The number a line holds for slot `k`, if it is sent there. -/
def lineFor (k : Fin DEBUG_SIZE) (e : Name × List Char) : Option ℤ :=
  if debugSlot e.1 = some k then some (atol e.2) else none

/-- Only the first line of a file counts. -/
theorem scanFile_eq (dName : Name) (buffers : List (List Char)) (kvm : KvmStat) :
    scanFile dName buffers kvm =
      match buffers.head? with
      | none => kvm
      | some line => storeLine kvm (dName, line) := by
  induction buffers generalizing kvm with
  | nil => rfl
  | cons buffer rest ih =>
    change _ = storeLine kvm (dName, buffer)
    rw [scanFile, storeLine]
    cases hslot : debugSlot dName with
    | some k => rfl
    | none =>
      rw [ih]
      cases rest.head? <;> simp [storeLine, hslot]

/-- **What a refresh does**: it stores the lines it reads, in order, so a later file
overwrites what an earlier one has put into the same slot. -/
theorem whileReaddir_refreshBody (pos : ℕ) (entries : List (Name × Except Errno (List Char)))
    (s : KvmStat × ℤ) :
    (whileReaddir refreshBody pos entries s).1 = (linesRead entries).foldl storeLine s.1 := by
  induction entries generalizing pos s with
  | nil => rfl
  | cons de rest ih =>
    obtain ⟨name, file⟩ := de
    simp only [linesRead]
    by_cases hhid : isHidden name = true
    · have hbody : refreshBody (pos + 1) (name, file) s = .next s := by simp [refreshBody, hhid]
      rw [whileReaddir_cons_next hbody, ih, if_pos hhid]
    · rw [if_neg hhid]
      cases file with
      | error e =>
        have hbody : refreshBody (pos + 1) (name, .error e) s = .stop (s.1, -(e : ℤ)) := by
          simp [refreshBody, hhid]
        rw [whileReaddir_cons_stop hbody]
        rfl
      | ok contents =>
        have hbody : refreshBody (pos + 1) (name, .ok contents) s =
            .next (scanFile name (fgetsAll BUFSIZ contents) s.1, s.2) := by
          simp [refreshBody, hhid]
        rw [whileReaddir_cons_next hbody, ih, scanFile_eq]
        rw [← firstLine]
        dsimp only
        cases firstLine contents <;> rfl

/-- When every entry can be opened, the status is `0`. -/
theorem whileReaddir_refreshBody_sts (pos : ℕ) (entries : List (Name × List Char)) (s : KvmStat × ℤ) :
    (whileReaddir refreshBody pos (entries.map fun e => (e.1, .ok e.2)) s).2 = s.2 := by
  induction entries generalizing pos s with
  | nil => rfl
  | cons e rest ih =>
    rw [List.map_cons]
    by_cases hhid : isHidden e.1 = true
    · have hbody : refreshBody (pos + 1) (e.1, .ok e.2) s = .next s := by simp [refreshBody, hhid]
      rw [whileReaddir_cons_next hbody, ih]
    · have hbody : refreshBody (pos + 1) (e.1, .ok e.2) s =
          .next (scanFile e.1 (fgetsAll BUFSIZ e.2) s.1, s.2) := by
        simp [refreshBody, hhid]
      rw [whileReaddir_cons_next hbody, ih]

/-- Each slot keeps the number of the last line sent to it. -/
theorem slot_foldl_storeLine (k : Fin DEBUG_SIZE) (es : List (Name × List Char)) (kvm : KvmStat) :
    (es.foldl storeLine kvm).get k = ((es.filterMap (lineFor k)).getLast?).getD (kvm.get k) := by
  induction es generalizing kvm with
  | nil => rfl
  | cons e es ih =>
    rw [List.foldl_cons, ih, List.filterMap_cons]
    cases hslot : debugSlot e.1 with
    | none => simp [storeLine, lineFor, hslot]
    | some k' =>
      by_cases hk : k' = k
      · subst hk
        have hget : (kvm.set k' (atol e.2)).get k' = atol e.2 := Vector.getElem_set_self k'.isLt
        simp [storeLine, lineFor, hslot, List.getLast?_cons, hget]
      · have hval : k'.val ≠ k.val := fun h => hk (Fin.ext h)
        have hget : (kvm.set k' (atol e.2)).get k = kvm.get k :=
          Vector.getElem_set_ne k'.isLt k.isLt hval
        simp [storeLine, lineFor, hslot, hk, hget]

/-- **The slots after a refresh**: each keeps the number of the last line read for it, or
what it held before if no line was. -/
theorem slot_refreshKvm (fs : DebugFs) (kvm : KvmStat) (k : Fin DEBUG_SIZE) :
    (refreshKvm fs kvm).1.get k = ((fs.linesRead.filterMap (lineFor k)).getLast?).getD (kvm.get k) := by
  cases fs with
  | error e => rfl
  | ok entries =>
    have hstate : (refreshKvm (.ok entries) kvm).1 = (linesRead entries).foldl storeLine kvm :=
      whileReaddir_refreshBody 0 entries (kvm, 0)
    rw [hstate, slot_foldl_storeLine]
    rfl

/-! ### What the chain does to names -/

theorem debugChain_len : ∀ c ∈ debugChain, c.len = c.name.toList.length := by decide +kernel

theorem debugChain_name : ∀ c ∈ debugChain, c.name.toList = metricName c.slot := by decide +kernel

theorem metricName_slots : ∀ k : Fin DEBUG_SIZE, ∃ c ∈ debugChain, c.slot = k := by decide +kernel

/-- A metric name is not hidden, and neither is what extends it. -/
theorem metricName_not_hidden : ∀ k : Fin DEBUG_SIZE, isHidden (metricName k) = false := by decide +kernel

/-- One metric name extends another one only in the one pair. -/
theorem metricName_prefix : ∀ k k' : Fin DEBUG_SIZE,
    startsWith (metricName k') (metricName k) = true → k = k' ∨ k = 9 ∧ k' = 10 := by decide +kernel

/-- An empty name would start all the others. -/
theorem metricName_ne_nil (k : Fin DEBUG_SIZE) : metricName k ≠ [] := by
  intro hnil
  have hall : ∀ k', k = k' ∨ k = 9 ∧ k' = 10 := by
    intro k'
    refine metricName_prefix k k' (startsWith_iff.mpr ?_)
    rw [hnil]
    exact List.nil_prefix
  rcases hall 0 with rfl | ⟨rfl, h⟩
  · exact absurd (hall 1) (by decide)
  · exact absurd h (by decide)

/-- The test of a link is a prefix test. -/
theorem strncmpEq_debugCase {c : DebugCase} (hc : c ∈ debugChain) (dName : Name) :
    strncmpEq dName c.name.toList c.len = startsWith dName (metricName c.slot) := by
  rw [debugChain_len c hc, strncmpEq_length, debugChain_name c hc]

/-- A file is sent only to slots whose metric name its own name starts with. -/
theorem prefix_of_debugSlot {dName : Name} {k : Fin DEBUG_SIZE} (h : debugSlot dName = some k) :
    metricName k <+: dName := by
  rw [debugSlot, Option.map_eq_some_iff] at h
  obtain ⟨c, hfind, rfl⟩ := h
  have htest := List.find?_some hfind
  rw [strncmpEq_debugCase (List.mem_of_find?_eq_some hfind)] at htest
  exact startsWith_iff.mp htest

/-- A file whose name starts with a metric name is sent somewhere. -/
theorem exists_debugSlot {dName : Name} {k : Fin DEBUG_SIZE} (h : metricName k <+: dName) :
    ∃ k', debugSlot dName = some k' := by
  obtain ⟨c, hc, rfl⟩ := metricName_slots k
  have hsome : (debugChain.find? fun c => strncmpEq dName c.name.toList c.len).isSome = true := by
    rw [List.find?_isSome]
    exact ⟨c, hc, by rw [strncmpEq_debugCase hc]; exact startsWith_iff.mpr h⟩
  obtain ⟨c', hc'⟩ := Option.isSome_iff_exists.mp hsome
  exact ⟨c'.slot, by rw [debugSlot, hc']; rfl⟩

/-- No file goes to the slot of `insn_emulation_fail`: the shorter name catches
it first. -/
theorem debugSlot_ne_ten (dName : Name) : debugSlot dName ≠ some 10 := by
  intro h
  have hnine : startsWith dName (metricName 9) = true :=
    startsWith_iff.mpr (List.IsPrefix.trans (startsWith_iff.mp (by decide)) (prefix_of_debugSlot h))
  -- the first ten links contain the one for nine, so the chain stops among them
  let test : DebugCase → Bool := fun c => strncmpEq dName c.name.toList c.len
  have hfirst : ((debugChain.take 10).find? test).isSome = true := by
    rw [List.find?_isSome]
    refine ⟨⟨"insn_emulation", 14, 9⟩, by decide +kernel, ?_⟩
    show strncmpEq _ _ _ = true
    rw [strncmpEq_debugCase (c := ⟨"insn_emulation", 14, 9⟩) (by decide +kernel)]
    exact hnine
  obtain ⟨c, hc⟩ := Option.isSome_iff_exists.mp hfirst
  have hfind : debugChain.find? test = some c := by
    rw [← List.take_append_drop 10 debugChain, List.find?_append, hc]
    rfl
  have hslot : ∀ c ∈ debugChain.take 10, c.slot ≠ 10 := by decide +kernel
  rw [debugSlot, hfind, Option.map_some, Option.some.injEq] at h
  exact hslot c (List.mem_of_find?_eq_some hc) h

/-- **The slot a metric's own file is sent to**: its own, except for
`insn_emulation_fail`, which the chain takes for `insn_emulation`, as the shorter name is
compared first. -/
theorem debugSlot_metricName (k : Fin DEBUG_SIZE) :
    debugSlot (metricName k) = some (if k = 10 then 9 else k) := by
  obtain ⟨k', hk'⟩ := exists_debugSlot (List.prefix_refl (metricName k))
  rw [hk', Option.some.injEq]
  rcases metricName_prefix k' k (startsWith_iff.mpr (prefix_of_debugSlot hk')) with rfl | ⟨rfl, rfl⟩
  · have hten : k' ≠ 10 := by
      rintro rfl
      exact debugSlot_ne_ten _ hk'
    rw [if_neg hten]
  · rfl

end LinuxNote.Kvmstat
