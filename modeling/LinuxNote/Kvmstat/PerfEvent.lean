import LinuxNote.PerfEvent

/-!
# kvmstat: opening the configured trace events

`perf_event` of `kvmstat.c`.  For every CPU and every configured name it walks
the tracefs directory until it meets the name, opens that event in the CPU's
group and rewinds the stream to an offset saved right after the very first
`readdir`.  So only the first name on the first CPU is searched in the whole
listing; every other search starts at the second entry.

* `perfEvent` — the triple loop.
* `visible`, `found`, `openings` — where a name is looked for, whether it is
  found, and the openings tried on a CPU.
* `groupsBuilt_perfEvent` — the groups `perf_event` leaves behind.
-/

namespace LinuxNote.Kvmstat

open CText PerfGroup Readdir

/-- The size of the tables of the PMDA. -/
def MAX_TRACE_NUM : ℕ := 200

section PerfEvent

variable (fs : Tracefs) (names : List Name) (opens : ℕ → ℕ → Bool)

/-! ### The source -/

/-- `trace_nametab[i]`. -/
def traceName (i : ℕ) : Name := names.getD i []

/-- The body of the `readdir` loop, for name `i` on a CPU. -/
def searchBody (cpu i pos : ℕ) (de : Name) (s : Opener) : Flow Opener :=
  let s := saveOffset pos s
  if isEvent de then
    if de = traceName names i then
      .stop (addEvent (readConfig MAX_TRACE_NUM fs de) cpu (opens cpu i) s)
    else .next s
  else .next s

/-- The search for name `i`, then `seekdir(kvm_dir, offset)`. -/
def searchName (cpu : ℕ) (s : Opener) (i : ℕ) : Opener :=
  let s := whileReaddir (searchBody fs names opens cpu i) s.pos (fs.entries.drop s.pos) s
  { s with pos := s.offset }

/-- The loop over the names for one CPU. -/
def openCpu (s : Opener) (cpu : ℕ) : Opener :=
  Loop.forEach (searchName fs names opens cpu) names.length (beginCpu cpu s)

/-- `perf_event(cpus, group_fd)`, where the kernel grants the opening for name `i`
on a CPU when `opens cpu i`. -/
def perfEvent (cpus : ℕ) : Opener :=
  Loop.forEach (openCpu fs names opens) cpus Opener.init

/-! ### What is searched and found -/

/-- The entries in which name `i` is looked for on a CPU. -/
def visible (cpu i : ℕ) : List Name :=
  if cpu = 0 ∧ i = 0 then fs.entries else fs.entries.tail

/-- Name `i` is found on a CPU: its entry is looked at and not skipped. -/
def found (cpu i : ℕ) : Bool :=
  isEvent (traceName names i) && (visible fs cpu i).contains (traceName names i)

/-- The names found on a CPU, as indices into the name table. -/
def foundNames (cpu : ℕ) : List ℕ := (List.range names.length).filter (found fs names cpu)

/-- The opening tried for name `i` on a CPU. -/
def opening (cpu i : ℕ) : ℤ × Bool :=
  (readConfig MAX_TRACE_NUM fs (traceName names i), opens cpu i)

/-- The openings tried on a CPU. -/
def openings (cpu : ℕ) : List (ℤ × Bool) :=
  (foundNames fs names cpu).map (opening fs names opens cpu)

theorem mem_entries_of_found {cpu i : ℕ} (h : found fs names cpu i = true) :
    traceName names i ∈ fs.entries := by
  rw [found, Bool.and_eq_true, List.contains_iff_mem, visible] at h
  split at h
  · exact h.2
  · exact List.mem_of_mem_tail h.2

/-! ### One search -/

/-- Once the offset is saved, a search opens the event if it meets its name. -/
theorem whileReaddir_searchBody (cpu i : ℕ) (rest : List Name) :
    ∀ (pos : ℕ) (s : Opener), s.offset ≠ 0 →
      whileReaddir (searchBody fs names opens cpu i) pos rest s =
        if isEvent (traceName names i) && rest.contains (traceName names i) then
          addEvent (opening fs names opens cpu i).1 cpu (opens cpu i) s
        else s := by
  induction rest with
  | nil => intro pos s _; simp
  | cons de rest ih =>
    intro pos s hs
    have hbody : searchBody fs names opens cpu i (pos + 1) de s =
        if isEvent de then
          if de = traceName names i then
            .stop (addEvent (readConfig MAX_TRACE_NUM fs de) cpu (opens cpu i) s)
          else .next s
        else .next s := by
      rw [searchBody, saveOffset_of_ne hs]
    by_cases hev : isEvent de = true
    · by_cases hde : de = traceName names i
      · rw [if_pos hev, if_pos hde] at hbody
        rw [whileReaddir_cons_stop hbody, if_pos (by simp [← hde, hev]), opening, hde]
      · rw [if_pos hev, if_neg hde] at hbody
        have hne : ¬ traceName names i = de := fun h => hde h.symm
        rw [whileReaddir_cons_next hbody, ih _ s hs]
        simp [hne]
    · -- a skipped entry cannot be the name, or the name is skipped altogether
      rw [if_neg hev] at hbody
      rw [whileReaddir_cons_next hbody, ih _ s hs]
      by_cases hde : traceName names i = de
      · rw [hde]; simp [hev]
      · simp [hde]

/-- The first search of all also saves the offset. -/
theorem whileReaddir_searchBody_first (cpu i : ℕ) (pos : ℕ) (rest : List Name) {s : Opener}
    (hs : s.offset = 0) (hrest : rest ≠ []) :
    whileReaddir (searchBody fs names opens cpu i) pos rest s =
      whileReaddir (searchBody fs names opens cpu i) pos rest { s with offset := pos + 1 } := by
  apply whileReaddir_of_first hrest
  intro de
  rw [searchBody, searchBody, saveOffset_of_eq hs, saveOffset_of_ne (Nat.succ_ne_zero pos)]

/-- The offset a CPU's search `i` starts at. -/
def offsetAt (cpu i : ℕ) : ℕ :=
  if (cpu = 0 ∨ names = []) ∧ i = 0 then 0 else min 1 fs.entries.length

theorem drop_offsetAt {cpu i : ℕ} (hi : i < names.length) :
    fs.entries.drop (offsetAt fs names cpu i) = visible fs cpu i := by
  have hne : names ≠ [] := by rintro rfl; simp at hi
  rw [offsetAt, visible]
  simp only [hne, or_false]
  split
  · rfl
  · cases fs.entries with
    | nil => rfl
    | cons de rest => simp

/-- The stream is rewound: it stands at the saved offset. -/
def Rewound (cpu i : ℕ) (s : Opener) : Prop :=
  s.pos = s.offset ∧ s.offset = offsetAt fs names cpu i

/-- A search over a listing with entries works on a state whose offset is saved: it is
saved at the latest by the first entry. -/
theorem exists_saved {cpu i : ℕ} (hi : i < names.length) {s : Opener}
    (hoff : s.offset = offsetAt fs names cpu i) (hempty : fs.entries ≠ []) :
    ∃ t : Opener, t.offset = 1 ∧ t.builder cpu = s.builder cpu ∧ t.groupFd = s.groupFd ∧
      whileReaddir (searchBody fs names opens cpu i) s.offset (visible fs cpu i) s =
        whileReaddir (searchBody fs names opens cpu i) s.offset (visible fs cpu i) t := by
  by_cases hz : s.offset = 0
  · have hvis : visible fs cpu i = fs.entries := by
      rw [← drop_offsetAt fs names hi, ← hoff, hz, List.drop_zero]
    refine ⟨{ s with offset := 1 }, rfl, rfl, rfl, ?_⟩
    have hfirst := whileReaddir_searchBody_first fs names opens cpu i s.offset fs.entries hz hempty
    rw [hz] at hfirst
    rw [hvis, hz]
    exact hfirst
  · refine ⟨s, ?_, rfl, rfl, rfl⟩
    have hlen : 0 < fs.entries.length := List.length_pos_iff.mpr hempty
    rw [offsetAt] at hoff
    split at hoff <;> omega

/-- **One search**: it leaves the stream rewound and tries the opening of a name
that is found. -/
theorem searchName_spec {cpu i : ℕ} (hi : i < names.length) {s : Opener}
    (hs : Rewound fs names cpu i s) :
    ∃ s₀, searchName fs names opens cpu s i = s₀ ∧ Rewound fs names cpu (i + 1) s₀ ∧
      s₀.builder cpu =
        (if found fs names cpu i then openOne cpu (s.builder cpu) (opening fs names opens cpu i)
         else s.builder cpu) ∧
      ∀ c, c ≠ cpu → s₀.groupFd c = s.groupFd c := by
  obtain ⟨hpos, hoff⟩ := hs
  have hnext : offsetAt fs names cpu (i + 1) = min 1 fs.entries.length := by simp [offsetAt]
  have hdrop : fs.entries.drop s.pos = visible fs cpu i := by
    rw [hpos, hoff, drop_offsetAt fs names hi]
  refine ⟨_, rfl, ?_⟩
  rw [searchName, hdrop]
  by_cases hempty : fs.entries = []
  · -- nothing to read: the offset stays unsaved
    have hvis : visible fs cpu i = [] := by simp [visible, hempty]
    have hfound : found fs names cpu i = false := by simp [found, hvis]
    have hzero : s.offset = 0 := by rw [hoff, offsetAt]; simp [hempty]
    rw [hvis, whileReaddir_nil, hfound]
    exact ⟨⟨rfl, by rw [hnext, hempty]; exact hzero⟩, rfl, fun _ _ => rfl⟩
  · have hlen : 0 < fs.entries.length := List.length_pos_iff.mpr hempty
    obtain ⟨t, htoff, htb, htg, heq⟩ := exists_saved fs names opens hi hoff hempty
    rw [hpos, heq, whileReaddir_searchBody fs names opens cpu i _ _ t (by omega)]
    have hoffset : ∀ u : Opener, u.offset = 1 → Rewound fs names cpu (i + 1) { u with pos := u.offset } :=
      fun u hu => ⟨rfl, by rw [hnext]; change u.offset = _; omega⟩
    cases hf : found fs names cpu i with
    | true =>
      rw [found] at hf
      rw [if_pos hf, if_pos rfl]
      refine ⟨hoffset _ htoff, ?_, ?_⟩
      · rw [← htb]
        exact builder_addEvent _ _ _ _
      · intro c hc
        rw [← htg]
        exact groupFd_addEvent_of_ne hc _ _ _
    | false =>
      rw [found] at hf
      rw [if_neg (by rw [hf]; decide), if_neg (by decide)]
      exact ⟨hoffset _ htoff, htb, fun c _ => by rw [← htg]⟩

/-! ### One CPU, all CPUs -/

/-- The openings tried for the first `k` names. -/
def openingsUpTo (cpu k : ℕ) : List (ℤ × Bool) :=
  ((List.range k).filter (found fs names cpu)).map (opening fs names opens cpu)

theorem openingsUpTo_succ (cpu k : ℕ) :
    openingsUpTo fs names opens cpu (k + 1) =
      if found fs names cpu k then
        openingsUpTo fs names opens cpu k ++ [opening fs names opens cpu k]
      else openingsUpTo fs names opens cpu k := by
  unfold openingsUpTo
  rw [List.range_succ, List.filter_append, List.map_append]
  cases h : found fs names cpu k <;> simp [h]

/-- **One CPU**: the names found are opened in the order of the name table. -/
theorem openCpu_spec {cpu : ℕ} {s : Opener} (hs : Rewound fs names cpu 0 s) :
    Rewound fs names (cpu + 1) 0 (openCpu fs names opens s cpu) ∧
      OpensFor cpu (openings fs names opens cpu) s (openCpu fs names opens s cpu) := by
  have hloop := Loop.forEach_inv (f := searchName fs names opens cpu) (n := names.length)
    (s := beginCpu cpu s)
    (fun i t => Rewound fs names cpu i t ∧
      t.builder cpu = openAll cpu s.perf (openingsUpTo fs names opens cpu i) ∧
      ∀ c, c ≠ cpu → t.groupFd c = s.groupFd c)
    ⟨hs, by rw [builder_beginCpu]; rfl, fun c hc => groupFd_beginCpu_of_ne hc s⟩
    (by
      rintro i hi t ⟨hrew, hb, hother⟩
      obtain ⟨t', rfl, hrew', hb', hother'⟩ := searchName_spec fs names opens hi hrew
      refine ⟨hrew', ?_, fun c hc => (hother' c hc).trans (hother c hc)⟩
      rw [hb', openingsUpTo_succ, hb]
      split
      · rw [openAll_append_singleton]
      · rfl)
  obtain ⟨hrew, hb, hother⟩ := hloop
  refine ⟨⟨hrew.1, hrew.2.trans ?_⟩, hb, hother⟩
  simp only [offsetAt]
  by_cases hn : names = []
  · simp [hn]
  · have hlen : names.length ≠ 0 := by simpa using hn
    simp [hn, hlen]

/-- **The groups `perf_event` leaves behind.** -/
theorem groupsBuilt_perfEvent (cpus : ℕ) :
    GroupsBuilt (openings fs names opens) cpus (perfEvent fs names opens cpus) :=
  group_forEach (I := fun c t => Rewound fs names c 0 t) ⟨rfl, by simp [offsetAt, Opener.init]⟩
    fun _ _ _ ht => openCpu_spec fs names opens ht

end PerfEvent

end LinuxNote.Kvmstat
