import LinuxNote.Base.HeapBlock
import LinuxNote.KvmTrace.Sampling
import Mathlib.Data.List.Nodup

/-!
# The config-driven sample

`src/develop/csample/perf_event/kvm_trace.c` reads the names from `trace_kvm.conf`
and labels the rows of its table with them, in the order of the file.  Its
`perf_event` walks the directory in the outer loop and compares each entry with
the names in the inner one, so the group has the order of the directory.  The names
go to blocks from `malloc(sizeof(char))`, where a long one runs over the end.

* `loadNames` — the loop over the file in `main`, and the names as they read after it.
* `matchBody`, `openCpu`, `perfEvent` — the source.
* `openCpu_eq` — what a CPU's walk opens: the configured entries, in the order of
  the directory.
* `printsRight_iff` — **the printed table is right exactly when** that is the order
  of the file, on every CPU, and the names are terminated and fit their blocks.
-/

namespace LinuxNote.KvmTrace.Sample

open CText HeapBlock PerfGroup Readdir

/-! ### The source -/

/-- The size of `str` in `main`. -/
def STR_SIZE : ℕ := 100

/-- `trace_name[trace_count] = malloc(1); strcpy(trace_name[trace_count], str);
trace_count++`, with the last character of `str` cut off; it faults when the table is
full.  The table has the names as they are written; what is left of them in their blocks
is `readBack`. -/
def loadLine (names : List Name) (str : List Char) : Option (List Name) :=
  if names.length < TRACE_SIZE then some (names ++ [str.dropLast]) else none

/-- The loop over `trace_kvm.conf`, and the names as they read afterwards; `heap` says
what the blocks hold if a name runs over the end of its own. -/
def loadNames (heap : List Name → ℕ → Name) (text : List Char) : Option (List Name) :=
  ((fgetsAll STR_SIZE text).foldlM loadLine []).map (readBack LEAST_BLOCK heap)

section PerfEvent

variable (fs : Tracefs) (names : List Name) (opens : ℕ → Name → Bool)

/-- The opening tried for an entry. -/
def opening (cpu : ℕ) (de : Name) : ℤ × Bool := (readConfig LENGTH fs de, opens cpu de)

/-- The body of the loop over the names. -/
def matchName (cpu : ℕ) (de : Name) (s : Opener) (i : ℕ) : Opener :=
  if de = names.getD i [] then addEvent (readConfig LENGTH fs de) cpu (opens cpu de) s else s

/-- The body of the `readdir` loop for a CPU.  The names are in the inner loop, so the
events are opened in the order of the directory, not in that of the file. -/
def matchBody (cpu pos : ℕ) (de : Name) (s : Opener) : Flow Opener :=
  let s := saveOffset pos s
  if isEvent de then .next (Loop.forEach (matchName fs names opens cpu de) names.length s)
  else .next s

/-- One CPU, and `seekdir(kvm_dir, offset)`. -/
def openCpu (s : Opener) (cpu : ℕ) : Opener :=
  let s := beginCpu cpu s
  let s := whileReaddir (matchBody fs names opens cpu) s.pos (fs.entries.drop s.pos) s
  { s with pos := s.offset }

/-- `perf_event(cpus, group_fd, trace_name)`, with the names as they are read back; none
of them is written here. -/
def perfEvent (cpus : ℕ) : Opener := Loop.forEach (openCpu fs names opens) cpus Opener.init

/-! ### One walk -/

/-- The configured events among some entries. -/
def configured (entries : List Name) : List Name :=
  entries.filter fun de => isEvent de && names.contains de

theorem configured_cons (de : Name) (rest : List Name) :
    configured names (de :: rest) =
      if isEvent de && names.contains de then de :: configured names rest
      else configured names rest :=
  List.filter_cons

/-- With distinct names, the loop over them opens an entry once if it is configured. -/
theorem forEach_matchName (hnodup : names.Nodup) (cpu : ℕ) (de : Name) (s : Opener) :
    Loop.forEach (matchName fs names opens cpu de) names.length s =
      if de ∈ names then addEvent (readConfig LENGTH fs de) cpu (opens cpu de) s else s := by
  have key := Loop.forEach_inv (f := matchName fs names opens cpu de) (n := names.length) (s := s)
    (fun i t => t = if de ∈ names.take i then
      addEvent (readConfig LENGTH fs de) cpu (opens cpu de) s else s) (by simp) (by
      intro i hi t ht
      have htake : names.take (i + 1) = names.take i ++ [names[i]] := List.take_succ_eq_append_getElem hi
      have hmem : de ∈ names.take (i + 1) ↔ de ∈ names.take i ∨ de = names[i] := by
        rw [htake, List.mem_append, List.mem_singleton]
      rw [matchName, List.getD_eq_getElem _ _ hi]
      by_cases heq : de = names[i]
      · -- the name has not been met before
        have hnot : de ∉ names.take i := by
          intro hin
          have hsplit := hnodup.sublist (htake ▸ List.take_sublist (i + 1) names)
          rw [List.nodup_append] at hsplit
          exact hsplit.2.2 de hin names[i] (List.mem_singleton_self _) heq
        rw [if_pos heq, ht, if_neg hnot, if_pos (hmem.mpr (Or.inr heq))]
      · rw [if_neg heq, ht]
        simp only [hmem, heq, or_false])
  rw [List.take_length] at key
  exact key

/-- Once the offset is saved, a walk opens the configured events ahead. -/
theorem whileReaddir_matchBody (hnodup : names.Nodup) (cpu : ℕ) (rest : List Name) :
    ∀ (pos : ℕ) (s : Opener), s.offset ≠ 0 →
      whileReaddir (matchBody fs names opens cpu) pos rest s =
        addEvents cpu ((configured names rest).map (opening fs opens cpu)) s := by
  induction rest with
  | nil => intro pos s _; rfl
  | cons de rest ih =>
    intro pos s hs
    have hsave : saveOffset (pos + 1) s = s := saveOffset_of_ne hs
    rw [configured_cons]
    cases hev : isEvent de with
    | false =>
      have hbody : matchBody fs names opens cpu (pos + 1) de s = .next s := by
        simp only [matchBody, hsave, hev, Bool.false_eq_true, if_false]
      rw [whileReaddir_cons_next hbody, ih _ s hs, Bool.false_and, if_neg (by decide)]
    | true =>
      have hbody : matchBody fs names opens cpu (pos + 1) de s =
          .next (if de ∈ names then
            addEvent (readConfig LENGTH fs de) cpu (opens cpu de) s else s) := by
        simp only [matchBody, hsave, hev, if_true, forEach_matchName fs names opens hnodup]
      rw [whileReaddir_cons_next hbody, Bool.true_and]
      by_cases hin : de ∈ names
      · have hoff : (addEvent (readConfig LENGTH fs de) cpu (opens cpu de) s).offset ≠ 0 := hs
        rw [if_pos hin, if_pos (List.contains_iff_mem.mpr hin), ih _ _ hoff]
        rfl
      · rw [if_neg hin, if_neg (fun h => hin (List.contains_iff_mem.mp h)), ih _ s hs]

/-- The first entry of all saves the offset. -/
theorem whileReaddir_matchBody_first (cpu pos : ℕ) {rest : List Name} (hrest : rest ≠ [])
    {s : Opener} (hs : s.offset = 0) :
    whileReaddir (matchBody fs names opens cpu) pos rest s =
      whileReaddir (matchBody fs names opens cpu) pos rest { s with offset := pos + 1 } := by
  have hsaved : saveOffset (pos + 1) { s with offset := pos + 1 } = { s with offset := pos + 1 } :=
    saveOffset_of_ne (Nat.succ_ne_zero pos)
  apply whileReaddir_of_first hrest
  intro de
  simp only [matchBody, saveOffset_of_eq hs, hsaved]

/-- The openings tried on a CPU. -/
def openings (cpu : ℕ) : List (ℤ × Bool) :=
  (configured names (visible fs cpu)).map (opening fs opens cpu)

/-- **One CPU**: it opens the configured events of its walk, in the order of the
directory, each of them once as the names are different. -/
theorem openCpu_eq (hnodup : names.Nodup) {cpu : ℕ} {s : Opener} (hs : Rewound fs cpu s) :
    openCpu fs names opens s cpu = walked fs cpu (openings fs names opens cpu) s := by
  -- the walk starts from `t`, whose offset is saved unless there is nothing to read
  let t : Opener := { beginCpu cpu s with offset := min 1 fs.entries.length }
  have hwalk : whileReaddir (matchBody fs names opens cpu) s.pos (visible fs cpu) (beginCpu cpu s) =
      whileReaddir (matchBody fs names opens cpu) s.pos (visible fs cpu) t := by
    rcases rewound_cases hs with hoff | ⟨hzero, hvis, hlen⟩
    · have ht : t = beginCpu cpu s := by
        show { beginCpu cpu s with offset := min 1 fs.entries.length } = beginCpu cpu s
        rw [← hoff]
        rfl
      rw [ht]
    · simp only [t, hlen]
      exact whileReaddir_matchBody_first fs names opens cpu s.pos hvis hzero
  have hadd : whileReaddir (matchBody fs names opens cpu) s.pos (visible fs cpu) t =
      addEvents cpu (openings fs names opens cpu) t := by
    by_cases hempty : fs.entries = []
    · have hvis : visible fs cpu = [] := visible_eq_nil hempty
      simp [hvis, openings, configured]
    · refine whileReaddir_matchBody fs names opens hnodup cpu (visible fs cpu) _ t ?_
      have := List.length_pos_iff.mpr hempty
      show min 1 fs.entries.length ≠ 0
      omega
  rw [openCpu]
  simp only [pos_beginCpu, drop_pos hs]
  rw [hwalk, hadd]
  rfl

/-- **What `perf_event` leaves behind**: a group for each CPU, whose members have the
order of the directory, and no word about their names. -/
theorem groupsBuilt_perfEvent (hnodup : names.Nodup) (cpus : ℕ) :
    GroupsBuilt (openings fs names opens) cpus (perfEvent fs names opens cpus) := by
  refine group_forEach (I := fun c t => Rewound fs c t) (rewound_init fs) fun c _ t ht => ?_
  rw [openCpu_eq fs names opens hnodup ht]
  exact ⟨rewound_walked fs c _ t, opensFor_walked fs c _ t⟩

end PerfEvent

/-! ### Loading the names -/

/-- The names a configuration file has, one in each line. -/
def fileNames (text : List Char) : List Name := (lines text).map chomp

theorem foldlM_loadLine (strs : List (List Char)) (names : List Name)
    (h : names.length + strs.length ≤ TRACE_SIZE) :
    strs.foldlM loadLine names = some (names ++ strs.map List.dropLast) := by
  induction strs generalizing names with
  | nil => simp
  | cons str strs ih =>
    rw [List.length_cons] at h
    have hline : loadLine names str = some (names ++ [str.dropLast]) := by
      rw [loadLine, if_pos (by omega)]
    rw [List.foldlM_cons, hline]
    refine (ih _ ?_).trans ?_
    · rw [List.length_append, List.length_singleton]
      omega
    · rw [List.append_assoc]
      rfl

/-- A loop that goes through has stored each string without its last character. -/
theorem eq_of_foldlM_loadLine {strs : List (List Char)} {names trace : List Name}
    (h : strs.foldlM loadLine names = some trace) : trace = names ++ strs.map List.dropLast := by
  induction strs generalizing names with
  | nil => simpa using h.symm
  | cons str strs ih =>
    rw [List.foldlM_cons, loadLine] at h
    split at h
    · rw [ih h, List.append_assoc]
      rfl
    · cases h

/-- Short lines are read whole, and lose their last characters. -/
theorem map_dropLast_fgetsAll {text : List Char} (h : Fits LEAST_BLOCK (fileNames text)) :
    (fgetsAll STR_SIZE text).map List.dropLast = (lines text).map List.dropLast := by
  refine congrArg _ (fgetsAll_eq_lines (by decide) fun l hl => ?_)
  have hname : (chomp l).length < 24 := h _ (List.mem_map_of_mem hl)
  have hlen : l.length ≤ (chomp l).length + 1 := by
    rcases (mem_lines hl).2 with hshape | ⟨hshape, -⟩
    · conv_lhs => rw [hshape]
      simp
    · conv_lhs => rw [hshape]
      exact Nat.le_succ _
  have hsize : STR_SIZE = 100 := rfl
  omega

/-- The names are what the lines leave without their last characters exactly when every
line ends in a newline. -/
theorem map_dropLast_lines_eq_iff (text : List Char) :
    (lines text).map List.dropLast = fileNames text ↔ ∀ l ∈ lines text, l = chomp l ++ ['\n'] := by
  rw [fileNames, List.map_inj_left]
  refine forall₂_congr fun l hl => ⟨fun heq => ?_, fun hshape => ?_⟩
  · refine (mem_lines hl).2.resolve_right ?_
    rintro ⟨hbare, hne⟩
    rw [← hbare] at heq
    have hlen := congrArg List.length heq
    have hpos := List.length_pos_iff.mpr hne
    rw [List.length_dropLast] at hlen
    omega
  · generalize chomp l = c at hshape ⊢
    rw [hshape, List.dropLast_concat]

/-- **The names are loaded as they are in the file**, if they are terminated and fit
their blocks; the last character of a line is cut off, whatever it is. -/
theorem loadNames_eq (heap : List Name → ℕ → Name) {text : List Char}
    (hlines : ∀ l ∈ lines text, l = chomp l ++ ['\n']) (hfits : Fits LEAST_BLOCK (fileNames text))
    (hroom : (fileNames text).length ≤ TRACE_SIZE) :
    loadNames heap text = some (fileNames text) := by
  have hstored := map_dropLast_fgetsAll hfits
  rw [(map_dropLast_lines_eq_iff text).mpr hlines] at hstored
  have hlen := congrArg List.length hstored
  rw [List.length_map] at hlen
  rw [loadNames, foldlM_loadLine _ _ (by simpa [hlen] using hroom), List.nil_append, hstored,
    Option.map_some, readBack_of_fits hfits]

/-! ### Labels -/

/-- The table is printed right with the names `trace` in memory: in every sampling round,
every opening granted, the row at `j` has the label `names[j]`, and in column `i` the
counter of that event on CPU `i`. -/
def RowsRight (fs : Tracefs) (trace names : List Name) (cpus : ℕ) : Prop :=
  ∀ (counts : List (ℤ → ℕ → ℤ)) (count : ℤ → ℕ → ℤ),
    ∃ values, sampleRun cpus trace.length ((counts ++ [count]).map
        (readGroup (perfEvent fs trace (fun _ _ => true) cpus))) = some values ∧
      ∀ j < names.length, (printed trace values)[j]? =
        some (names.getD j [], (List.range cpus).map fun i => count (fs.id (names.getD j [])) i)

/-- **The printed table is right**, whatever the heap holds behind the blocks: the file
is loaded, and every row has the name of its line and that event's counters.  Without a
CPU no row is printed. -/
def PrintsRight (fs : Tracefs) (text : List Char) (cpus : ℕ) : Prop :=
  0 < cpus → ∀ heap, ∃ trace, loadNames heap text = some trace ∧
    RowsRight fs trace (fileNames text) cpus

theorem rowsRight_self_iff (fs : Tracefs) (names : List Name) (cpus : ℕ) :
    RowsRight fs names names cpus ↔
      TableRight fs (perfEvent fs names (fun _ _ => true) cpus) cpus names := by
  refine forall₂_congr fun counts count => exists_congr fun values => and_congr_right fun _ => ?_
  exact printed_eq_iff (f := fun i j => count (fs.id (names.getD j [])) i)

/-- The labels are read from the memory. -/
theorem names_prefix_of_rowsRight {fs : Tracefs} {trace names : List Name} {cpus : ℕ}
    (h : RowsRight fs trace names cpus) : names <+: trace := by
  obtain ⟨values, -, hrows⟩ := h [] fun _ _ => 0
  rw [List.prefix_iff_getElem]
  have hlen : names.length ≤ trace.length := by
    by_contra hlt
    have hrow := hrows trace.length (by omega)
    rw [List.getElem?_eq_none (by simp [printed])] at hrow
    cases hrow
  refine ⟨hlen, fun j hj => ?_⟩
  have hrow := hrows j hj
  rw [printed, List.getElem?_map, List.getElem?_range (by omega), Option.map_some,
    Option.some.injEq] at hrow
  have hlabel := (Prod.mk.inj hrow).1
  rw [List.getD_eq_getElem _ _ (by omega), List.getD_eq_getElem _ _ hj] at hlabel
  exact hlabel.symm

/-- The names of a file that is printed right fit their blocks: otherwise the heap may
leave nothing of them. -/
theorem fits_of_printsRight {fs : Tracefs} {text : List Char} {cpus : ℕ} (hcpus : 0 < cpus)
    (h : PrintsRight fs text cpus) : Fits LEAST_BLOCK (fileNames text) := by
  obtain ⟨trace, hload, hrows⟩ := h hcpus fun _ _ => []
  rw [loadNames, Option.map_eq_some_iff] at hload
  obtain ⟨stored, -, rfl⟩ := hload
  have hstart := names_prefix_of_rowsRight hrows
  intro n hn
  have hmem := hstart.subset hn
  by_cases hfits : Fits LEAST_BLOCK stored
  · rw [readBack_of_fits hfits] at hmem
    exact hfits n hmem
  · rw [readBack_eq_replicate hfits, List.mem_replicate] at hmem
    rw [hmem.2]
    decide

/-- The lines of such a file end in a newline. -/
theorem lines_of_printsRight {fs : Tracefs} {text : List Char} {cpus : ℕ} (hcpus : 0 < cpus)
    (h : PrintsRight fs text cpus) : ∀ l ∈ lines text, l = chomp l ++ ['\n'] := by
  have hnames := fits_of_printsRight hcpus h
  obtain ⟨trace, hload, hrows⟩ := h hcpus fun _ _ => []
  rw [loadNames, Option.map_eq_some_iff] at hload
  obtain ⟨stored, hstored, rfl⟩ := hload
  have heq := eq_of_foldlM_loadLine hstored
  rw [List.nil_append, map_dropLast_fgetsAll hnames] at heq
  have hfits : Fits LEAST_BLOCK stored := by
    rw [heq]
    intro t ht
    obtain ⟨l, hl, rfl⟩ := List.mem_map.mp ht
    have hname : (chomp l).length < LEAST_BLOCK := hnames _ (List.mem_map_of_mem hl)
    rcases (mem_lines hl).2 with hshape | ⟨hshape, -⟩
    · generalize chomp l = c at hshape hname
      rw [hshape, List.dropLast_concat]
      exact hname
    · rw [← hshape] at hname
      rw [List.length_dropLast]
      omega
  have hstart := names_prefix_of_rowsRight hrows
  rw [readBack_of_fits hfits, heq] at hstart
  refine (map_dropLast_lines_eq_iff text).mp (hstart.eq_of_length ?_).symm
  rw [fileNames, List.length_map, List.length_map]

theorem mem_of_mem_configured {names entries : List Name} {n : Name}
    (h : n ∈ configured names entries) : n ∈ entries ∧ n ∈ names := by
  obtain ⟨hentry, htest⟩ := List.mem_filter.mp h
  rw [Bool.and_eq_true, List.contains_iff_mem] at htest
  exact ⟨hentry, htest.2⟩

/-- The table has the labels of the file exactly when every CPU opens them in the
order of the file. -/
theorem tableRight_perfEvent_iff {fs : Tracefs} {names : List Name} (cpus : ℕ) (hnodup : names.Nodup)
    (hmem : ∀ n ∈ names, n ∈ fs.entries) (hn : names.length < TRACE_SIZE) :
    TableRight fs (perfEvent fs names (fun _ _ => true) cpus) cpus names ↔
      ∀ c < cpus, configured names (visible fs c) = names := by
  refine tableRight_iff (groupsBuilt_perfEvent fs names (fun _ _ => true) hnodup cpus) ?_ hmem ?_ hn
  · intro c n hin
    have hvis := (mem_of_mem_configured hin).1
    rw [visible] at hvis
    split at hvis
    · exact hvis
    · exact List.mem_of_mem_tail hvis
  · intro c
    have hvis : (visible fs c).Nodup := by
      rw [visible]
      split
      · exact fs.nodup
      · exact fs.nodup.tail
    exact List.Nodup.length_le_of_subset (List.Nodup.filter _ hvis) fun n hin =>
      (mem_of_mem_configured hin).2

/-- **The printed table is right exactly when** there is no CPU, or every line ends in a
newline and fits its block, and on every CPU the configured events come in the order of
the file in the entries that are looked at: the labels have that order, and the counters
that of the directory. -/
theorem printsRight_iff {fs : Tracefs} {text : List Char} (cpus : ℕ)
    (hnodup : (fileNames text).Nodup) (hmem : ∀ n ∈ fileNames text, n ∈ fs.entries)
    (hn : (fileNames text).length < TRACE_SIZE) :
    PrintsRight fs text cpus ↔ cpus = 0 ∨
      (∀ l ∈ lines text, l = chomp l ++ ['\n'] ∧ (chomp l).length < LEAST_BLOCK) ∧
        ∀ c < cpus, configured (fileNames text) (visible fs c) = fileNames text := by
  have htable := tableRight_perfEvent_iff cpus hnodup hmem hn
  rw [← rowsRight_self_iff] at htable
  rcases Nat.eq_zero_or_pos cpus with rfl | hcpus
  · exact iff_of_true (fun h => absurd h (lt_irrefl 0)) (Or.inl rfl)
  · rw [or_iff_right (Nat.pos_iff_ne_zero.mp hcpus), ← htable]
    constructor
    · intro h
      have hfits := fits_of_printsRight hcpus h
      have hlines := lines_of_printsRight hcpus h
      refine ⟨fun l hl => ⟨hlines l hl, hfits _ (List.mem_map_of_mem hl)⟩, ?_⟩
      obtain ⟨trace, hload, hrows⟩ := h hcpus fun _ _ => []
      rw [loadNames_eq _ hlines hfits (Nat.le_of_lt hn), Option.some.injEq] at hload
      rwa [← hload] at hrows
    · rintro ⟨hlines, hrows⟩ - heap
      have hfits : Fits LEAST_BLOCK (fileNames text) := by
        intro n hin
        obtain ⟨l, hl, rfl⟩ := List.mem_map.mp hin
        exact (hlines l hl).2
      exact ⟨_, loadNames_eq heap (fun l hl => (hlines l hl).1) hfits (Nat.le_of_lt hn), hrows⟩

theorem printsRight_twoEvents : PrintsRight Tracefs.twoEvents "kvm_entry\nkvm_exit\n".toList 4 :=
  (printsRight_iff 4 (by decide) (by decide) (by decide)).mpr
    (Or.inr ⟨by decide, by decide⟩)

/-- In the order of the shipped configuration, the two rows are exchanged. -/
theorem not_printsRight_twoEvents :
    ¬ PrintsRight Tracefs.twoEvents "kvm_exit\nkvm_entry\n".toList 1 := by
  intro h
  obtain ⟨trace, hload, hrows⟩ := h (by decide) fun _ _ => []
  rw [loadNames_eq _ (by decide) (by decide) (by decide), Option.some.injEq] at hload
  rw [← hload, rowsRight_self_iff, tableRight_perfEvent_iff 1 (by decide) (by decide) (by decide)]
    at hrows
  exact absurd (hrows 0 (by decide)) (by decide)

end LinuxNote.KvmTrace.Sample
