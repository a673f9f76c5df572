import LinuxNote.Base.HeapBlock
import LinuxNote.Kvmstat.PerfEvent
import Mathlib.Algebra.Order.BigOperators.Group.List
import Mathlib.Algebra.Order.Ring.Nat

/-!
# kvmstat: the configuration file

`extract_trace_metrices` of `kvmstat.c`, which reads the event names and the path
of tracefs from `trace_kvm.conf`.

* `TraceConf`, `extractLine`, `extractTraceMetrices` — the source.  Each name is copied
  into a block from `malloc(sizeof(char))`, so a long one runs over its end.
* `nameLines`, `pathValue` — what the file says: its name lines, without their
  newlines, and its last path.
* `foldlM_extractLine` — **what the loop over `fgets` collects**, and when the
  table overflows.
* `extractTraceMetrices_iff` — the loader takes over what the file says exactly
  when every name line is terminated, fits the buffer and has a name that fits the
  block it is copied to.
-/

namespace LinuxNote.Kvmstat

open CText HeapBlock

/-! ### The source -/

/-- The name table with its `ntrace` names, and the path of tracefs.  Nothing in the
source keeps the names inside the table; a state that exists has them there, and the
loader has none left when it writes behind the end. -/
structure TraceConf where
  nametab : List Name
  tracePath : List Char
  room : nametab.length ≤ MAX_TRACE_NUM

/-- The static storage before the file is read. -/
def TraceConf.init : TraceConf :=
  ⟨[], "/sys/kernel/debug/tracing/events/kvm/".toList, Nat.zero_le _⟩

/-- `trace_nametab[ntrace] = malloc(1); strcpy(trace_nametab[ntrace], name); ntrace++`,
which faults when the table is full.  The table has the names as they are written;
what is left of them in their blocks is `TraceConf.readBack`. -/
def addName (conf : TraceConf) (name : Name) : Option TraceConf :=
  if h : conf.nametab.length < MAX_TRACE_NUM then
    some
      { conf with
        nametab := conf.nametab ++ [name]
        room := by rw [List.length_append]; exact h }
  else none

/-- The table as it reads once all names are copied to their blocks.  `heap` says what
the blocks hold if a name runs over the end of its own: the allocator and the later
copies write there too. -/
def TraceConf.readBack (heap : List Name → ℕ → Name) (conf : TraceConf) : TraceConf :=
  { conf with
    nametab := HeapBlock.readBack LEAST_BLOCK heap conf.nametab
    room := by rw [length_readBack]; exact conf.room }

/-- The lines passed over for their first character. -/
def isPassedOver (buf : List Char) : Bool :=
  strncmpEq buf "#".toList 1 || strncmpEq buf "[".toList 1 ||
    (strncmpEq buf "\n".toList 1 || strncmpEq buf " ".toList 1 || strncmpEq buf "\t".toList 1)

/-- The body of the loop over `fgets`.  Any result of `sscanf` but `0` passes the
line over; the last character of a name line is cut off unseen. -/
def extractLine (conf : TraceConf) (buf : List Char) : Option TraceConf :=
  if isPassedOver buf then some conf
  else
    match sscanfWord "PATH=".toList buf with
    | .word w => some { conf with tracePath := w }
    | .eof => some conf
    | .mismatch => addName conf buf.dropLast

/-- `extract_trace_metrices()` on the text of the file, and the table it leaves behind;
`none` when it writes outside the name table. -/
def extractTraceMetrices (heap : List Name → ℕ → Name) (text : List Char) : Option TraceConf :=
  ((fgetsAll BUFSIZ text).foldlM extractLine TraceConf.init).map (TraceConf.readBack heap)

/-! ### What the file says -/

/-- A line that names an event, as the shipped file is written: it is not empty and not a
comment, a section header, blank-indented or a path. -/
def isNameLine (c : List Char) : Bool :=
  c ≠ [] && !(["#", "[", " ", "\t", "PATH="].any fun p => startsWith c p.toList)

/-- The names in the file, in order. -/
def nameLines (text : List Char) : List Name := ((lines text).map chomp).filter isNameLine

/-- The value of a path line, if it has one. -/
def pathWord (c : List Char) : Option (List Char) :=
  if startsWith c "PATH=".toList ∧ nextWord (c.drop 5) ≠ [] then some (nextWord (c.drop 5))
  else none

/-- The last path in the file, or the default: a path line without a value leaves what
was there. -/
def pathValue (text : List Char) : List Char :=
  ((((lines text).map chomp).filterMap pathWord).getLast?).getD TraceConf.init.tracePath

/-! ### What the loop collects -/

/-- The name taken from one buffer. -/
def nameOf (buf : List Char) : Option Name :=
  if isPassedOver buf then none
  else if sscanfWord "PATH=".toList buf = .mismatch then some buf.dropLast else none

/-- The path taken from one buffer. -/
def pathOf (buf : List Char) : Option (List Char) :=
  if isPassedOver buf then none
  else
    match sscanfWord "PATH=".toList buf with
    | .word w => some w
    | _ => none

/-- The two tables as a pair. -/
def TraceConf.tables (conf : TraceConf) : List Name × List Char := (conf.nametab, conf.tracePath)

/-- **What the loop over `fgets` collects**: the names and the last path of what it
reads; it goes through exactly when there is room for the names. -/
theorem foldlM_extractLine (bufs : List (List Char)) (conf : TraceConf) :
    (bufs.foldlM extractLine conf).map TraceConf.tables =
      if conf.nametab.length + (bufs.filterMap nameOf).length ≤ MAX_TRACE_NUM then
        some (conf.nametab ++ bufs.filterMap nameOf,
          ((bufs.filterMap pathOf).getLast?).getD conf.tracePath)
      else none := by
  induction bufs generalizing conf with
  | nil =>
    have hroom := conf.room
    simp [TraceConf.tables, hroom]
  | cons buf bufs ih =>
    rw [List.foldlM_cons, List.filterMap_cons, List.filterMap_cons]
    -- a line is passed over, or it is what `sscanf` says of it
    by_cases hpass : isPassedOver buf = true
    · have hline : extractLine conf buf = some conf := by rw [extractLine, if_pos hpass]
      have hname : nameOf buf = none := by rw [nameOf, if_pos hpass]
      have hpath : pathOf buf = none := by rw [pathOf, if_pos hpass]
      rw [hline, hname, hpath]
      exact ih conf
    · cases hscan : sscanfWord "PATH=".toList buf with
      | eof =>
        have hline : extractLine conf buf = some conf := by rw [extractLine, if_neg hpass, hscan]
        have hname : nameOf buf = none := by rw [nameOf, if_neg hpass, hscan]; rfl
        have hpath : pathOf buf = none := by rw [pathOf, if_neg hpass, hscan]
        rw [hline, hname, hpath]
        exact ih conf
      | word w =>
        have hline : extractLine conf buf = some { conf with tracePath := w } := by
          rw [extractLine, if_neg hpass, hscan]
        have hname : nameOf buf = none := by rw [nameOf, if_neg hpass, hscan]; rfl
        have hpath : pathOf buf = some w := by rw [pathOf, if_neg hpass, hscan]
        rw [hline, hname, hpath]
        refine (ih { conf with tracePath := w }).trans ?_
        simp only [List.getLast?_cons, Option.getD_some]
      -- only a name line takes room in the table
      | mismatch =>
        have hline : extractLine conf buf = addName conf buf.dropLast := by
          rw [extractLine, if_neg hpass, hscan]
        have hname : nameOf buf = some buf.dropLast := by rw [nameOf, if_neg hpass, if_pos hscan]
        have hpath : pathOf buf = none := by rw [pathOf, if_neg hpass, hscan]
        rw [hline, hname, hpath, addName]
        simp only [List.length_cons]
        split
        · refine (ih _).trans ?_
          simp only [List.length_append, List.length_singleton, List.append_assoc,
            List.singleton_append]
          rw [Nat.add_assoc, Nat.add_comm 1]
        · next hfull =>
          rw [if_neg (by omega)]
          rfl

/-! ### One buffer -/

/-- The test of the first character does not see what is put behind. -/
theorem strncmpEq_one_append {c : List Char} (hc : c ≠ []) (d p : List Char) :
    strncmpEq (c ++ d) p 1 = strncmpEq c p 1 := by
  obtain ⟨x, t, rfl⟩ := List.exists_cons_of_ne_nil hc
  rfl

theorem isPassedOver_append {c : List Char} (hc : c ≠ []) (d : List Char) :
    isPassedOver (c ++ d) = isPassedOver c := by
  simp only [isPassedOver, strncmpEq_one_append hc]

/-- A path line is not passed over for its first character. -/
theorem isPassedOver_of_path {c : List Char} (h : startsWith c "PATH=".toList = true) :
    isPassedOver c = false := by
  obtain ⟨r, rfl⟩ := startsWith_iff.mp h
  rfl

/-- Away from the end of the line, the loader's tests tell the name lines. -/
theorem isNameLine_eq {c : List Char} (hc : c ≠ []) (hnl : '\n' ∉ c) :
    isNameLine c = (!isPassedOver c && !startsWith c "PATH=".toList) := by
  obtain ⟨x, t, rfl⟩ := List.exists_cons_of_ne_nil hc
  have hx : (x == '\n') = false := by
    rw [beq_eq_false_iff_ne]
    exact fun h => hnl (h ▸ List.mem_cons_self)
  have hfirst : ∀ p : Char, startsWith (x :: t) [p] = (x == p) := by
    intro p
    rw [Bool.eq_iff_iff, startsWith_iff, List.cons_prefix_cons, beq_iff_eq]
    simp only [List.nil_prefix, and_true]
    exact eq_comm
  have hcmp : ∀ p : Char, strncmpEq (x :: t) [p] 1 = (x == p) := by simp [strncmpEq]
  simp [isNameLine, isPassedOver, hfirst, hcmp, hx, Bool.and_assoc]

theorem scan_newline {c : List Char} (hnl : '\n' ∉ c) :
    sscanfWord "PATH=".toList (c ++ ['\n']) =
      if startsWith c "PATH=".toList then
        if nextWord (c.drop 5) = [] then .eof else .word (nextWord (c.drop 5))
      else .mismatch := by
  by_cases hpre : startsWith c "PATH=".toList = true
  · rw [if_pos hpre]
    obtain ⟨r, rfl⟩ := startsWith_iff.mp hpre
    rw [List.append_assoc, sscanfWord_append, nextWord_append_space (by decide)]
    rfl
  · rw [if_neg hpre]
    rw [startsWith_iff] at hpre
    -- the newline is neither in the literal text nor matched by it
    have hlong : ¬ "PATH=".toList <+: c ++ ['\n'] := by
      rw [List.prefix_concat_iff]
      rintro (heq | h)
      · have hmem : '\n' ∈ "PATH=".toList := by rw [heq]; simp
        exact absurd hmem (by decide)
      · exact hpre h
    have hshort : ¬ c ++ ['\n'] <+: "PATH=".toList := by
      intro h
      have hmem : '\n' ∈ "PATH=".toList := h.subset (by simp)
      exact absurd hmem (by decide)
    rw [sscanfWord_of_not_startsWith hlong, if_neg hshort]

theorem scan_bare (c : List Char) :
    sscanfWord "PATH=".toList c =
      if startsWith c "PATH=".toList then
        if nextWord (c.drop 5) = [] then .eof else .word (nextWord (c.drop 5))
      else if c <+: "PATH=".toList then .eof else .mismatch := by
  by_cases hpre : startsWith c "PATH=".toList = true
  · rw [if_pos hpre]
    obtain ⟨r, rfl⟩ := startsWith_iff.mp hpre
    rw [sscanfWord_append]
    rfl
  · rw [if_neg hpre, sscanfWord_of_not_startsWith fun h => hpre (startsWith_iff.mpr h)]

/-- **A terminated line** gives its name, whole, and no other line gives any. -/
theorem nameOf_newline {c : List Char} (hnl : '\n' ∉ c) :
    nameOf (c ++ ['\n']) = if isNameLine c then some c else none := by
  by_cases hc : c = []
  · subst hc; rfl
  · rw [nameOf, isPassedOver_append hc, scan_newline hnl, isNameLine_eq hc hnl,
      List.dropLast_concat]
    cases isPassedOver c with
    | true => rfl
    | false =>
      cases startsWith c "PATH=".toList with
      | false => rfl
      | true =>
        by_cases hword : nextWord (c.drop 5) = [] <;> simp [hword]

/-- **A line that is cut off** loses its last character, or its name altogether if
it is the beginning of a path line. -/
theorem nameOf_bare {c : List Char} (hc : c ≠ []) (hnl : '\n' ∉ c) :
    nameOf c =
      if isNameLine c then if c <+: "PATH=".toList then none else some c.dropLast else none := by
  rw [nameOf, scan_bare, isNameLine_eq hc hnl]
  cases isPassedOver c with
  | true => rfl
  | false =>
    cases startsWith c "PATH=".toList with
    | false => simp
    | true => by_cases hword : nextWord (c.drop 5) = [] <;> simp [hword]

theorem pathOf_newline {c : List Char} (hnl : '\n' ∉ c) : pathOf (c ++ ['\n']) = pathWord c := by
  by_cases hc : c = []
  · subst hc; rfl
  · rw [pathOf, isPassedOver_append hc, scan_newline hnl, pathWord]
    cases hpre : startsWith c "PATH=".toList with
    | false => cases isPassedOver c <;> simp
    | true =>
      rw [isPassedOver_of_path hpre]
      by_cases hword : nextWord (c.drop 5) = [] <;> simp [hword]

theorem pathOf_bare (c : List Char) : pathOf c = pathWord c := by
  rw [pathOf, scan_bare, pathWord]
  cases hpre : startsWith c "PATH=".toList with
  | false =>
    by_cases hlit : c <+: "PATH=".toList
    · rw [if_pos hlit]
      simp
    · rw [if_neg hlit]
      simp
  | true =>
    rw [isPassedOver_of_path hpre]
    by_cases hword : nextWord (c.drop 5) = [] <;> simp [hword]

/-! ### One line -/

/-- A line is read whole, newline included.  Only then is the last character, which is
cut off unseen, the newline. -/
def ReadWhole (l : List Char) : Prop := l = chomp l ++ ['\n'] ∧ l.length < BUFSIZ

/-- The buffers of a line whose text fits: the line, or its text and possibly a
newline of its own. -/
theorem pieces_of_mem_lines {text l : List Char} (h : l ∈ lines text)
    (hlen : (chomp l).length < BUFSIZ) :
    ReadWhole l ∧ pieces BUFSIZ l = [chomp l ++ ['\n']] ∨
      ¬ ReadWhole l ∧ chomp l ≠ [] ∧
        (pieces BUFSIZ l = [chomp l] ∨ pieces BUFSIZ l = [chomp l, ['\n']]) := by
  obtain ⟨hnl, hshape | ⟨hshape, hne⟩⟩ := mem_lines h
  · have hl : l.length = (chomp l).length + 1 := by
      conv_lhs => rw [hshape]
      rw [List.length_append, List.length_singleton]
    rcases Nat.lt_or_ge l.length BUFSIZ with hlt | hge
    · refine Or.inl ⟨⟨hshape, hlt⟩, ?_⟩
      rw [pieces, if_pos hlt, ← hshape]
    · have hsize : BUFSIZ - 1 = (chomp l).length := by omega
      have hpos : 0 < BUFSIZ - 1 := by decide
      refine Or.inr ⟨fun hwhole => absurd hwhole.2 (Nat.not_lt.mpr hge), ?_, Or.inr ?_⟩
      · exact List.length_pos_iff.mp (by omega)
      · rw [pieces, if_neg (Nat.not_lt.mpr hge), hsize]
        generalize chomp l = c at hshape ⊢
        rw [hshape, List.take_left, List.drop_left]
  · refine Or.inr ⟨fun hwhole => ?_, by rwa [← hshape], Or.inl ?_⟩
    · have heq := hwhole.1
      rw [← hshape] at heq
      exact absurd (congrArg List.length heq) (by simp)
    · rw [pieces, if_pos (by rw [hshape]; exact hlen), ← hshape]

/-- The names a line should give. -/
def namesOf (l : List Char) : List Name := if isNameLine (chomp l) then [chomp l] else []

/-- **The names a line gives**: the right ones if it is read whole or is no name
line, and otherwise none or one that lacks its last character. -/
theorem filterMap_nameOf_pieces {text l : List Char} (h : l ∈ lines text)
    (hlen : (chomp l).length < BUFSIZ) :
    (isNameLine (chomp l) = true → ReadWhole l) ∧
        (pieces BUFSIZ l).filterMap nameOf = namesOf l ∨
      isNameLine (chomp l) = true ∧ ¬ ReadWhole l ∧ chomp l ≠ [] ∧
        ((pieces BUFSIZ l).filterMap nameOf = [] ∨
          (pieces BUFSIZ l).filterMap nameOf = [(chomp l).dropLast]) := by
  obtain ⟨hnl, -⟩ := mem_lines h
  rcases pieces_of_mem_lines h hlen with ⟨hwhole, hpieces⟩ | ⟨hcut, hne, hpieces⟩
  · refine Or.inl ⟨fun _ => hwhole, ?_⟩
    rw [hpieces, List.filterMap_cons, nameOf_newline hnl, namesOf]
    cases isNameLine (chomp l) <;> rfl
  · have hnewline : nameOf ['\n'] = none := by decide
    have hbare := nameOf_bare hne hnl
    cases hname : isNameLine (chomp l) with
    | false =>
      rw [hname] at hbare
      refine Or.inl ⟨fun h => absurd h (by decide), ?_⟩
      rcases hpieces with hpieces | hpieces <;> simp [hpieces, hbare, hnewline, namesOf, hname]
    | true =>
      rw [hname, if_pos rfl] at hbare
      refine Or.inr ⟨rfl, hcut, hne, ?_⟩
      -- a part of `PATH=` is taken for the end of the file by `sscanf`
      by_cases hpre : chomp l <+: "PATH=".toList
      · rw [if_pos hpre] at hbare
        left
        rcases hpieces with hpieces | hpieces <;> simp [hpieces, hbare, hnewline]
      · rw [if_neg hpre] at hbare
        right
        rcases hpieces with hpieces | hpieces <;> simp [hpieces, hbare, hnewline]

/-- The path of a line is always right. -/
theorem filterMap_pathOf_pieces {text l : List Char} (h : l ∈ lines text)
    (hlen : (chomp l).length < BUFSIZ) :
    (pieces BUFSIZ l).filterMap pathOf = (pathWord (chomp l)).toList := by
  obtain ⟨hnl, -⟩ := mem_lines h
  have hnewline : pathOf ['\n'] = none := by decide
  rcases pieces_of_mem_lines h hlen with ⟨-, hpieces⟩ | ⟨-, -, hpieces | hpieces⟩
  · rw [hpieces, List.filterMap_cons, pathOf_newline hnl]
    cases pathWord (chomp l) <;> rfl
  · rw [hpieces, List.filterMap_cons, pathOf_bare]
    cases pathWord (chomp l) <;> rfl
  · rw [hpieces, List.filterMap_cons, pathOf_bare, List.filterMap_cons, hnewline]
    cases pathWord (chomp l) <;> rfl

/-! ### The whole file -/

/-- An expansion of a list that agrees with another one on an entry or is lighter is
no heavier on the whole list. -/
theorem sum_flatMap_le {α β : Type*} (w : β → ℕ) {f g : α → List β} {l : List α}
    (h : ∀ a ∈ l, f a = g a ∨ ((f a).map w).sum < ((g a).map w).sum) :
    ((l.flatMap f).map w).sum ≤ ((l.flatMap g).map w).sum := by
  induction l with
  | nil => exact Nat.le_refl _
  | cons a l ih =>
    have ih' := ih fun b hb => h b (List.mem_cons_of_mem _ hb)
    simp only [List.flatMap_cons, List.map_append, List.sum_append]
    rcases h a List.mem_cons_self with heq | hlt
    · rw [heq]
      omega
    · omega

/-- It agrees on the whole list only if it agrees on every entry. -/
theorem flatMap_eq_iff_of_weight {α β : Type*} (w : β → ℕ) {f g : α → List β} {l : List α}
    (h : ∀ a ∈ l, f a = g a ∨ ((f a).map w).sum < ((g a).map w).sum) :
    l.flatMap f = l.flatMap g ↔ ∀ a ∈ l, f a = g a := by
  induction l with
  | nil => simp
  | cons a l ih =>
    have hl : ∀ b ∈ l, f b = g b ∨ ((f b).map w).sum < ((g b).map w).sum := fun b hb =>
      h b (List.mem_cons_of_mem _ hb)
    rw [List.flatMap_cons, List.flatMap_cons, List.forall_mem_cons, ← ih hl]
    constructor
    · intro heq
      rcases h a List.mem_cons_self with hfg | hlt
      · rw [hfg] at heq
        exact ⟨hfg, List.append_cancel_left heq⟩
      · -- a lighter entry cannot be made up for
        have hsum := congrArg (fun l => (List.map w l).sum) heq
        simp only [List.map_append, List.sum_append] at hsum
        have hle := sum_flatMap_le w hl
        omega
    · rintro ⟨hfg, hrest⟩
      rw [hfg, hrest]

/-- The weight of a name that tells it from one without its last character, and
from none. -/
theorem filterMap_nameOf_pieces_or_lt {text l : List Char} (h : l ∈ lines text)
    (hlen : (chomp l).length < BUFSIZ) :
    (pieces BUFSIZ l).filterMap nameOf = namesOf l ∨
      (((pieces BUFSIZ l).filterMap nameOf).map (·.length + 1)).sum <
        ((namesOf l).map (·.length + 1)).sum := by
  rcases filterMap_nameOf_pieces h hlen with ⟨-, heq⟩ | ⟨hname, -, hne, hnone | hcut⟩
  · exact Or.inl heq
  · right
    rw [hnone, namesOf, if_pos hname]
    simp
  · right
    have hpos := List.length_pos_iff.mpr hne
    rw [hcut, namesOf, if_pos hname]
    simp only [List.map_cons, List.map_nil, List.sum_cons, List.sum_nil, List.length_dropLast]
    omega

theorem nameLines_eq (text : List Char) : nameLines text = (lines text).flatMap namesOf := by
  unfold nameLines
  induction lines text with
  | nil => rfl
  | cons l ls ih =>
    rw [List.map_cons, List.filter_cons, List.flatMap_cons, namesOf]
    split
    · rw [ih]
      rfl
    · rw [ih]
      rfl

/-- The names fit their blocks exactly when those of the name lines do. -/
theorem fits_nameLines_iff (text : List Char) : Fits LEAST_BLOCK (nameLines text) ↔
    ∀ l ∈ lines text, isNameLine (chomp l) = true → (chomp l).length < LEAST_BLOCK := by
  simp only [Fits, nameLines, List.mem_filter, List.mem_map]
  constructor
  · intro h l hl hname
    exact h (chomp l) ⟨⟨l, hl, rfl⟩, hname⟩
  · rintro h n ⟨⟨l, hl, rfl⟩, hname⟩
    exact h l hl hname

/-- Names that do not fit may all be lost, and a name line has a name. -/
theorem fits_of_readBack_eq_nameLines {text : List Char} {names : List Name}
    (h : ∀ heap, HeapBlock.readBack LEAST_BLOCK heap names = nameLines text) :
    Fits LEAST_BLOCK names := by
  by_contra hfits
  have hempty := h fun _ _ => []
  rw [readBack_eq_replicate hfits] at hempty
  have hmem : [] ∈ nameLines text := by
    rw [← hempty, List.mem_replicate]
    exact ⟨(length_pos_of_not_fits hfits).ne', rfl⟩
  exact absurd (List.mem_filter.mp hmem).2 (by decide)

section Loader

variable {text : List Char} (hlen : ∀ l ∈ lines text, (chomp l).length < BUFSIZ)
include hlen

/-- The buffers the loop over `fgets` sees. -/
theorem fgetsAll_of_fits : fgetsAll BUFSIZ text = (lines text).flatMap (pieces BUFSIZ) := by
  refine fgetsAll_eq_pieces (by decide) fun l hl => ?_
  have hc := hlen l hl
  rcases (mem_lines hl).2 with hshape | ⟨hshape, -⟩
  · have hlength := congrArg List.length hshape
    rw [List.length_append, List.length_singleton] at hlength
    omega
  · have hlength := congrArg List.length hshape
    omega

/-- The paths the loader takes are those of the file. -/
theorem filterMap_pathOf_fgetsAll : (fgetsAll BUFSIZ text).filterMap pathOf =
    ((lines text).map chomp).filterMap pathWord := by
  rw [fgetsAll_of_fits hlen, List.filterMap_flatMap, List.filterMap_map,
    List.filterMap_eq_flatMap_toList]
  exact List.flatMap_congr fun l hl => filterMap_pathOf_pieces hl (hlen l hl)

/-- The loader takes no more names than there are name lines. -/
theorem length_filterMap_nameOf_le :
    ((fgetsAll BUFSIZ text).filterMap nameOf).length ≤ (nameLines text).length := by
  rw [fgetsAll_of_fits hlen, List.filterMap_flatMap, nameLines_eq, List.length_flatMap,
    List.length_flatMap]
  refine List.sum_le_sum fun l hl => ?_
  rcases filterMap_nameOf_pieces hl (hlen l hl) with ⟨-, heq⟩ | ⟨hname, -, -, hnone | hcut⟩
  · rw [heq]
  · rw [hnone]
    exact Nat.zero_le _
  · rw [hcut, namesOf, if_pos hname]
    exact Nat.le_refl 1

/-- The names the loader takes are those of the file exactly when every name line
is read whole. -/
theorem filterMap_nameOf_eq_iff : (fgetsAll BUFSIZ text).filterMap nameOf = nameLines text ↔
    ∀ l ∈ lines text, isNameLine (chomp l) = true → ReadWhole l := by
  rw [fgetsAll_of_fits hlen, List.filterMap_flatMap, nameLines_eq,
    flatMap_eq_iff_of_weight (fun n : Name => n.length + 1) fun l hl =>
      filterMap_nameOf_pieces_or_lt hl (hlen l hl)]
  refine forall₂_congr fun l hl => ?_
  rcases filterMap_nameOf_pieces hl (hlen l hl) with ⟨hwhole, heq⟩ | ⟨hname, hcut, hne, hlost⟩
  · exact iff_of_true heq hwhole
  · refine iff_of_false (fun heq => ?_) fun hwhole => hcut (hwhole hname)
    rw [namesOf, if_pos hname] at heq
    rcases hlost with hnone | hshort
    · rw [hnone] at heq
      simp at heq
    · rw [hshort, List.cons.injEq] at heq
      have hlength := congrArg List.length heq.1
      have hpos := List.length_pos_iff.mpr hne
      rw [List.length_dropLast] at hlength
      omega

/-- What the loader leaves behind, when there is room for the names. -/
theorem tables_extractTraceMetrices (heap : List Name → ℕ → Name)
    (hroom : (nameLines text).length ≤ MAX_TRACE_NUM) :
    (extractTraceMetrices heap text).map TraceConf.tables =
      some (HeapBlock.readBack LEAST_BLOCK heap ((fgetsAll BUFSIZ text).filterMap nameOf),
        pathValue text) := by
  have hle := length_filterMap_nameOf_le hlen
  have hloop := foldlM_extractLine (fgetsAll BUFSIZ text) TraceConf.init
  rw [if_pos (by simp [TraceConf.init]; omega), filterMap_pathOf_fgetsAll hlen, ← pathValue,
    Option.map_eq_some_iff] at hloop
  obtain ⟨conf, hrun, htables⟩ := hloop
  obtain ⟨hnames, hpath⟩ := Prod.mk.inj htables
  rw [extractTraceMetrices, hrun, ← hpath]
  rw [TraceConf.init, List.nil_append] at hnames
  rw [← hnames]
  rfl

/-- **The loader takes over what the file says exactly when every name line is read
whole**, so that it ends in a newline and fits the buffer with it, **and its name fits
the block it is copied to**. -/
theorem extractTraceMetrices_iff (hroom : (nameLines text).length ≤ MAX_TRACE_NUM) :
    (∀ heap, (extractTraceMetrices heap text).map TraceConf.tables =
      some (nameLines text, pathValue text)) ↔
      ∀ l ∈ lines text, isNameLine (chomp l) = true →
        (l = chomp l ++ ['\n'] ∧ l.length < BUFSIZ) ∧ (chomp l).length < LEAST_BLOCK := by
  simp only [tables_extractTraceMetrices hlen _ hroom, Option.some.injEq, Prod.mk.injEq, and_true,
    imp_and, forall_and]
  have hread := filterMap_nameOf_eq_iff hlen
  simp only [ReadWhole, imp_and, forall_and] at hread
  rw [← hread, ← fits_nameLines_iff]
  constructor
  · intro h
    have hfits := fits_of_readBack_eq_nameLines h
    have heq := h fun _ _ => []
    rw [readBack_of_fits hfits] at heq
    exact ⟨heq, heq ▸ hfits⟩
  · rintro ⟨heq, hfits⟩ heap
    rw [heq, readBack_of_fits hfits]

end Loader

/-- A file with a comment, a path, a section and a name. -/
theorem extractTraceMetrices_terminated :
    (extractTraceMetrices (fun _ _ => []) "#\nPATH=/t/\n[d]\nkvm_exit\n".toList).map
      TraceConf.tables = some (["kvm_exit".toList], "/t/".toList) :=
  (extractTraceMetrices_iff (by decide) (by decide)).mpr (by decide) _

/-- Without a newline at the end of the file the last name is cut, whatever the heap
holds. -/
theorem extractTraceMetrices_unterminated :
    (∀ l ∈ lines "kvm_exit".toList, (chomp l).length < BUFSIZ) ∧
      (nameLines "kvm_exit".toList).length ≤ MAX_TRACE_NUM ∧
      ∀ heap, (extractTraceMetrices heap "kvm_exit".toList).map TraceConf.tables ≠
        some (nameLines "kvm_exit".toList, pathValue "kvm_exit".toList) := by
  refine ⟨by decide, by decide, fun heap => ?_⟩
  rw [tables_extractTraceMetrices (by decide) heap (by decide), readBack_of_fits (by decide)]
  decide

end LinuxNote.Kvmstat
