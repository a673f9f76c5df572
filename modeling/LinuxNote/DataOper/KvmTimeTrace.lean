import LinuxNote.Base.AwkNumber
import LinuxNote.Base.ShellText
import Mathlib.Algebra.BigOperators.Group.List.Basic
import Mathlib.Tactic.Linarith
import Mathlib.Tactic.Ring

/-!
# The times of guest and host

`kvm_time_trace.sh` reads the lines of a trace.  From the first `kvm_entry` on, the time from
an entry to an exit counts for the guest, and the time from an exit to an entry for the host,
and for external interrupts if the exit was for one.

Numbers are exact here.

## Main definitions

* `readLine` — what the program does with a line.
* `Trace` — a trace in which entries and exits alternate.
* `Trace.total` — the total length of the intervals of a kind.

## Main results

* `readLine_exit`, `readLine_entry` — a step from one event to the next.
* `run_lines` — the sums behind the lines that follow an event.
* `sums_trace` — **the sums are the totals of the intervals**, and cover the whole time.
-/

namespace LinuxNote.KvmTimeTrace

open AwkNumber ShellText

/-! ### The program -/

/-- A line that is printed on the way: the first entry, or the two times of an interval of the
guest or of the host. -/
inductive Printed
  | entry (text : List Char)
  | guest (kvmexit entry : ℚ)
  | host (entry kvmexit : ℚ)

/-- The variables of the program, which carry the times from one line to the next. -/
structure Vars where
  entry : List Char
  kvmexit : List Char
  sumGuest : ℚ
  sumExternal : ℚ
  sumHost : ℚ
  flag : ℕ
  flag1 : ℕ
  out : List Printed

/-- `BEGIN`.  The times are given as texts there and come from fields later, and so they are texts
here. -/
def Vars.begin : Vars := ⟨"0".toList, "0".toList, 0, 0, 0, 0, 0, []⟩

/-- The line is for an exit.  The pattern may be anywhere in the fourth field, which has a colon
behind it. -/
def isExit (line : List Char) : Bool := occursIn "kvm_exit".toList (field 4 line)

/-- The line is for an entry, by the same field. -/
def isEntry (line : List Char) : Bool := occursIn "kvm_entry".toList (field 4 line)

/-- The exit is for an external interrupt, as the reason of the exit is the sixth field. -/
def isExternal (line : List Char) : Bool := occursIn "EXTERNAL_INTERRUPT".toList (field 6 line)

/-- The time of a line, without the colon behind it, which is no part of a number. -/
def time (line : List Char) : ℚ := numValue (field 3 line)

/-- What is done behind the first entry: an exit ends an interval of the guest, and an entry one of
the host. -/
def account (v : Vars) (line : List Char) : Vars :=
  if isExit line then
    { v with
      kvmexit := field 3 line
      sumGuest := v.sumGuest + (time line - numValue v.entry)
      flag1 := if isExternal line then 1 else v.flag1
      out := v.out ++ [.guest (time line) (numValue v.entry)] }
  else if isEntry line then
    { v with
      entry := field 3 line
      sumHost := v.sumHost + (time line - numValue v.kvmexit)
      flag1 := if v.flag1 = 1 then 0 else v.flag1
      sumExternal :=
        if v.flag1 = 1 then v.sumExternal + (time line - numValue v.kvmexit) else v.sumExternal
      out := v.out ++ [.host (time line) (numValue v.kvmexit)] }
  else v

/-- What the program does with a line.  The flag is looked at twice: the first entry begins the
account, and is not a part of it itself. -/
def readLine (v : Vars) (line : List Char) : Vars :=
  let v := if v.flag = 1 then account v line else v
  if isEntry line = true ∧ v.flag = 0 then
    { v with flag := v.flag + 1, entry := field 3 line, out := v.out ++ [.entry (field 3 line)] }
  else v

/-- The variables behind all lines, on which `END` works. -/
def run (lines : List (List Char)) : Vars := lines.foldl readLine Vars.begin

/-- `END`: the sums with their percentages; the program fails when no time has passed. -/
def summary (v : Vars) : Option (List (ℚ × ℚ)) :=
  if v.sumGuest + v.sumHost = 0 then none
  else some ([v.sumGuest, v.sumHost, v.sumExternal].map fun sum =>
    (sum, sum / (v.sumGuest + v.sumHost) * 100))

/-! ### Traces -/

/-- The line is for an exit or an entry. -/
def isEvent (line : List Char) : Bool := isExit line || isEntry line

/-- A trace in which exits and entries alternate from the first entry on, as they do for a single
virtual processor. -/
structure Trace where
  before : List (List Char)
  first : List Char
  rest : List (List Char)
  before_entry : ∀ l ∈ before, isEntry l = false
  first_entry : isEntry first = true
  /-- No line is for an exit and an entry. -/
  kinds : ∀ l ∈ first :: rest, isExit l = true → isEntry l = false
  alternates : ((first :: rest).filter isEvent).IsChain fun a b => isEntry a ≠ isEntry b

namespace Trace

variable (t : Trace)

def lines : List (List Char) := t.before ++ t.first :: t.rest

/-- The exits and entries from the first entry on. -/
def events : List (List Char) := (t.first :: t.rest).filter isEvent

end Trace

/-- The total length of the intervals between neighbours that are of a kind, which is that of the
line they start with. -/
def total (kind : List Char → Bool) (events : List (List Char)) : ℚ :=
  (((events.zip events.tail).filter fun p => kind p.1).map fun p => time p.2 - time p.1).sum

/-- The time of the last exit or entry. -/
def lastTime (events : List (List Char)) : ℚ := (events.getLast?.map time).getD 0

theorem total_singleton (kind : List Char → Bool) (a : List Char) : total kind [a] = 0 := rfl

theorem total_cons (kind : List Char → Bool) (a b : List Char) (events : List (List Char)) :
    total kind (a :: b :: events) =
      (if kind a then time b - time a else 0) + total kind (b :: events) := by
  unfold total
  rw [List.tail_cons, List.zip_cons_cons, List.tail_cons, List.filter_cons]
  cases kind a with
  | true => simp
  | false => simp

/-- An event is an exit unless it is an entry. -/
theorem exit_of_event {l : List Char} (hl : isEvent l = true)
    (hkind : isExit l = true → isEntry l = false) : isExit l = !isEntry l := by
  unfold isEvent at hl
  cases hexit : isExit l with
  | true => rw [hkind hexit]; rfl
  | false =>
    rw [hexit, Bool.false_or] at hl
    rw [hl]
    rfl

/-! ### Steps -/

section Steps

variable {v : Vars} {a l : List Char}

/-- Behind an event: the variables know its time and whether it was an exit, which is all that the
next line needs. -/
structure Knows (v : Vars) (a : List Char) : Prop where
  flag : v.flag = 1
  atEntry : isEntry a = true → numValue v.entry = time a ∧ v.flag1 = 0
  atExit : isEntry a = false → numValue v.kvmexit = time a ∧ v.flag1 = if isExternal a then 1 else 0

theorem readLine_of_flag (h : v.flag = 1) : readLine v l = account v l := by
  have hflag : (account v l).flag = 1 := by
    unfold account
    split
    · exact h
    · split <;> exact h
  unfold readLine
  rw [if_pos h, if_neg]
  rintro ⟨-, hzero⟩
  rw [hflag] at hzero
  exact one_ne_zero hzero

/-- Other lines change nothing. -/
theorem readLine_other (h : Knows v a) (hl : isEvent l = false) : readLine v l = v := by
  unfold isEvent at hl
  rw [Bool.or_eq_false_iff] at hl
  rw [readLine_of_flag h.flag, account, hl.1, hl.2]
  rfl

/-- **From an entry to an exit** the time counts for the guest. -/
theorem readLine_exit (h : Knows v a) (ha : isEntry a = true) (hl : isExit l = true)
    (hkind : isEntry l = false) :
    Knows (readLine v l) l ∧ (readLine v l).sumGuest = v.sumGuest + (time l - time a) ∧
      (readLine v l).sumHost = v.sumHost ∧ (readLine v l).sumExternal = v.sumExternal := by
  obtain ⟨hentry, hflag1⟩ := h.atEntry ha
  rw [readLine_of_flag h.flag, account, if_pos hl, hentry, hflag1]
  refine ⟨⟨h.flag, fun hl' => ?_, fun _ => ⟨rfl, rfl⟩⟩, rfl, rfl, rfl⟩
  rw [hkind] at hl'
  exact absurd hl' Bool.false_ne_true

/-- **From an exit to an entry** the time counts for the host, and for external interrupts if
the exit was for one. -/
theorem readLine_entry (h : Knows v a) (ha : isEntry a = false) (hl : isExit l = false)
    (hkind : isEntry l = true) :
    Knows (readLine v l) l ∧ (readLine v l).sumGuest = v.sumGuest ∧
      (readLine v l).sumHost = v.sumHost + (time l - time a) ∧
      (readLine v l).sumExternal =
        v.sumExternal + if isExternal a then time l - time a else 0 := by
  obtain ⟨hexit, hflag1⟩ := h.atExit ha
  rw [readLine_of_flag h.flag, account, if_neg (by simp [hl]), if_pos hkind, hexit, hflag1]
  refine ⟨⟨h.flag, fun _ => ⟨rfl, ?_⟩, fun hl' => ?_⟩, rfl, rfl, ?_⟩
  · cases isExternal a <;> rfl
  · rw [hkind] at hl'
    exact absurd hl'.symm Bool.false_ne_true
  · cases isExternal a with
    | true => rfl
    | false => simp

end Steps

/-! ### Runs -/

/-- An exit for an external interrupt. -/
def isExternalExit (line : List Char) : Bool := isExit line && isExternal line

/-- **The sums behind the lines that follow an event**, by induction on the lines: each interval is
added when the line is read that ends it. -/
theorem run_lines {rest : List (List Char)} {v : Vars} {a : List Char} (h : Knows v a)
    (ha : isExit a = !isEntry a) (hkinds : ∀ l ∈ rest, isExit l = true → isEntry l = false)
    (hchain : (a :: rest.filter isEvent).IsChain fun a b => isEntry a ≠ isEntry b) :
    (rest.foldl readLine v).sumGuest = v.sumGuest + total isEntry (a :: rest.filter isEvent) ∧
      (rest.foldl readLine v).sumHost = v.sumHost + total isExit (a :: rest.filter isEvent) ∧
      (rest.foldl readLine v).sumExternal =
        v.sumExternal + total isExternalExit (a :: rest.filter isEvent) := by
  -- by induction on the lines, where `a` is the last exit or entry before them
  induction rest generalizing v a with
  | nil => simp [total_singleton]
  | cons l rest ih =>
    have hrest : ∀ l ∈ rest, isExit l = true → isEntry l = false :=
      fun m hm => hkinds m (List.mem_cons_of_mem l hm)
    rw [List.foldl_cons]
    cases hl : isEvent l with
    -- any other line changes nothing
    | false =>
      rw [List.filter_cons_of_neg (by simp [hl])] at hchain ⊢
      rw [readLine_other h hl]
      exact ih h ha hrest hchain
    | true =>
      rw [List.filter_cons_of_pos hl] at hchain ⊢
      obtain ⟨hne, htail⟩ := List.isChain_cons_cons.mp hchain
      have hkind : isExit l = !isEntry l := exit_of_event hl (hkinds l List.mem_cons_self)
      rw [total_cons, total_cons, total_cons, isExternalExit, ha]
      cases hentry : isEntry a with
      | true =>
        rw [hentry, ne_comm, ne_eq, Bool.not_eq_true] at hne
        rw [hne] at hkind
        obtain ⟨hknows, hguest, hhost, hexternal⟩ := readLine_exit h hentry hkind hne
        obtain ⟨iguest, ihost, iexternal⟩ := ih hknows (by rw [hkind, hne]) hrest htail
        rw [iguest, ihost, iexternal, hguest, hhost, hexternal]
        refine ⟨?_, ?_, ?_⟩ <;> simp [add_assoc]
      | false =>
        rw [hentry, ne_comm, ne_eq, Bool.not_eq_false] at hne
        rw [hne] at hkind
        obtain ⟨hknows, hguest, hhost, hexternal⟩ := readLine_entry h hentry hkind hne
        obtain ⟨iguest, ihost, iexternal⟩ := ih hknows (by rw [hkind, hne]) hrest htail
        rw [iguest, ihost, iexternal, hguest, hhost, hexternal]
        refine ⟨?_, ?_, ?_⟩ <;> simp [add_assoc]

/-- Before the first entry, nothing is counted. -/
theorem run_before {before : List (List Char)} (h : ∀ l ∈ before, isEntry l = false) :
    before.foldl readLine Vars.begin = Vars.begin := by
  induction before with
  | nil => rfl
  | cons l before ih =>
    have hl : readLine Vars.begin l = Vars.begin := by
      unfold readLine
      rw [h l List.mem_cons_self]
      rfl
    rw [List.foldl_cons, hl, ih fun m hm => h m (List.mem_cons_of_mem l hm)]

/-- The first entry starts the accounting. -/
theorem readLine_first {l : List Char} (h : isEntry l = true) :
    Knows (readLine Vars.begin l) l ∧ (readLine Vars.begin l).sumGuest = 0 ∧
      (readLine Vars.begin l).sumHost = 0 ∧ (readLine Vars.begin l).sumExternal = 0 := by
  have hfirst : readLine Vars.begin l =
      { Vars.begin with flag := 1, entry := field 3 l, out := [.entry (field 3 l)] } := by
    unfold readLine
    rw [h]
    rfl
  rw [hfirst]
  refine ⟨⟨rfl, fun _ => ⟨rfl, rfl⟩, fun hl => ?_⟩, rfl, rfl, rfl⟩
  rw [h] at hl
  exact absurd hl.symm Bool.false_ne_true

/-! ### Totals -/

/-- **The intervals of guest and host** together reach from the first event to the last, as each of
them starts where the one before ends. -/
theorem total_add_total {a : List Char} {events : List (List Char)}
    (h : ∀ l ∈ a :: events, isExit l = !isEntry l) :
    total isEntry (a :: events) + total isExit (a :: events) =
      lastTime (a :: events) - time a := by
  induction events generalizing a with
  | nil => simp [total_singleton, lastTime]
  | cons b events ih =>
    have htail := ih fun l hl => h l (List.mem_cons_of_mem a hl)
    have hlast : lastTime (a :: b :: events) = lastTime (b :: events) := by
      simp only [lastTime, List.getLast?_cons_cons]
    rw [total_cons, total_cons, h a List.mem_cons_self, hlast]
    cases isEntry a with
    | true =>
      rw [if_pos rfl, Bool.not_true, if_neg Bool.false_ne_true]
      linarith
    | false =>
      rw [if_neg Bool.false_ne_true, Bool.not_false, if_pos rfl]
      linarith

/-- A kind of intervals is not longer than one that includes it. -/
theorem total_le_total {kind kind' : List Char → Bool} (himp : ∀ l, kind l = true → kind' l = true)
    {events : List (List Char)} (h : events.IsChain fun a b => time a ≤ time b) :
    total kind events ≤ total kind' events := by
  match events, h with
  | [], _ => exact le_refl _
  | [a], _ => exact le_refl _
  | a :: b :: events, h =>
    obtain ⟨hle, htail⟩ := List.isChain_cons_cons.mp h
    have hrest := total_le_total himp htail
    rw [total_cons, total_cons]
    by_cases hk : kind a = true
    · rw [if_pos hk, if_pos (himp a hk)]
      linarith
    · rw [if_neg hk]
      split <;> linarith

namespace Trace

variable (t : Trace)

theorem events_eq : t.events = t.first :: t.rest.filter isEvent := by
  rw [events, List.filter_cons_of_pos]
  rw [isEvent, t.first_entry, Bool.or_true]

/-- The sums behind a trace. -/
theorem run_trace :
    (run t.lines).sumGuest = total isEntry t.events ∧
      (run t.lines).sumHost = total isExit t.events ∧
      (run t.lines).sumExternal = total isExternalExit t.events := by
  obtain ⟨hknows, hguest, hhost, hexternal⟩ := readLine_first t.first_entry
  have hfirst : isExit t.first = !isEntry t.first := by
    apply exit_of_event _ (t.kinds t.first List.mem_cons_self)
    rw [isEvent, t.first_entry, Bool.or_true]
  have hchain := t.alternates
  rw [← events, events_eq] at hchain
  have hsums := run_lines hknows hfirst (fun l hl => t.kinds l (List.mem_cons_of_mem _ hl)) hchain
  rw [hguest, hhost, hexternal, zero_add, zero_add, zero_add] at hsums
  rw [run, lines, List.foldl_append, run_before t.before_entry, List.foldl_cons, events_eq]
  exact hsums

/-- Guest and host together have the time from the first entry to the last event. -/
theorem sumGuest_add_sumHost :
    (run t.lines).sumGuest + (run t.lines).sumHost = lastTime t.events - time t.first := by
  obtain ⟨hguest, hhost, -⟩ := t.run_trace
  have hkinds : ∀ l ∈ t.first :: t.rest.filter isEvent, isExit l = !isEntry l := by
    intro l hl
    rw [← t.events_eq] at hl
    obtain ⟨hin, hevent⟩ := List.mem_filter.mp hl
    exact exit_of_event hevent (t.kinds l hin)
  rw [hguest, hhost, t.events_eq]
  exact total_add_total hkinds

end Trace

/-- **The sums are the totals of the intervals**: from an entry to an exit for the guest, from
an exit to an entry for the host, and of these the ones that start with an exit for an
external interrupt.  Guest and host together have the time from the first entry to the last
event, and external interrupts at most that of the host. -/
theorem sums_trace (t : Trace) :
    (run t.lines).sumGuest + (run t.lines).sumHost = lastTime t.events - time t.first ∧
      (run t.lines).sumGuest = total isEntry t.events ∧
      (run t.lines).sumExternal = total isExternalExit t.events ∧
      ((t.events.IsChain fun a b => time a ≤ time b) →
        (run t.lines).sumExternal ≤ (run t.lines).sumHost) := by
  obtain ⟨hguest, hhost, hexternal⟩ := t.run_trace
  refine ⟨t.sumGuest_add_sumHost, hguest, hexternal, fun hle => ?_⟩
  rw [hexternal, hhost]
  refine total_le_total (fun l hl => ?_) hle
  rw [isExternalExit, Bool.and_eq_true] at hl
  exact hl.1

/-- A trace that starts with an exit, and has an exit for an external interrupt. -/
def interruptTrace : Trace where
  before := ["qemu-1 [001] 9.5: kvm_exit: reason HLT".toList]
  first := "qemu-1 [001] 10.0: kvm_entry: vcpu 0".toList
  rest := [
    "qemu-1 [001] 12.5: kvm_exit: reason EXTERNAL_INTERRUPT".toList,
    "qemu-1 [001] 12.8: kvm_ack_irq: irqchip PIC".toList,
    "qemu-1 [001] 13.0: kvm_entry: vcpu 0".toList]
  before_entry := List.forall_mem_singleton.mpr (by decide +kernel)
  first_entry := by decide +kernel
  kinds := by
    rw [List.forall_mem_cons, List.forall_mem_cons, List.forall_mem_cons, List.forall_mem_singleton]
    decide +kernel
  alternates := by decide +kernel

theorem sums_interruptTrace :
    (run interruptTrace.lines).sumGuest + (run interruptTrace.lines).sumHost = 3 ∧
      (run interruptTrace.lines).sumGuest = 5 / 2 ∧
      (run interruptTrace.lines).sumExternal = 1 / 2 ∧
      (run interruptTrace.lines).sumExternal ≤ (run interruptTrace.lines).sumHost := by
  obtain ⟨hall, hguest, hexternal, hle⟩ := sums_trace interruptTrace
  refine ⟨hall.trans ?_, hguest.trans ?_, hexternal.trans ?_, hle ?_⟩ <;> decide +kernel

/-- The program has no summary exactly when no time has passed from the first entry to the
last event. -/
theorem summary_eq_none_iff (t : Trace) :
    summary (run t.lines) = none ↔ lastTime t.events = time t.first := by
  rw [summary, t.sumGuest_add_sumHost]
  simp [sub_eq_zero]

end LinuxNote.KvmTimeTrace
