import LinuxNote.Kernel.ModuleEx
import Mathlib.Data.List.Basic

/-!
# The files that are open on a device

A process opens the device of `module_ex.c`, reads, and closes the file.  The kernel numbers the
files, calls the functions of the module for them, and for no file that is not open.  The module
counts what is open, and lets nobody in while that is not zero.

## Main definitions

* `System` — the module with its counters, and the open files.
* `deviceOpen`, `deviceRelease`, `deviceWrite` — the functions of the module.
* `step`, `run` — a call, and calls one after the other.
* `transfers` — which file has got which bytes.

## Main results

* `step_ok` — what a call does.
* `run_sorted` — the files get their bytes one after the other.
* `sessions_right` — **whoever calls what in any order**, one file is open at most, and each gets
  a part of the stream in one piece.
-/

namespace LinuxNote.ModuleEx

/-! ### The system -/

def EBADF : ℤ := 9
def EBUSY : ℤ := 16
def EINVAL : ℤ := 22

/-- The module, what it has added to its usage count, and the files that are open.  The kernel
has given all numbers below `next`. -/
structure System where
  state : State
  deviceOpenCount : ℤ
  usage : ℤ
  files : List ℕ
  next : ℕ

/-- After the module has been loaded. -/
def System.loaded (s : State) : System := ⟨s, 0, 0, [], 0⟩

/-- `device_open`: only one file can be open at a time, and an open that is refused counts nothing.
-/
def deviceOpen (s : System) : System × ℤ :=
  if s.deviceOpenCount ≠ 0 then (s, -EBUSY)
  else ({ s with deviceOpenCount := s.deviceOpenCount + 1, usage := s.usage + 1 }, 0)

/-- `device_release`. -/
def deviceRelease (s : System) : System × ℤ :=
  ({ s with deviceOpenCount := s.deviceOpenCount - 1, usage := s.usage - 1 }, 0)

/-- `device_write`. -/
def deviceWrite (s : System) (_buffer : List Char) : System × ℤ := (s, -EINVAL)

/-- What a process asks the kernel for. -/
inductive Call
  | open
  | read (file len : ℕ)
  | write (file : ℕ) (buffer : List Char)
  | close (file : ℕ)

/-- What the process gets. -/
inductive Result
  | opened (file : ℕ)
  | code (n : ℤ)
  | data (r : Reply)

/-- A call.  The kernel answers those for a file that is not open itself, with `EBADF`, and the
module gets the others. -/
def step (s : System) : Call → Option (System × Result)
  | .open =>
    let (s', code) := deviceOpen s
    if code = 0 then
      some ({ s' with files := s'.next :: s'.files, next := s'.next + 1 }, .opened s'.next)
    else some (s', .code code)
  | .read file len =>
    if file ∈ s.files then do
      let (state, r) ← deviceRead s.state len
      some ({ s with state := state }, .data r)
    else some (s, .code (-EBADF))
  | .write file buffer =>
    if file ∈ s.files then
      let (s', code) := deviceWrite s buffer
      some (s', .code code)
    else some (s, .code (-EBADF))
  | .close file =>
    if file ∈ s.files then
      let (s', code) := deviceRelease s
      some ({ s' with files := s'.files.erase file }, .code code)
    else some (s, .code (-EBADF))

/-- Calls one after the other, with what they return. -/
def run : List Call → System → Option (System × List (Call × Result))
  | [], s => some (s, [])
  | c :: cs, s => do
    let (s, r) ← step s c
    let (s, log) ← run cs s
    some (s, (c, r) :: log)

/-- The file that gets bytes by a call, and the bytes; only a read that is answered with data
transfers any. -/
def transfer : Call × Result → Option (ℕ × List Char)
  | (.read file _, .data r) => some (file, r.buffer)
  | _ => none

/-- Which file has got which bytes, in this order. -/
def transfers (log : List (Call × Result)) : List (ℕ × List Char) := log.filterMap transfer

/-- All bytes that have been transferred. -/
def bytes (ts : List (ℕ × List Char)) : List Char := ts.flatMap Prod.snd

/-! ### One call -/

section Step

variable {m : Message}

/-- The counters are the number of the open files, and that is one at most, so that the module's
own counters say what the kernel's table of files says. -/
structure System.Inv (m : Message) (s : System) : Prop where
  pointsInto : s.state.PointsInto m
  deviceOpenCount : s.deviceOpenCount = s.files.length
  usage : s.usage = s.files.length
  length_le : s.files.length ≤ 1
  lt_next : ∀ f ∈ s.files, f < s.next

/-- Only one file is open. -/
theorem System.Inv.eq_of_mem {s : System} (h : s.Inv m) {f g : ℕ} (hf : f ∈ s.files)
    (hg : g ∈ s.files) : f = g := by
  have hlen := h.length_le
  generalize s.files = files at hf hg hlen
  match files, hlen with
  | [e], _ => rw [List.mem_singleton.mp hf, List.mem_singleton.mp hg]

/-- What a call does: it keeps the invariant, a file that is open after it was open before or is
new, and only an open file gets bytes, which are the next of the stream. -/
structure Steps (m : Message) (s : System) (c : Call) (r : Result) (s' : System) : Prop where
  inv : s'.Inv m
  files : ∀ f ∈ s'.files, f ∈ s.files ∨ s.next ≤ f
  next : s.next ≤ s'.next
  transfer_mem : ∀ t ∈ transfer (c, r), t.1 ∈ s.files
  ahead : bytes (transfer (c, r)).toList ++ₛ ahead m s'.state.msgPtr = ahead m s.state.msgPtr

/-- A call that only returns a code. -/
theorem Steps.refl {s : System} (h : s.Inv m) {c : Call} {n : ℤ} : Steps m s c (.code n) s where
  inv := h
  files _ hf := Or.inl hf
  next := Nat.le_refl _
  transfer_mem t ht := by cases c <;> cases ht
  ahead := by cases c <;> rfl

/-- An open. -/
theorem step_open {s : System} (h : s.Inv m) : ∃ s' r, step s .open = some (s', r) ∧
    Steps m s .open r s' ∧ (s.files = [] → r = .opened s.next) ∧
      (s.files ≠ [] → r = .code (-EBUSY) ∧ s' = s) := by
  by_cases hfiles : s.files = []
  · have hcount : s.deviceOpenCount = 0 := by rw [h.deviceOpenCount, hfiles]; rfl
    have husage : s.usage = 0 := by rw [h.usage, hfiles]; rfl
    have hopen : deviceOpen s =
        ({ s with deviceOpenCount := s.deviceOpenCount + 1, usage := s.usage + 1 }, 0) :=
      if_neg (not_not.mpr hcount)
    refine ⟨_, _, by rw [step, hopen]; rfl, ?_, fun _ => rfl, fun hne => absurd hfiles hne⟩
    refine ⟨⟨h.pointsInto, ?_, ?_, ?_, ?_⟩, ?_, Nat.le_succ _, ?_, rfl⟩
    · simp [hcount, hfiles]
    · simp [husage, hfiles]
    · simp [hfiles]
    · simp [hfiles]
    · simp [hfiles]
    · intro t ht
      cases ht
  · have hcount : s.deviceOpenCount ≠ 0 := by
      rw [h.deviceOpenCount]
      exact_mod_cast Nat.ne_of_gt (List.length_pos_iff.mpr hfiles)
    have hopen : deviceOpen s = (s, -EBUSY) := if_pos hcount
    refine ⟨s, .code (-EBUSY), by rw [step, hopen]; rfl, Steps.refl h, fun h' => absurd h' hfiles,
      fun _ => ⟨rfl, rfl⟩⟩

/-- **A call** goes through and keeps the invariant, whoever makes it and whatever was called
before. -/
theorem step_ok {s : System} (h : s.Inv m) (c : Call) :
    ∃ s' r, step s c = some (s', r) ∧ Steps m s c r s' := by
  cases c with
  | «open» =>
    obtain ⟨s', r, hstep, hsteps, -⟩ := step_open h
    exact ⟨s', r, hstep, hsteps⟩
  -- a read from a file that is open delivers what the device has ahead
  | read file len =>
    by_cases hfile : file ∈ s.files
    · obtain ⟨state, r, hread, hdelivers⟩ := deviceRead_ok h.pointsInto len
      refine ⟨{ s with state := state }, .data r, ?_, ?_⟩
      · rw [step, if_pos hfile, hread]
        rfl
      · refine ⟨⟨hdelivers.pointsInto, h.deviceOpenCount, h.usage, h.length_le, h.lt_next⟩,
          fun _ hf => Or.inl hf, Nat.le_refl _, ?_, ?_⟩
        · rintro t ⟨⟩
          exact hfile
        · show (r.buffer ++ []) ++ₛ _ = _
          rw [List.append_nil, hdelivers.ahead]
    · exact ⟨s, _, if_neg hfile, Steps.refl h⟩
  | write file buffer =>
    by_cases hfile : file ∈ s.files
    · exact ⟨s, .code (-EINVAL), if_pos hfile, Steps.refl h⟩
    · exact ⟨s, _, if_neg hfile, Steps.refl h⟩
  -- `close` takes one file out, and the counters go down with it
  | close file =>
    by_cases hfile : file ∈ s.files
    · have hlen := List.length_erase_of_mem hfile
      have hpos := List.length_pos_of_mem hfile
      refine ⟨_, .code 0, if_pos hfile, ⟨h.pointsInto, ?_, ?_, ?_, ?_⟩, ?_, Nat.le_refl _, ?_, rfl⟩
      · show s.deviceOpenCount - 1 = ((s.files.erase file).length : ℤ)
        rw [h.deviceOpenCount]
        omega
      · show s.usage - 1 = ((s.files.erase file).length : ℤ)
        rw [h.usage]
        omega
      · have := h.length_le
        show (s.files.erase file).length ≤ 1
        omega
      · exact fun f hf => h.lt_next f (List.mem_of_mem_erase hf)
      · exact fun f hf => Or.inl (List.mem_of_mem_erase hf)
      · intro t ht
        cases ht
    · exact ⟨s, _, if_neg hfile, Steps.refl h⟩

end Step

/-! ### Any calls -/

section Run

variable {m : Message}

/-- What calls do: they keep the invariant, what they transfer and what is ahead of them is what
was ahead, and it goes to files that are open or new, one after the other. -/
structure Runs (m : Message) (s : System) (log : List (Call × Result)) (s' : System) : Prop where
  inv : s'.Inv m
  ahead : bytes (transfers log) ++ₛ ahead m s'.state.msgPtr = ahead m s.state.msgPtr
  files : ∀ t ∈ transfers log, t.1 ∈ s.files ∨ s.next ≤ t.1
  sorted : (transfers log).Pairwise fun t u => t.1 ≤ u.1

/-- **The calls** go through, by induction on them: what each of them does is put together in the
order in which they are made. -/
theorem run_ok (cs : List Call) {s : System} (h : s.Inv m) :
    ∃ s' log, run cs s = some (s', log) ∧ log.map Prod.fst = cs ∧ Runs m s log s' := by
  induction cs generalizing s with
  | nil => exact ⟨s, [], rfl, rfl, h, rfl, by simp [transfers], List.Pairwise.nil⟩
  | cons c cs ih =>
    obtain ⟨s₁, r, hstep, hsteps⟩ := step_ok h c
    obtain ⟨s₂, log, hrun, hcalls, hruns⟩ := ih hsteps.inv
    have hlater : ∀ u ∈ transfers log, u.1 ∈ s.files ∨ s.next ≤ u.1 := by
      intro u hu
      rcases hruns.files u hu with hf | hnew
      · exact hsteps.files u.1 hf
      · exact Or.inr (Nat.le_trans hsteps.next hnew)
    have hcons : transfers ((c, r) :: log) = (transfer (c, r)).toList ++ transfers log := by
      rw [transfers, List.filterMap_cons]
      cases transfer (c, r) <;> rfl
    refine ⟨s₂, (c, r) :: log, ?_, by rw [List.map_cons, hcalls], hruns.inv, ?_, ?_, ?_⟩
    · simp only [run, hstep, hrun, Option.bind_eq_bind, Option.bind_some]
    · rw [hcons, bytes, List.flatMap_append]
      calc _ = bytes (transfer (c, r)).toList ++ₛ
            (bytes (transfers log) ++ₛ ModuleEx.ahead m s₂.state.msgPtr) :=
            Stream'.append_append_stream _ _ _
        _ = ModuleEx.ahead m s.state.msgPtr := by rw [hruns.ahead, hsteps.ahead]
    · intro t ht
      rw [hcons, List.mem_append, Option.mem_toList] at ht
      rcases ht with ht | ht
      · exact Or.inl (hsteps.transfer_mem t ht)
      · exact hlater t ht
    · rw [hcons, List.pairwise_append]
      refine ⟨by cases transfer (c, r) <;> simp, hruns.sorted, fun t ht u hu => ?_⟩
      have ht' := hsteps.transfer_mem t (Option.mem_toList.mp ht)
      rcases hlater u hu with hu' | hu'
      · -- only one file is open
        exact Nat.le_of_eq (h.eq_of_mem ht' hu')
      · exact Nat.le_trans (Nat.le_of_lt (h.lt_next _ ht')) hu'

/-! ### The part of each file -/

/-- The bytes that a file has got. -/
def bytesOf (file : ℕ) (ts : List (ℕ × List Char)) : List Char :=
  bytes (ts.filter fun t => t.1 = file)

/-- The bytes that the files before it have got. -/
def bytesBefore (file : ℕ) (ts : List (ℕ × List Char)) : List Char :=
  bytes (ts.filter fun t => t.1 < file)

/-- If the files come one after the other, the list is that of the files before one, its own, and
that of the files after it. -/
theorem filter_append_filter (file : ℕ) {ts : List (ℕ × List Char)}
    (h : ts.Pairwise fun t u => t.1 ≤ u.1) :
    ts = ts.filter (fun t => t.1 < file) ++ ts.filter (fun t => t.1 = file) ++
      ts.filter (fun t => file < t.1) := by
  induction ts with
  | nil => rfl
  | cons t ts ih =>
    obtain ⟨hle, hsorted⟩ := List.pairwise_cons.mp h
    have hrest := ih hsorted
    have hnone (hge : file ≤ t.1) : ts.filter (fun u => u.1 < file) = [] :=
      List.filter_eq_nil_iff.mpr fun u hu hlt =>
        Nat.not_lt.mpr (Nat.le_trans hge (hle u hu)) (of_decide_eq_true hlt)
    -- by the place of the first session, behind which there are no smaller ones
    rcases Nat.lt_trichotomy t.1 file with hlt | heq | hgt
    · simp only [List.filter_cons, hlt, Nat.ne_of_lt hlt, Nat.lt_asymm hlt, decide_true, decide_false,
        if_true, Bool.false_eq_true, if_false, List.cons_append]
      rw [← hrest]
    · have hless := hnone (Nat.le_of_eq heq.symm)
      rw [hless] at hrest
      simp only [List.filter_cons, heq, Nat.lt_irrefl, decide_true, decide_false, if_true,
        Bool.false_eq_true, if_false, hless, List.nil_append, List.cons_append] at hrest ⊢
      rw [← hrest]
    · have hless := hnone (Nat.le_of_lt hgt)
      have hequal : ts.filter (fun u => u.1 = file) = [] :=
        List.filter_eq_nil_iff.mpr fun u hu heq =>
          Nat.ne_of_gt (Nat.lt_of_lt_of_le hgt (hle u hu)) (of_decide_eq_true heq)
      rw [hless, hequal] at hrest
      simp only [List.filter_cons, hgt, Nat.ne_of_gt hgt, Nat.lt_asymm hgt, decide_true, decide_false,
        if_true, Bool.false_eq_true, if_false, hless, hequal, List.nil_append] at hrest ⊢
      rw [← hrest]

/-- **Whoever calls what in any order**: each call gets its answer, no access is outside of the message, at most one file is
open, and the counters of the module say so; an open succeeds exactly when none is, and else
changes nothing.  What is delivered is the message again and again, of which each file gets one
piece, which starts where the files before it have stopped. -/
theorem sessions_right (m : Message) (majorNum : ℤ) (cs : List Call) : ∃ s₀ code s log,
    moduleExInit m.text majorNum = some (s₀, code) ∧ run cs (.loaded s₀) = some (s, log) ∧
      log.map Prod.fst = cs ∧ s.files.length ≤ 1 ∧ s.deviceOpenCount = s.files.length ∧ s.usage = s.files.length ∧
      (∃ s' r, step s .open = some (s', r) ∧ (s.files = [] → r = .opened s.next) ∧
        (s.files ≠ [] → r = .code (-EBUSY) ∧ s' = s)) ∧
      bytes (transfers log) = m.repeated.take (bytes (transfers log)).length ∧
      ∀ file, bytesOf file (transfers log) =
        (m.repeated.drop (bytesBefore file (transfers log)).length).take
          (bytesOf file (transfers log)).length := by
  obtain ⟨s₀, code, hinit, hpoints, hzero⟩ := moduleExInit_ok m majorNum
  have hloaded : (System.loaded s₀).Inv m :=
    ⟨hpoints, rfl, rfl, Nat.zero_le 1, fun f hf => absurd hf List.not_mem_nil⟩
  obtain ⟨s, log, hrun, hcalls, hruns⟩ := run_ok cs hloaded
  obtain ⟨s', r, hopen, -, hfree, hbusy⟩ := step_open hruns.inv
  have hstream : bytes (transfers log) ++ₛ ahead m s.state.msgPtr = m.repeated := by
    rw [hruns.ahead, ← ahead_zero, ← hzero]
    rfl
  refine ⟨s₀, code, s, log, hinit, hrun, hcalls, hruns.inv.length_le, hruns.inv.deviceOpenCount,
    hruns.inv.usage, ⟨s', r, hopen, hfree, hbusy⟩, eq_take_of_append hstream, fun file => ?_⟩
  -- the stream is what went to the files before it, what it has got, and the rest
  let after := bytes ((transfers log).filter fun t => file < t.1)
  have hparts : bytes (transfers log) = bytesBefore file (transfers log) ++
      (bytesOf file (transfers log) ++ after) := by
    conv_lhs => rw [filter_append_filter file hruns.sorted]
    rw [bytes, List.flatMap_append, List.flatMap_append, List.append_assoc]
    rfl
  have hdrop : m.repeated.drop (bytesBefore file (transfers log)).length =
      bytesOf file (transfers log) ++ₛ (after ++ₛ ahead m s.state.msgPtr) := by
    rw [← hstream, hparts, Stream'.append_append_stream, Stream'.drop_append_stream,
      Stream'.append_append_stream]
  exact eq_take_of_append hdrop.symm

example : ((moduleExInit EXAMPLE_MSG.text 240).bind fun s =>
    run [.open, .read 0 5, .open, .close 0, .open, .read 1 4] (.loaded s.1)).map
      (fun r => transfers r.2) = some [(0, "Hello".toList), (1, ", Wo".toList)] := by
  decide

end Run

end LinuxNote.ModuleEx
