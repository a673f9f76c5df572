import LinuxNote.Base.CText
import LinuxNote.Himeno.BindAndRun

/-!
# The options of `bindcpu`

`main` reads the options in their order.  `-b` is checked against the number of processes at
that time, and `-n` is cut to the number of processors but not checked against `-b`, so that the
first CPU and the number of processes need not fit together in the end.

## Main definitions

* `readOption`, `main` — the options, and what is called in the end.
* `Call.Binds` — the CPUs that processes are bound to.
* `InRange` — all of these are CPUs of the machine.
* `SameOutcome` — two command lines are both accepted or not, and use the same CPUs.

## Main results

* `foldlM_readOption` — the options are read if all pass their checks.
* `settings_mem` — what holds of the settings of options that pass.
* `binds_bindAndRun` — the CPUs of the processes of `bind_and_run`.
* `optionsRight_iff` — **exactly when** the CPUs are in range, and `-b` and `-n` can be
  exchanged.
-/

namespace LinuxNote.Himeno.BindCpu

open BindAndRun Relation

/-! ### The program -/

/-- An option as `getopt` returns it, with its argument.  All options that are not known lead to
`usage`. -/
inductive Opt
  | r (optarg : List Char)
  | p (optarg : List Char)
  | b (optarg : List Char)
  | c
  | n (optarg : List Char)
  | usage
  deriving DecidableEq

/-- The variables of `main`, which one option sets and another one is checked against. -/
structure Settings where
  numCpusToSpin : ℤ
  programName : List Char
  beginCpu : ℤ
  targetPid : ℤ
  deriving DecidableEq

def Settings.init : Settings := ⟨1, [], 0, 0⟩

section Program

variable (numProcs : ℤ) (readable executable : List Char → Bool)

/-- The number of processes that `-n` asks for, cut to what the machine has; it is never refused. -/
def cutNum (num : ℤ) : ℤ := if num < 1 then 1 else if num > numProcs then numProcs else num

/-- A `case` of the loop, which checks an option against those that have been read before it.
There are no settings if the program exits. -/
def readOption (s : Settings) : Opt → Option Settings
  | .r optarg =>
    if !readable optarg then none
    else if !executable optarg then none
    else some { s with programName := optarg }
  | .p optarg =>
    if CText.atoi optarg ≤ 0 then none else some { s with targetPid := CText.atoi optarg }
  | .b optarg =>
    -- the number of processes may still change
    if CText.atoi optarg < 0 ∨ CText.atoi optarg > numProcs - s.numCpusToSpin then none
    else some { s with beginCpu := CText.atoi optarg }
  | .c => if s.programName.length ≠ 0 then none else some s
  | .n optarg => some { s with numCpusToSpin := cutNum numProcs (CText.atoi optarg) }
  | .usage => none

/-- What `main` calls in the end: with a process number the process is bound, and else the program
is run. -/
inductive Call
  | bind (cpuid pid : ℤ)
  | bindAndRun (numthreads : ℤ) (program : List Char) (cpubegin : ℤ)

/-- What is called, if the command line is accepted. -/
def main (opts : List Opt) : Option Call :=
  match opts.foldlM (readOption numProcs readable executable) .init with
  | none => none
  | some s =>
    if s.programName.length = 0 ∧ s.targetPid = 0 then none
    else if s.targetPid > 0 then some (.bind s.beginCpu s.targetPid)
    else some (.bindAndRun s.numCpusToSpin s.programName s.beginCpu)

/-- A process is bound to the CPU, in some run: for `bind_and_run` by any of the processes that
leave the fork loop. -/
def Call.Binds (cpu : ℤ) : Call → Prop
  | .bind cpuid _ => cpu = cpuid
  | .bindAndRun numthreads _ cpubegin =>
    ∃ fork final, Run fork numthreads.toNat [.original] final ∧ AllLeft final ∧
      ∃ p ∈ final, p.cpu cpubegin = cpu

/-- The command line is accepted, and a process may be bound to the CPU; a command line that is
refused uses none. -/
def Uses (opts : List Opt) (cpu : ℤ) : Prop :=
  ∃ call, main numProcs readable executable opts = some call ∧ call.Binds cpu

/-! ### Right options -/

/-- Processes are bound to CPUs of the machine only, which is what the checks of `-b` and `-n` are
for. -/
def InRange (opts : List Opt) : Prop :=
  ∀ cpu, Uses numProcs readable executable opts cpu → 0 ≤ cpu ∧ cpu < numProcs

/-- Both command lines are accepted, with the same CPUs, or none is: the order of the options then
means nothing. -/
structure SameOutcome (first second : List Opt) : Prop where
  accepted : (main numProcs readable executable first).isSome =
    (main numProcs readable executable second).isSome
  cpus : ∀ cpu, Uses numProcs readable executable first cpu ↔
    Uses numProcs readable executable second cpu

/-- What an option sets, whatever the checks say.  It does not depend on what came before, and so
the last option of a kind counts. -/
def assign (s : Settings) : Opt → Settings
  | .r optarg => { s with programName := optarg }
  | .p optarg => { s with targetPid := CText.atoi optarg }
  | .b optarg => { s with beginCpu := CText.atoi optarg }
  | .n optarg => { s with numCpusToSpin := cutNum numProcs (CText.atoi optarg) }
  | .c | .usage => s

/-- The last settings of the options: those of the last `-n`, `-r`, `-b` and `-p`. -/
def settings (opts : List Opt) : Settings := opts.foldl (assign numProcs) .init

/-- `-b` is in the range that is left by a number of processes. -/
def fits (num : ℤ) (optarg : List Char) : Bool :=
  decide (0 ≤ CText.atoi optarg ∧ CText.atoi optarg ≤ numProcs - num)

/-- An option passes its check.  Those of `-b` and `-c` depend on the options before. -/
def allowed (s : Settings) : Opt → Bool
  | .r optarg => readable optarg && executable optarg
  | .p optarg => decide (0 < CText.atoi optarg)
  | .b optarg => fits numProcs s.numCpusToSpin optarg
  | .c => s.programName.isEmpty
  | .n _ => true
  | .usage => false

/-- All options pass their checks. -/
def passes (s : Settings) : List Opt → Bool
  | [] => true
  | o :: opts => allowed numProcs readable executable s o && passes (assign numProcs s o) opts

/-- There is a program or a process. -/
def Settings.hasTarget (s : Settings) : Bool := !s.programName.isEmpty || decide (s.targetPid ≠ 0)

/-- The options pass their checks and name a program or a process. -/
def accepts (opts : List Opt) : Bool :=
  passes numProcs readable executable .init opts && (settings numProcs opts).hasTarget

/-- The last `-b` and the last `-n` fit together, unless a process is named.  A `-b` is only
checked against the `-n` before it, so a later `-n` can make the range too long. -/
def RangeCondition (opts : List Opt) : Prop :=
  accepts numProcs readable executable opts = true → 0 < (settings numProcs opts).targetPid ∨
    (settings numProcs opts).beginCpu + (settings numProcs opts).numCpusToSpin ≤ numProcs

/-- Two command lines with the same target pass their checks or not, and set the same. -/
structure SameSettings (first second : List Opt) : Prop where
  accepts : accepts numProcs readable executable first =
    accepts numProcs readable executable second
  beginCpu : BindCpu.accepts numProcs readable executable first = true →
    (settings numProcs first).beginCpu = (settings numProcs second).beginCpu
  numCpus : BindCpu.accepts numProcs readable executable first = true →
    0 < (settings numProcs first).targetPid ∨
      (settings numProcs first).numCpusToSpin = (settings numProcs second).numCpusToSpin

end Program

/-- The option is `-b` or `-n`. -/
def Opt.isPlace : Opt → Bool
  | .b _ | .n _ => true
  | _ => false

/-- A command line with a `-b` and a `-n` in it. -/
structure Pair where
  before : List Opt
  cpu : List Char
  between : List Opt
  num : List Char
  after : List Opt

/-- `-b` first. -/
def Pair.cpuFirst (l : Pair) : List Opt := l.before ++ .b l.cpu :: (l.between ++ .n l.num :: l.after)

/-- `-n` first. -/
def Pair.numFirst (l : Pair) : List Opt := l.before ++ .n l.num :: (l.between ++ .b l.cpu :: l.after)

/-- Without `-b`. -/
def Pair.withoutCpu (l : Pair) : List Opt := l.before ++ .n l.num :: (l.between ++ l.after)

section Options

variable (numProcs : ℤ) (readable executable : List Char → Bool)

/-- `-b` is in range before and behind `-n`, or neither, or the rest is not accepted anyway.  In
front of `-n` it is checked against the number of processes that the options before have set. -/
def ExchangeCondition (l : Pair) : Prop :=
  fits numProcs (settings numProcs l.before).numCpusToSpin l.cpu =
      fits numProcs (cutNum numProcs (CText.atoi l.num)) l.cpu ∨
    accepts numProcs readable executable l.withoutCpu = false

end Options

/-! ### The checks -/

section Checks

variable {numProcs : ℤ} {readable executable : List Char → Bool}

/-- An option is read if it passes its check. -/
theorem readOption_eq (s : Settings) (o : Opt) :
    readOption numProcs readable executable s o =
      if allowed numProcs readable executable s o then some (assign numProcs s o) else none := by
  cases o with
  | r optarg =>
    rw [readOption, allowed]
    cases readable optarg with
    | false => rfl
    | true =>
      cases executable optarg with
      | false => rfl
      | true => rfl
  | p optarg =>
    by_cases h : 0 < CText.atoi optarg
    · rw [readOption, allowed, if_neg (not_le.mpr h), decide_eq_true h, if_pos rfl]
      rfl
    · rw [readOption, allowed, if_pos (not_lt.mp h), decide_eq_false h]
      rfl
  | b optarg =>
    by_cases h : 0 ≤ CText.atoi optarg ∧ CText.atoi optarg ≤ numProcs - s.numCpusToSpin
    · rw [readOption, allowed, fits, decide_eq_true h, if_neg (by omega), if_pos rfl]
      rfl
    · rw [readOption, allowed, fits, decide_eq_false h, if_pos (by omega)]
      rfl
  | c =>
    rw [readOption, allowed]
    cases s.programName with
    | nil => rfl
    | cons x name => rfl
  | n optarg => rfl
  | usage => rfl

/-- **The options are read** if all pass their checks, and then each of them sets what it sets
without the checks. -/
theorem foldlM_readOption (s : Settings) (opts : List Opt) :
    opts.foldlM (readOption numProcs readable executable) s =
      if passes numProcs readable executable s opts then some (opts.foldl (assign numProcs) s)
      else none := by
  induction opts generalizing s with
  | nil => rfl
  | cons o opts ih =>
    rw [List.foldlM_cons, readOption_eq, passes, List.foldl_cons]
    cases allowed numProcs readable executable s o with
    | false => rfl
    | true => exact ih _

theorem hasTarget_eq_false {s : Settings} :
    s.hasTarget = false ↔ s.programName.length = 0 ∧ s.targetPid = 0 := by
  simp [Settings.hasTarget]

/-- What is called for settings. -/
def Settings.call (s : Settings) : Call :=
  if s.targetPid > 0 then .bind s.beginCpu s.targetPid
  else .bindAndRun s.numCpusToSpin s.programName s.beginCpu

theorem main_eq (opts : List Opt) : main numProcs readable executable opts =
    if accepts numProcs readable executable opts then some (settings numProcs opts).call
    else none := by
  rw [main, foldlM_readOption, accepts]
  cases passes numProcs readable executable .init opts with
  | false => rfl
  | true =>
    change (if (settings numProcs opts).programName.length = 0 ∧
      (settings numProcs opts).targetPid = 0 then none else _) = _
    cases htarget : (settings numProcs opts).hasTarget with
    | false =>
      rw [if_pos (hasTarget_eq_false.mp htarget)]
      rfl
    | true =>
      have hnot : ¬ ((settings numProcs opts).programName.length = 0 ∧
          (settings numProcs opts).targetPid = 0) := by
        intro h
        rw [hasTarget_eq_false.mpr h] at htarget
        exact Bool.false_ne_true htarget
      rw [if_neg hnot, Bool.and_self, if_pos rfl, Settings.call]
      by_cases hpid : (settings numProcs opts).targetPid > 0
      · rw [if_pos hpid]
        exact if_pos hpid
      · rw [if_neg hpid]
        exact if_neg hpid

theorem uses_iff (opts : List Opt) (cpu : ℤ) : Uses numProcs readable executable opts cpu ↔
    accepts numProcs readable executable opts = true ∧
      (settings numProcs opts).call.Binds cpu := by
  rw [Uses, main_eq]
  cases accepts numProcs readable executable opts with
  | false => simp
  | true => simp

/-! ### The settings -/

/-- The number of processes and the first CPU are in range. -/
structure Settings.Mem (numProcs : ℤ) (s : Settings) : Prop where
  num : 1 ≤ s.numCpusToSpin ∧ s.numCpusToSpin ≤ numProcs
  begin : 0 ≤ s.beginCpu ∧ s.beginCpu < numProcs
  pid : 0 ≤ s.targetPid

theorem cutNum_mem (h : 1 ≤ numProcs) (num : ℤ) :
    1 ≤ cutNum numProcs num ∧ cutNum numProcs num ≤ numProcs := by
  unfold cutNum
  split
  · exact ⟨le_refl 1, h⟩
  · split
    · exact ⟨h, le_refl _⟩
    · omega

/-- An option that passes its check keeps the settings in range. -/
theorem assign_mem (h : 1 ≤ numProcs) {s : Settings} (hs : s.Mem numProcs) {o : Opt}
    (ho : allowed numProcs readable executable s o = true) : (assign numProcs s o).Mem numProcs := by
  cases o with
  | r optarg => exact ⟨hs.num, hs.begin, hs.pid⟩
  | p optarg => exact ⟨hs.num, hs.begin, (of_decide_eq_true ho).le⟩
  | b optarg =>
    have hfits : 0 ≤ CText.atoi optarg ∧ CText.atoi optarg ≤ numProcs - s.numCpusToSpin :=
      of_decide_eq_true ho
    have hnum := hs.num.1
    exact ⟨hs.num, ⟨hfits.1, by change CText.atoi optarg < numProcs; omega⟩, hs.pid⟩
  | c => exact hs
  | n optarg => exact ⟨cutNum_mem h _, hs.begin, hs.pid⟩
  | usage => exact hs

/-- **The settings** of options that pass their checks are in range, each on its own; whether they
fit together is another question. -/
theorem settings_mem (h : 1 ≤ numProcs) {opts : List Opt}
    (hopts : passes numProcs readable executable .init opts = true) :
    (settings numProcs opts).Mem numProcs := by
  have hfold : ∀ s : Settings, s.Mem numProcs →
      passes numProcs readable executable s opts = true →
      (opts.foldl (assign numProcs) s).Mem numProcs := by
    clear hopts
    intro s hs hpasses
    induction opts generalizing s with
    | nil => exact hs
    | cons o opts ih =>
      rw [passes, Bool.and_eq_true] at hpasses
      exact ih _ (assign_mem h hs hpasses.1) hpasses.2
  exact hfold _ ⟨⟨le_refl 1, h⟩, ⟨le_refl 0, by change (0 : ℤ) < numProcs; omega⟩, le_refl 0⟩ hopts

end Checks

/-! ### The CPUs -/

/-- **The CPUs of the processes** of `bind_and_run`: one after the other from the first on, as the
fork loop numbers them. -/
theorem binds_bindAndRun {numthreads : ℤ} (h : 1 ≤ numthreads) (program : List Char)
    (cpubegin cpu : ℤ) : (Call.bindAndRun numthreads program cpubegin).Binds cpu ↔
      cpubegin ≤ cpu ∧ cpu < cpubegin + numthreads := by
  constructor
  · rintro ⟨fork, final, hrun, hleft, p, hp, rfl⟩
    have hin : p.cpu cpubegin ∈ final.map (Process.cpu cpubegin) := List.mem_map_of_mem hp
    rw [map_cpu hrun hleft, List.mem_map] at hin
    obtain ⟨k, hk, heq⟩ := hin
    have hlt : k ≤ numthreads.toNat - 1 := by
      rcases List.mem_append.mp hk with hk | hk
      · exact (List.mem_range.mp (List.mem_filter.mp hk).1).le
      · exact (List.mem_singleton.mp hk).le
    omega
  · intro hcpu
    -- when all forks succeed, every CPU gets a process
    obtain ⟨final, hrun, hleft⟩ : ∃ final,
        Run (fun _ _ => some 1) numthreads.toNat [.original] final ∧ AllLeft final :=
      exists_left _
    have hcounter : (cpu - cpubegin).toNat ∈
        successes (fun _ _ => some 1) numthreads.toNat ++ [numthreads.toNat - 1] := by
      rcases Nat.lt_or_ge (cpu - cpubegin).toNat (numthreads.toNat - 1) with hlt | hge
      · exact List.mem_append_left _ (List.mem_filter.mpr ⟨List.mem_range.mpr hlt, rfl⟩)
      · have hlast : (cpu - cpubegin).toNat = numthreads.toNat - 1 := by omega
        rw [hlast]
        exact List.mem_append_right _ (List.mem_singleton_self _)
    have hin : cpu ∈ final.map (Process.cpu cpubegin) := by
      rw [map_cpu hrun hleft, List.mem_map]
      exact ⟨_, hcounter, by omega⟩
    obtain ⟨p, hp, heq⟩ := List.mem_map.mp hin
    exact ⟨_, final, hrun, hleft, p, hp, heq⟩

section Outcome

variable {numProcs : ℤ} {readable executable : List Char → Bool}

/-- The CPUs that processes are bound to for settings. -/
theorem binds_call {s : Settings} (hs : s.Mem numProcs) (cpu : ℤ) :
    s.call.Binds cpu ↔ if 0 < s.targetPid then cpu = s.beginCpu
      else s.beginCpu ≤ cpu ∧ cpu < s.beginCpu + s.numCpusToSpin := by
  unfold Settings.call
  by_cases h : 0 < s.targetPid
  · rw [if_pos h, if_pos h]
    exact Iff.rfl
  · rw [if_neg h, if_neg h]
    exact binds_bindAndRun hs.num.1 _ _ _

theorem passes_of_accepts {opts : List Opt} (h : accepts numProcs readable executable opts = true) :
    passes numProcs readable executable .init opts = true := by
  rw [accepts, Bool.and_eq_true] at h
  exact h.1

/-- **The CPUs are in range** exactly when the last `-b` and the last `-n` fit together: the
earlier ones have been overwritten. -/
theorem inRange_iff (h : 1 ≤ numProcs) (opts : List Opt) :
    InRange numProcs readable executable opts ↔
      RangeCondition numProcs readable executable opts := by
  constructor
  · intro hrange haccepts
    have hs := settings_mem h (passes_of_accepts haccepts)
    by_contra hnot
    obtain ⟨hpid, hsum⟩ := not_or.mp hnot
    have hnum := hs.num.1
    -- the original process is bound to the last CPU
    have hbinds : (settings numProcs opts).call.Binds
        ((settings numProcs opts).beginCpu + (settings numProcs opts).numCpusToSpin - 1) := by
      rw [binds_call hs, if_neg hpid]
      omega
    have hlt := (hrange _ ((uses_iff _ _).mpr ⟨haccepts, hbinds⟩)).2
    omega
  · intro hcondition cpu huses
    obtain ⟨haccepts, hbinds⟩ := (uses_iff _ _).mp huses
    have hs := settings_mem h (passes_of_accepts haccepts)
    have hbegin := hs.begin
    rw [binds_call hs] at hbinds
    by_cases hpid : 0 < (settings numProcs opts).targetPid
    · rw [if_pos hpid] at hbinds
      omega
    · rw [if_neg hpid] at hbinds
      have hsum := (hcondition haccepts).resolve_left hpid
      omega

theorem isSome_main (opts : List Opt) : (main numProcs readable executable opts).isSome =
    accepts numProcs readable executable opts := by
  rw [main_eq]
  cases accepts numProcs readable executable opts with
  | false => rfl
  | true => rfl

/-- The CPUs determine the settings that matter. -/
theorem call_injective {s t : Settings} (hs : s.Mem numProcs) (ht : t.Mem numProcs)
    (hpid : s.targetPid = t.targetPid) (h : ∀ cpu, s.call.Binds cpu ↔ t.call.Binds cpu) :
    s.beginCpu = t.beginCpu ∧ (0 < s.targetPid ∨ s.numCpusToSpin = t.numCpusToSpin) := by
  simp only [binds_call hs, binds_call ht, hpid] at h
  rw [hpid]
  by_cases hprocess : 0 < t.targetPid
  · simp only [if_pos hprocess] at h
    exact ⟨(h s.beginCpu).mp rfl, Or.inl hprocess⟩
  · simp only [if_neg hprocess] at h
    have hnum := hs.num.1
    have hnum' := ht.num.1
    -- the first and the last CPU of one are CPUs of the other
    have hfirst := h s.beginCpu
    have hfirst' := h t.beginCpu
    have hlast := h (s.beginCpu + s.numCpusToSpin - 1)
    have hlast' := h (t.beginCpu + t.numCpusToSpin - 1)
    omega

/-- **The outcome is the same** exactly when the settings are, for the same process. -/
theorem sameOutcome_iff (h : 1 ≤ numProcs) {first second : List Opt}
    (hpid : (settings numProcs first).targetPid = (settings numProcs second).targetPid) :
    SameOutcome numProcs readable executable first second ↔
      SameSettings numProcs readable executable first second := by
  constructor
  · rintro ⟨haccepted, hcpus⟩
    rw [isSome_main, isSome_main] at haccepted
    -- a call tells by the CPUs it binds to what it was called with
    have hbinds : accepts numProcs readable executable first = true → ∀ cpu,
        (settings numProcs first).call.Binds cpu ↔ (settings numProcs second).call.Binds cpu := by
      intro hfirst cpu
      have hsecond := haccepted ▸ hfirst
      have huses := hcpus cpu
      rw [uses_iff, uses_iff] at huses
      simpa [hfirst, hsecond] using huses
    have hequal : accepts numProcs readable executable first = true →
        (settings numProcs first).beginCpu = (settings numProcs second).beginCpu ∧
          (0 < (settings numProcs first).targetPid ∨
            (settings numProcs first).numCpusToSpin = (settings numProcs second).numCpusToSpin) := by
      intro hfirst
      exact call_injective (settings_mem h (passes_of_accepts hfirst))
        (settings_mem h (passes_of_accepts (haccepted ▸ hfirst))) hpid (hbinds hfirst)
    exact ⟨haccepted, fun hfirst => (hequal hfirst).1, fun hfirst => (hequal hfirst).2⟩
  · intro hsame
    refine ⟨by rw [isSome_main, isSome_main, hsame.accepts], fun cpu => ?_⟩
    rw [uses_iff, uses_iff, hsame.accepts]
    refine and_congr_right fun hsecond => ?_
    have hfirst := hsame.accepts.trans hsecond
    rw [binds_call (settings_mem h (passes_of_accepts hfirst)),
      binds_call (settings_mem h (passes_of_accepts hsecond)), hsame.beginCpu hfirst, hpid]
    rcases hsame.numCpus hfirst with hprocess | hnum
    · rw [hpid] at hprocess
      rw [if_pos hprocess, if_pos hprocess]
    · rw [hnum]

end Outcome

/-! ### Exchanging two options -/

section Exchange

variable {numProcs : ℤ} {readable executable : List Char → Bool}

theorem assign_targetPid {s t : Settings} (h : s.targetPid = t.targetPid) (o : Opt) :
    (assign numProcs s o).targetPid = (assign numProcs t o).targetPid := by
  cases o with
  | p optarg => rfl
  | _ => exact h

theorem assign_programName {s t : Settings} (h : s.programName = t.programName) (o : Opt) :
    (assign numProcs s o).programName = (assign numProcs t o).programName := by
  cases o with
  | r optarg => rfl
  | _ => exact h

/-- The target depends on the one before. -/
theorem foldl_hasTarget {s t : Settings} (hprogram : s.programName = t.programName)
    (hpid : s.targetPid = t.targetPid) (opts : List Opt) :
    (opts.foldl (assign numProcs) s).hasTarget = (opts.foldl (assign numProcs) t).hasTarget := by
  induction opts generalizing s t with
  | nil =>
    change s.hasTarget = t.hasTarget
    rw [Settings.hasTarget, Settings.hasTarget, hprogram, hpid]
  | cons o opts ih => exact ih (assign_programName hprogram o) (assign_targetPid hpid o)

/-- `-b` and `-n` do not set the process. -/
theorem foldl_targetPid {s t : Settings} (h : s.targetPid = t.targetPid) (opts : List Opt) :
    (opts.foldl (assign numProcs) s).targetPid =
      ((opts.filter fun o => !o.isPlace).foldl (assign numProcs) t).targetPid := by
  induction opts generalizing s t with
  | nil => exact h
  | cons o opts ih =>
    cases hplace : o.isPlace with
    | true =>
      have hsame : (assign numProcs s o).targetPid = t.targetPid := by
        cases o with
        | b optarg => exact h
        | n optarg => exact h
        | _ => exact absurd hplace Bool.false_ne_true
      rw [List.foldl_cons, List.filter_cons_of_neg (by rw [hplace]; decide), ih hsame]
    | false =>
      rw [List.foldl_cons, List.filter_cons_of_pos (by rw [hplace]; rfl), List.foldl_cons,
        ih (assign_targetPid h o)]

/-- The order of `-b` and `-n` does not matter for the process. -/
theorem targetPid_pair (l : Pair) :
    (settings numProcs l.cpuFirst).targetPid = (settings numProcs l.numFirst).targetPid := by
  have hinit : Settings.init.targetPid = Settings.init.targetPid := rfl
  rw [settings, settings, foldl_targetPid hinit l.cpuFirst, foldl_targetPid hinit l.numFirst]
  have hfilter : (l.cpuFirst.filter fun o => !o.isPlace) = l.numFirst.filter fun o => !o.isPlace := by
    simp [Pair.cpuFirst, Pair.numFirst, Opt.isPlace]
  rw [hfilter]

theorem passes_append (s : Settings) (opts opts' : List Opt) :
    passes numProcs readable executable s (opts ++ opts') =
      (passes numProcs readable executable s opts &&
        passes numProcs readable executable (opts.foldl (assign numProcs) s) opts') := by
  induction opts generalizing s with
  | nil => rfl
  | cons o opts ih => rw [List.cons_append, passes, ih, passes, Bool.and_assoc, List.foldl_cons]

/-- The checks look at the number of processes and the program only. -/
theorem passes_congr {s t : Settings} (hnum : s.numCpusToSpin = t.numCpusToSpin)
    (hprogram : s.programName = t.programName) (opts : List Opt) :
    passes numProcs readable executable s opts = passes numProcs readable executable t opts := by
  induction opts generalizing s t with
  | nil => rfl
  | cons o opts ih =>
    have hallowed : allowed numProcs readable executable s o =
        allowed numProcs readable executable t o := by
      cases o with
      | b optarg => rw [allowed, allowed, hnum]
      | c => rw [allowed, allowed, hprogram]
      | _ => rfl
    have hnum' : (assign numProcs s o).numCpusToSpin = (assign numProcs t o).numCpusToSpin := by
      cases o with
      | n optarg => rfl
      | _ => exact hnum
    rw [passes, passes, hallowed, ih hnum' (assign_programName hprogram o)]

/-- Another option can be exchanged with `-b` or `-n`. -/
theorem assign_place {o x : Opt} (ho : o.isPlace = false) (hx : x.isPlace = true) (s : Settings) :
    assign numProcs (assign numProcs s x) o = assign numProcs (assign numProcs s o) x ∧
      allowed numProcs readable executable (assign numProcs s x) o =
        allowed numProcs readable executable s o := by
  cases x with
  | b cpu =>
    cases o with
    | b optarg => exact absurd ho.symm Bool.false_ne_true
    | n optarg => exact absurd ho.symm Bool.false_ne_true
    | _ => exact ⟨rfl, rfl⟩
  | n num =>
    cases o with
    | b optarg => exact absurd ho.symm Bool.false_ne_true
    | n optarg => exact absurd ho.symm Bool.false_ne_true
    | _ => exact ⟨rfl, rfl⟩
  | _ => exact absurd hx Bool.false_ne_true

/-- Other options can be exchanged with `-b` and `-n`. -/
theorem foldl_assign_place {opts : List Opt} (h : ∀ o ∈ opts, o.isPlace = false) {x : Opt}
    (hx : x.isPlace = true) (s : Settings) :
    opts.foldl (assign numProcs) (assign numProcs s x) =
        assign numProcs (opts.foldl (assign numProcs) s) x ∧
      passes numProcs readable executable (assign numProcs s x) opts =
        passes numProcs readable executable s opts := by
  induction opts generalizing s with
  | nil => exact ⟨rfl, rfl⟩
  | cons o opts ih =>
    obtain ⟨ho, hopts⟩ := List.forall_mem_cons.mp h
    obtain ⟨hassign, hallowed⟩ := @assign_place numProcs readable executable o x ho hx s
    rw [List.foldl_cons, passes, hassign, hallowed, (ih hopts _).1, (ih hopts _).2]
    exact ⟨rfl, rfl⟩

section Pair

variable {l : Pair} (h : ∀ o ∈ l.between, o.isPlace = false)
include h

/-- The other options set the same behind `-b` or `-n`. -/
theorem foldl_between {x : Opt} (hx : x.isPlace = true) (s : Settings) :
    l.between.foldl (assign numProcs) (assign numProcs s x) =
      assign numProcs (l.between.foldl (assign numProcs) s) x :=
  (@foldl_assign_place numProcs (fun _ => true) (fun _ => true) _ h x hx s).1

/-- Both orders set the same. -/
theorem settings_pair : settings numProcs l.cpuFirst = settings numProcs l.numFirst := by
  rw [settings, settings, Pair.cpuFirst, Pair.numFirst, List.foldl_append, List.foldl_append,
    List.foldl_cons, List.foldl_cons, List.foldl_append, List.foldl_append, List.foldl_cons,
    List.foldl_cons, foldl_between h rfl, foldl_between h rfl]
  rfl

/-- The checks without `-b`. -/
theorem passes_withoutCpu : passes numProcs readable executable .init l.withoutCpu =
    (passes numProcs readable executable .init l.before &&
      (passes numProcs readable executable (settings numProcs l.before) l.between &&
        passes numProcs readable executable
          (assign numProcs (l.between.foldl (assign numProcs) (settings numProcs l.before))
            (.n l.num)) l.after)) := by
  rw [Pair.withoutCpu, passes_append, passes, passes_append, (foldl_assign_place h rfl _).2,
    foldl_between h rfl]
  rfl

/-- `-b` first is checked against the number of processes before. -/
theorem passes_cpuFirst : passes numProcs readable executable .init l.cpuFirst =
    (fits numProcs (settings numProcs l.before).numCpusToSpin l.cpu &&
      passes numProcs readable executable .init l.withoutCpu) := by
  have hafter : ∀ s : Settings, passes numProcs readable executable
      (assign numProcs (assign numProcs s (.b l.cpu)) (.n l.num)) l.after =
      passes numProcs readable executable (assign numProcs s (.n l.num)) l.after :=
    fun s => passes_congr (by rfl) (by rfl) l.after
  rw [passes_withoutCpu h, Pair.cpuFirst, passes_append, passes, passes_append,
    (foldl_assign_place h rfl _).2, foldl_between h rfl, passes, hafter]
  exact Bool.and_left_comm _ _ _

/-- `-b` behind `-n` is checked against its number. -/
theorem passes_numFirst : passes numProcs readable executable .init l.numFirst =
    (fits numProcs (cutNum numProcs (CText.atoi l.num)) l.cpu &&
      passes numProcs readable executable .init l.withoutCpu) := by
  have hafter : ∀ s : Settings, passes numProcs readable executable
      (assign numProcs (assign numProcs s (.n l.num)) (.b l.cpu)) l.after =
      passes numProcs readable executable (assign numProcs s (.n l.num)) l.after :=
    fun s => passes_congr (by rfl) (by rfl) l.after
  rw [passes_withoutCpu h, Pair.numFirst, passes_append, passes, passes_append,
    (foldl_assign_place h rfl _).2, foldl_between h rfl, passes, hafter]
  change (_ && (true && (_ && (fits numProcs (cutNum numProcs (CText.atoi l.num)) l.cpu && _)))) = _
  rw [Bool.true_and, Bool.and_left_comm (fits _ _ _)]
  exact congrArg _ (Bool.and_left_comm _ _ _)

/-- `-b` does not matter for the target. -/
theorem hasTarget_pair : (settings numProcs l.cpuFirst).hasTarget =
    (settings numProcs l.withoutCpu).hasTarget := by
  rw [settings, settings, Pair.cpuFirst, Pair.withoutCpu, List.foldl_append, List.foldl_append,
    List.foldl_cons, List.foldl_cons, List.foldl_append, List.foldl_append, List.foldl_cons,
    foldl_between h rfl, foldl_between h rfl]
  exact foldl_hasTarget (by rfl) (by rfl) _

/-- **`-b` and `-n` can be exchanged** exactly when `-b` fits in both orders or in neither, as
nothing else in the command line is checked against them. -/
theorem sameOutcome_pair_iff (hprocs : 1 ≤ numProcs) :
    SameOutcome numProcs readable executable l.cpuFirst l.numFirst ↔
      ExchangeCondition numProcs readable executable l := by
  have hsettings : settings numProcs l.cpuFirst = settings numProcs l.numFirst := settings_pair h
  -- with `-b` first, it is checked against the number that was there before
  have hfirst : accepts numProcs readable executable l.cpuFirst =
      (fits numProcs (settings numProcs l.before).numCpusToSpin l.cpu &&
        accepts numProcs readable executable l.withoutCpu) := by
    rw [accepts, passes_cpuFirst h, hasTarget_pair h, accepts, Bool.and_assoc]
  -- with `-n` first, against the number that it asks for
  have hsecond : accepts numProcs readable executable l.numFirst =
      (fits numProcs (cutNum numProcs (CText.atoi l.num)) l.cpu &&
        accepts numProcs readable executable l.withoutCpu) := by
    rw [accepts, passes_numFirst h, ← hsettings, hasTarget_pair h, accepts, Bool.and_assoc]
  rw [sameOutcome_iff hprocs (targetPid_pair l), ExchangeCondition]
  constructor
  · intro hsame
    have haccepts := hsame.accepts
    rw [hfirst, hsecond] at haccepts
    cases hrest : accepts numProcs readable executable l.withoutCpu with
    | false => exact Or.inr rfl
    | true =>
      rw [hrest, Bool.and_true, Bool.and_true] at haccepts
      exact Or.inl haccepts
  · intro hcondition
    refine ⟨?_, fun _ => by rw [hsettings], fun _ => Or.inr (by rw [hsettings])⟩
    rw [hfirst, hsecond]
    rcases hcondition with hfits | hrest
    · rw [hfits]
    · rw [hrest, Bool.and_false, Bool.and_false]

end Pair

/-- **The CPUs are in range exactly when** the last `-b` and `-n` fit together, and `-b` and `-n`
can be exchanged exactly when `-b` fits in both orders or in neither.  With other `-b` or `-n`
between them, the settings decide. -/
theorem optionsRight_iff (h : 1 ≤ numProcs) :
    (∀ opts, InRange numProcs readable executable opts ↔
      RangeCondition numProcs readable executable opts) ∧
    (∀ l : Pair, (∀ o ∈ l.between, o.isPlace = false) →
      (SameOutcome numProcs readable executable l.cpuFirst l.numFirst ↔
        ExchangeCondition numProcs readable executable l)) ∧
    ∀ l : Pair, SameOutcome numProcs readable executable l.cpuFirst l.numFirst ↔
      SameSettings numProcs readable executable l.cpuFirst l.numFirst :=
  ⟨inRange_iff h, fun _ hbetween => sameOutcome_pair_iff hbetween h,
    fun l => sameOutcome_iff h (targetPid_pair l)⟩

/-- With four processors, `-b 3 -n 2` uses a fifth one, and `-n 2 -b 3` is not accepted. -/
theorem not_inRange_fourProcs :
    ¬ InRange 4 (fun _ => true) (fun _ => true) [.r "prog".toList, .b "3".toList, .n "2".toList] ∧
    ¬ SameOutcome 4 (fun _ => true) (fun _ => true)
      [.r "prog".toList, .b "3".toList, .n "2".toList]
      [.r "prog".toList, .n "2".toList, .b "3".toList] := by
  constructor
  · intro h
    have hcondition := (inRange_iff (by decide) _).mp h (by decide +kernel)
    exact absurd hcondition (by decide +kernel)
  · intro h
    exact absurd h.accepted (by rw [isSome_main, isSome_main]; decide +kernel)

/-- Two processes from the third of four processors on, in both orders. -/
theorem optionsRight_fourProcs :
    InRange 4 (fun _ => true) (fun _ => true) [.r "prog".toList, .n "2".toList, .b "2".toList] ∧
    SameOutcome 4 (fun _ => true) (fun _ => true)
      [.r "prog".toList, .b "2".toList, .n "2".toList]
      [.r "prog".toList, .n "2".toList, .b "2".toList] := by
  obtain ⟨hrange, hexchange, -⟩ :=
    @optionsRight_iff 4 (fun _ => true) (fun _ => true) (by decide)
  constructor
  · exact (hrange _).mpr fun _ => Or.inr (by decide +kernel)
  · exact (hexchange ⟨[.r "prog".toList], "2".toList, [], "2".toList, []⟩ nofun).mpr
      (Or.inl (by decide +kernel))

end Exchange

end LinuxNote.Himeno.BindCpu
