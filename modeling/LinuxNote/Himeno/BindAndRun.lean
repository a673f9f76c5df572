import Mathlib.Data.List.Nodup
import Mathlib.Data.List.Range
import Mathlib.Data.PNat.Basic
import Mathlib.Logic.Relation

/-!
# The processes of `bindcpu`

`bind_and_run` forks in a loop.  Parent and child go on in the same code, with a counter of
their own and the return value of `fork` to tell them apart, and a `fork` that fails returns
what a parent does not tell from the number of a child.  Each process that leaves the loop
binds itself to a CPU by its counter.

The processes run in any order.  A process has the numbers of the forks that it comes from for
its name, and `fork` may fail or not by the process and its counter.

## Main definitions

* `Process.next` — what a process does next, and what it leaves behind.
* `Step` — some process of the pool goes on.
* `leaving` — the processes that will have left the loop, with their counters.
* `ForkLoopRight` — the processes that leave the loop, and their CPUs, are the right ones.

## Main results

* `leaving_next` — **a step** of a process does not change who will leave the loop.
* `leaving_run` — so no run does.
* `exists_left` — every run can be brought to an end.
* `forkLoopRight` — **the fork loop is right** for any forks and in any order.
-/

namespace LinuxNote.Himeno.BindAndRun

open Relation

/-! ### The loop -/

/-- Where a process is: at the condition of the loop, behind `fork`, or behind the loop. -/
inductive Place
  | test
  | forked (mypid : ℤ)
  | left
  deriving DecidableEq

/-- A process, with the forks that it comes from, which tell it from all others, and its own copy
of the counter. -/
structure Process where
  forks : List ℕ
  createdThread : ℕ
  place : Place
  deriving DecidableEq

/-- The process that calls `bind_and_run`, before its first turn of the loop.  It has come from no
fork. -/
def Process.original : Process := ⟨[], 0, .test⟩

section Loop

variable (fork : List ℕ → ℕ → Option ℕ+) (numthreads : ℕ)

/-- What becomes of a process.  By the process and its counter, `fork` gives the number of the
new process, or none if it fails.  The new process comes first. -/
def Process.next (p : Process) : List Process :=
  match p.place with
  | .test =>
    if p.createdThread < numthreads - 1 then
      match fork p.forks p.createdThread with
      | some pid =>
        [⟨p.forks ++ [p.createdThread], p.createdThread, .forked 0⟩, { p with place := .forked pid }]
      -- a process that gets -1 goes on like a parent
      | none => [{ p with place := .forked (-1) }]
    else [{ p with place := .left }]
  | .forked mypid =>
    -- the new process leaves the loop with `break`
    if mypid = 0 then [{ p with place := .left }]
    else [⟨p.forks, p.createdThread + 1, .test⟩]
  | .left => [p]

/-- One of the processes in the loop goes on.  Which one is up to the scheduler, so any of them
may. -/
inductive Step : List Process → List Process → Prop
  | next (before : List Process) (p : Process) (after : List Process) (h : p.place ≠ .left) :
    Step (before ++ p :: after) (before ++ (p.next fork numthreads ++ after))

/-- Any number of steps, of any processes of the pool in any order. -/
def Run : List Process → List Process → Prop := ReflTransGen (Step fork numthreads)

end Loop

/-- All processes have left the loop, after which none of them forks any more. -/
def AllLeft (pool : List Process) : Prop := ∀ p ∈ pool, p.place = .left

/-- The CPU that a process binds itself to: its own copy of the counter tells it which. -/
def Process.cpu (cpubegin : ℤ) (p : Process) : ℤ := p.createdThread + cpubegin

section Right

variable (fork : List ℕ → ℕ → Option ℕ+) (numthreads : ℕ) (cpubegin : ℤ)

/-- The forks of the original process that succeed, by the counter at which it calls `fork`. -/
def successes : List ℕ := (List.range (numthreads - 1)).filter fun k => (fork [] k).isSome

/-- The processes that leave the loop are right: in any order of steps and for any forks that fail,
there is one for each that succeeds, with a CPU of its own. -/
structure ForkLoopRight : Prop where
  /-- All runs can be continued until all processes have left the loop. -/
  ends : ∀ pool, Run fork numthreads [.original] pool →
    ∃ final, Run fork numthreads pool final ∧ AllLeft final
  /-- There is a process for each fork that succeeds, and the original one, each on its CPU. -/
  processes : ∀ final, Run fork numthreads [.original] final → AllLeft final →
    (final.map fun p => (p.forks, p.cpu cpubegin)).Perm
      (([], cpubegin + numthreads - 1) ::
        (successes fork numthreads).map fun k : ℕ => ([k], cpubegin + k))
  /-- The CPUs are different. -/
  distinct : ∀ final, Run fork numthreads [.original] final → AllLeft final →
    (final.map (Process.cpu cpubegin)).Nodup
  /-- If all forks succeed, each CPU gets a process. -/
  all : (∀ k < numthreads - 1, (fork [] k).isSome = true) →
    ∀ final, Run fork numthreads [.original] final → AllLeft final →
      (final.map (Process.cpu cpubegin)).Perm
        ((List.range numthreads).map fun k : ℕ => cpubegin + k)

end Right

/-! ### Who will leave the loop -/

section Leaving

variable (fork : List ℕ → ℕ → Option ℕ+) (numthreads : ℕ)

/-- The processes that leave the loop from the condition on, with their counters. -/
def leavingFrom (forks : List ℕ) (created : ℕ) : List (List ℕ × ℕ) :=
  ((List.range' created (numthreads - 1 - created)).filter fun k => (fork forks k).isSome).map
    (fun k => (forks ++ [k], k)) ++ [(forks, max created (numthreads - 1))]

/-- The processes that a process becomes until all have left the loop, as a function of the process
alone: what the other ones do makes no difference to it. -/
def Process.leaving (p : Process) : List (List ℕ × ℕ) :=
  match p.place with
  | .test => leavingFrom fork numthreads p.forks p.createdThread
  | .forked mypid =>
    if mypid = 0 then [(p.forks, p.createdThread)]
    else leavingFrom fork numthreads p.forks (p.createdThread + 1)
  | .left => [(p.forks, p.createdThread)]

variable {fork : List ℕ → ℕ → Option ℕ+} {numthreads : ℕ}

theorem leavingFrom_of_lt {forks : List ℕ} {created : ℕ} (h : created < numthreads - 1) :
    leavingFrom fork numthreads forks created =
      (if (fork forks created).isSome then [(forks ++ [created], created)] else []) ++
        leavingFrom fork numthreads forks (created + 1) := by
  have hlength : numthreads - 1 - created = numthreads - 1 - (created + 1) + 1 := by omega
  have hmax : max created (numthreads - 1) = max (created + 1) (numthreads - 1) := by omega
  rw [leavingFrom, leavingFrom, hlength, List.range'_succ, hmax, List.filter_cons]
  split
  · rfl
  · rfl

theorem leavingFrom_of_ge {forks : List ℕ} {created : ℕ} (h : ¬ created < numthreads - 1) :
    leavingFrom fork numthreads forks created = [(forks, created)] := by
  have hlength : numthreads - 1 - created = 0 := by omega
  have hmax : max created (numthreads - 1) = created := by omega
  rw [leavingFrom, hlength, hmax]
  rfl

/-- **A step** of a process does not change who will leave the loop, so the processes that leave it
can be read off the first one. -/
theorem leaving_next (p : Process) :
    (p.next fork numthreads).flatMap (Process.leaving fork numthreads) =
      p.leaving fork numthreads := by
  obtain ⟨forks, created, place⟩ := p
  cases place with
  | test =>
    by_cases h : created < numthreads - 1
    · have hleaving : Process.leaving fork numthreads ⟨forks, created, .test⟩ =
          leavingFrom fork numthreads forks created := rfl
      rw [hleaving, leavingFrom_of_lt h, Process.next]
      simp only [if_pos h]
      cases hfork : fork forks created with
      | some pid =>
        simp [Process.leaving]
      | none =>
        simp [Process.leaving]
    · simp [Process.next, Process.leaving, h, leavingFrom_of_ge h]
  | forked mypid =>
    by_cases h : mypid = 0
    · simp [Process.next, Process.leaving, h]
    · simp [Process.next, Process.leaving, h]
  | left => simp [Process.next]

/-- No run changes who will leave the loop. -/
theorem leaving_run {pool final : List Process} (h : Run fork numthreads pool final) :
    final.flatMap (Process.leaving fork numthreads) =
      pool.flatMap (Process.leaving fork numthreads) := by
  induction h with
  | refl => rfl
  | tail _ hstep ih =>
    rw [← ih]
    cases hstep with
    | next before p after _ =>
      rw [List.flatMap_append, List.flatMap_append, List.flatMap_append, leaving_next,
        List.flatMap_cons]

theorem flatMap_of_allLeft (fork : List ℕ → ℕ → Option ℕ+) (numthreads : ℕ)
    {final : List Process} (h : AllLeft final) :
    final.flatMap (Process.leaving fork numthreads) =
      final.map fun p => (p.forks, p.createdThread) := by
  have hleft : ∀ p ∈ final, p.leaving fork numthreads = [(p.forks, p.createdThread)] := by
    intro p hp
    rw [Process.leaving, h p hp]
  rw [List.flatMap_congr hleft, List.map_eq_flatMap]

end Leaving

/-! ### The end of a run -/

section Ends

variable {fork : List ℕ → ℕ → Option ℕ+} {numthreads : ℕ}

/-- How far a process is from leaving the loop, with those that come from it: the number gets
smaller with each step, so that no run goes on for ever. -/
def Process.weight (numthreads : ℕ) (p : Process) : ℕ :=
  match p.place with
  | .test => 3 * (numthreads - 1 - p.createdThread) + 1
  | .forked mypid => if mypid = 0 then 1 else 3 * (numthreads - 1 - (p.createdThread + 1)) + 2
  | .left => 0

theorem weight_next {p : Process} (h : p.place ≠ .left) :
    ((p.next fork numthreads).map (Process.weight numthreads)).sum < p.weight numthreads := by
  obtain ⟨forks, created, place⟩ := p
  cases place with
  | test =>
    by_cases hlt : created < numthreads - 1
    · rw [Process.next]
      simp only [if_pos hlt]
      cases fork forks created with
      | some pid =>
        simp [Process.weight]
        omega
      | none =>
        simp [Process.weight]
        omega
    · simp [Process.next, Process.weight, hlt]
  | forked mypid =>
    by_cases hzero : mypid = 0
    · simp [Process.next, Process.weight, hzero]
    · simp [Process.next, Process.weight, hzero]
  | left => exact absurd rfl h

/-- Every run can be brought to an end. -/
theorem exists_left (pool : List Process) :
    ∃ final, Run fork numthreads pool final ∧ AllLeft final := by
  induction hweight : (pool.map (Process.weight numthreads)).sum using Nat.strong_induction_on
    generalizing pool with
  | _ n ih =>
    by_cases hleft : AllLeft pool
    · exact ⟨pool, ReflTransGen.refl, hleft⟩
    · simp only [AllLeft, not_forall] at hleft
      obtain ⟨p, hp, hplace⟩ := hleft
      obtain ⟨before, after, rfl⟩ := List.append_of_mem hp
      have hless : ((before ++ (p.next fork numthreads ++ after)).map
          (Process.weight numthreads)).sum < n := by
        have hnext : ((p.next fork numthreads).map (Process.weight numthreads)).sum <
            p.weight numthreads := weight_next hplace
        rw [← hweight]
        simp only [List.map_append, List.map_cons, List.sum_append, List.sum_cons]
        omega
      obtain ⟨final, hrun, hfinal⟩ := ih _ hless _ rfl
      exact ⟨final, ReflTransGen.head (Step.next before p after hplace) hrun, hfinal⟩

end Ends

/-! ### The processes of `bind_and_run` -/

section Final

variable {fork : List ℕ → ℕ → Option ℕ+} {numthreads : ℕ} {cpubegin : ℤ} {final : List Process}

/-- The processes at the end of a run, with their counters. -/
theorem final_eq (hrun : Run fork numthreads [.original] final) (hleft : AllLeft final) :
    (final.map fun p => (p.forks, p.createdThread)) =
      (successes fork numthreads).map (fun k => ([k], k)) ++ [([], numthreads - 1)] := by
  rw [← flatMap_of_allLeft fork numthreads hleft, leaving_run hrun]
  change leavingFrom fork numthreads [] 0 ++ [] = _
  rw [leavingFrom, List.append_nil, Nat.sub_zero, ← List.range_eq_range', Nat.zero_max]
  rfl

/-- The processes at the end of a run, with their CPUs. -/
theorem final_cpus (h : 1 ≤ numthreads) (hrun : Run fork numthreads [.original] final)
    (hleft : AllLeft final) : (final.map fun p => (p.forks, p.cpu cpubegin)) =
      (successes fork numthreads).map (fun k : ℕ => ([k], cpubegin + k)) ++
        [([], cpubegin + numthreads - 1)] := by
  have hcpu : (final.map fun p => (p.forks, p.cpu cpubegin)) =
      (final.map fun p => (p.forks, p.createdThread)).map fun r => (r.1, (r.2 : ℤ) + cpubegin) := by
    rw [List.map_map]
    rfl
  have hlast : ((numthreads - 1 : ℕ) : ℤ) + cpubegin = cpubegin + numthreads - 1 := by omega
  rw [hcpu, final_eq hrun hleft, List.map_append, List.map_map, List.map_singleton, hlast]
  refine congrArg₂ _ (List.map_congr_left fun k _ => ?_) rfl
  exact congrArg _ (Int.add_comm _ _)

/-- The CPUs at the end of a run, in the order of the counters. -/
theorem map_cpu (hrun : Run fork numthreads [.original] final) (hleft : AllLeft final) :
    final.map (Process.cpu cpubegin) =
      (successes fork numthreads ++ [numthreads - 1]).map fun k : ℕ => cpubegin + k := by
  have hcpu : final.map (Process.cpu cpubegin) =
      (final.map fun p => (p.forks, p.createdThread)).map fun r => (r.2 : ℤ) + cpubegin := by
    rw [List.map_map]
    rfl
  rw [hcpu, final_eq hrun hleft, List.map_append, List.map_map, List.map_append]
  refine congrArg₂ _ (List.map_congr_left fun k _ => Int.add_comm _ _) ?_
  exact congrArg (fun x => [x]) (Int.add_comm _ _)

theorem nodup_counters : (successes fork numthreads ++ [numthreads - 1]).Nodup := by
  rw [List.nodup_append]
  refine ⟨List.nodup_range.filter _, List.pairwise_singleton _ _, ?_⟩
  intro k hk j hj
  have hlt := List.mem_range.mp (List.mem_filter.mp hk).1
  obtain rfl := List.mem_singleton.mp hj
  exact hlt.ne

/-- **The fork loop is right** for any forks and in any order of the processes: a child leaves the
loop at once, with the counter that it has been forked with, and only the original process forks. -/
theorem forkLoopRight (fork : List ℕ → ℕ → Option ℕ+) (h : 1 ≤ numthreads) (cpubegin : ℤ) :
    ForkLoopRight fork numthreads cpubegin where
  ends pool _ := exists_left pool
  processes final hrun hleft := by
    rw [final_cpus h hrun hleft]
    exact List.perm_append_singleton _ _
  distinct final hrun hleft := by
    rw [map_cpu hrun hleft]
    refine List.Nodup.map (fun k j heq => ?_) nodup_counters
    exact Int.ofNat.inj (Int.add_left_cancel heq)
  all hall final hrun hleft := by
    have hsuccesses : successes fork numthreads = List.range (numthreads - 1) := by
      rw [successes, List.filter_eq_self]
      exact fun k hk => hall k (List.mem_range.mp hk)
    have hrange : List.range (numthreads - 1) ++ [numthreads - 1] = List.range numthreads := by
      rw [← List.range_succ, Nat.succ_eq_add_one, Nat.sub_add_cancel h]
    rw [map_cpu hrun hleft, hsuccesses, hrange]

/-- Of three processes, the second fork fails. -/
theorem forkLoopRight_secondFails :
    ForkLoopRight (fun _ k => if k = 1 then none else some 1) 3 0 :=
  forkLoopRight _ (by decide) 0

end Final

end LinuxNote.Himeno.BindAndRun
