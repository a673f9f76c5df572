import Mathlib.Data.List.Basic
import Mathlib.Data.Int.Order.Basic

/-!
# Performance-counter groups

The part of the kernel interface the collectors rely on.  Opening a counter with
group descriptor `-1` starts a new group of which it is the leader, opening it
with a leader's descriptor joins that group, and a failed opening returns `-1`.
Reading a leader returns the number of members followed by the members' counters
in the order in which they joined; the call fails when the buffer is too short
for all of it, and it fails on descriptor `-1`.

* `Perf`, `Perf.perfEventOpen`, `Perf.group`, `Perf.read`.
* `openAll` — a program's sequence of openings for one group, in which every
  opening after the first names the first one's descriptor.
* `group_openAll_self`, `group_openAll_of_lt` — which members the new group has,
  and that older groups keep theirs.
-/

namespace PerfGroup

/-- An open counter: the descriptor of its group's leader, the configured event
and the CPU it counts on. -/
structure Event where
  leader : ℕ
  config : ℤ
  cpu : ℕ
  deriving DecidableEq

/-- The open counters; descriptor `fd` is the `fd`-th opened.  Every leader is
itself an open counter. -/
structure Perf where
  opened : List Event
  leader_lt : ∀ e ∈ opened, e.leader < opened.length

namespace Perf

/-- Nothing is open. -/
def init : Perf := ⟨[], by simp⟩

/-- Add a counter to the group of `leader`, an open counter or the new one. -/
def add (p : Perf) (leader : ℕ) (config : ℤ) (cpu : ℕ) (h : leader ≤ p.opened.length) : Perf where
  opened := p.opened ++ [⟨leader, config, cpu⟩]
  leader_lt := by
    intro e he
    rw [List.length_append, List.length_singleton]
    rcases List.mem_append.mp he with he | he
    · have := p.leader_lt e he
      omega
    · rw [List.mem_singleton] at he
      subst he
      exact Nat.lt_succ_of_le h

/-- `perf_event_open(attr, -1, cpu, group_fd, 0)`, which the kernel grants when
`ok` and the group descriptor is `-1` or open: the descriptor, or `-1`. -/
def perfEventOpen (p : Perf) (config : ℤ) (cpu : ℕ) (groupFd : ℤ) (ok : Bool) : Perf × ℤ :=
  if ok then
    if groupFd = -1 then (p.add p.opened.length config cpu (Nat.le_refl _), p.opened.length)
    else if h : 0 ≤ groupFd ∧ groupFd.toNat < p.opened.length then
      (p.add groupFd.toNat config cpu (Nat.le_of_lt h.2), p.opened.length)
    else (p, -1)
  else (p, -1)

/-- The members of the group led by a descriptor, in joining order. -/
def group (p : Perf) (fd : ℤ) : Option (List Event) :=
  if fd < 0 then none else some (p.opened.filter fun e => e.leader == fd.toNat)

/-- `read(fd, buf, sizeof(buf))` with room for `cap` words: the words read, or
`none` when the call fails. -/
def read (p : Perf) (count : ℤ → ℕ → ℤ) (cap : ℕ) (fd : ℤ) : Option (List ℤ) :=
  match p.group fd with
  | none => none
  | some es =>
    if es.length + 1 ≤ cap then some ((es.length : ℤ) :: es.map fun e => count e.config e.cpu)
    else none

@[simp] theorem opened_add (p : Perf) (leader : ℕ) (config : ℤ) (cpu : ℕ)
    (h : leader ≤ p.opened.length) :
    (p.add leader config cpu h).opened = p.opened ++ [⟨leader, config, cpu⟩] := rfl

/-- A leader's descriptor joins its group. -/
theorem perfEventOpen_join (p : Perf) (config : ℤ) (cpu : ℕ) {leader : ℕ}
    (h : leader < p.opened.length) :
    p.perfEventOpen config cpu leader true =
      (p.add leader config cpu (Nat.le_of_lt h), (p.opened.length : ℤ)) := by
  have hneg : ¬ ((leader : ℤ) = -1) := by omega
  have hopen : 0 ≤ (leader : ℤ) ∧ ((leader : ℤ)).toNat < p.opened.length :=
    ⟨Int.natCast_nonneg leader, by simpa using h⟩
  rw [perfEventOpen, if_pos rfl, if_neg hneg, dif_pos hopen]
  rfl

theorem group_neg_one (p : Perf) : p.group (-1) = none := rfl

/-- Opening counters of other groups changes nothing for a group. -/
theorem group_of_opened_append {p q : Perf} {es : List Event} {fd : ℤ}
    (hq : q.opened = p.opened ++ es) (h : ∀ e ∈ es, e.leader ≠ fd.toNat) :
    q.group fd = p.group fd := by
  have hnil : es.filter (fun e => e.leader == fd.toNat) = [] := by
    rw [List.filter_eq_nil_iff]
    intro e he
    simpa using h e he
  simp [group, hq, hnil]

theorem read_eq_none {p : Perf} {count : ℤ → ℕ → ℤ} {cap : ℕ} {fd : ℤ} (h : p.group fd = none) :
    p.read count cap fd = none := by
  simp [read, h]

end Perf

/-! ### Building one group -/

/-- The counters open so far, the descriptor kept for the group being built and
whether an opening has been tried. -/
structure Builder where
  perf : Perf
  fd : ℤ
  tried : Bool

/-- One opening: the first one's result, a descriptor or `-1`, is kept. -/
def openOne (cpu : ℕ) (b : Builder) (a : ℤ × Bool) : Builder :=
  let r := b.perf.perfEventOpen a.1 cpu b.fd a.2
  { perf := r.1, fd := if b.tried then b.fd else r.2, tried := true }

/-- The openings `as` for one CPU: the event, and whether the kernel grants it. -/
def openAll (cpu : ℕ) (p : Perf) (as : List (ℤ × Bool)) : Builder :=
  as.foldl (openOne cpu) ⟨p, -1, false⟩

/-- The events of the group the openings `as` build: there is a group when the first
opening is granted, and its members are the granted ones in order, so that a counter is
only known by its place. -/
def groupOf : List (ℤ × Bool) → Option (List ℤ)
  | (config, true) :: as => some (config :: (as.filter (·.2)).map (·.1))
  | _ => none

@[simp] theorem groupOf_nil : groupOf [] = none := rfl

@[simp] theorem groupOf_cons_true (config : ℤ) (as : List (ℤ × Bool)) :
    groupOf ((config, true) :: as) = some (config :: (as.filter (·.2)).map (·.1)) := rfl

@[simp] theorem groupOf_cons_false (config : ℤ) (as : List (ℤ × Bool)) :
    groupOf ((config, false) :: as) = none := rfl

/-- A group has no more members than openings were tried. -/
theorem length_groupOf_le {as : List (ℤ × Bool)} {cs : List ℤ} (h : groupOf as = some cs) :
    cs.length ≤ as.length := by
  match as, h with
  | (config, true) :: as, h =>
    rw [groupOf_cons_true, Option.some.injEq] at h
    rw [← h, List.length_cons, List.length_map, List.length_cons]
    exact Nat.succ_le_succ List.filter_sublist.length_le

@[simp] theorem openAll_nil (cpu : ℕ) (p : Perf) : openAll cpu p [] = ⟨p, -1, false⟩ := rfl

/-- One more opening. -/
theorem openAll_append_singleton (cpu : ℕ) (p : Perf) (as : List (ℤ × Bool)) (a : ℤ × Bool) :
    openAll cpu p (as ++ [a]) = openOne cpu (openAll cpu p as) a := by
  simp [openAll]

/-- Once a leader is there, every granted opening joins it. -/
theorem foldl_openOne_of_leader (cpu : ℕ) {L : ℕ} (as : List (ℤ × Bool)) :
    ∀ b : Builder, L < b.perf.opened.length → b.fd = L → b.tried = true →
      (as.foldl (openOne cpu) b).fd = L ∧
      (as.foldl (openOne cpu) b).perf.opened =
        b.perf.opened ++ (as.filter (·.2)).map fun a => ⟨L, a.1, cpu⟩ := by
  induction as with
  | nil => rintro b - hfd -; simp [hfd]
  | cons a as ih =>
    rintro ⟨p, fd, tried⟩ hL rfl rfl
    obtain ⟨config, ok⟩ := a
    rw [List.foldl_cons]
    cases ok with
    | false => exact ih _ hL rfl rfl
    | true =>
      let q := p.add L config cpu (Nat.le_of_lt hL)
      have hone : openOne cpu ⟨p, L, true⟩ (config, true) = ⟨q, L, true⟩ := by
        rw [openOne, Perf.perfEventOpen_join p config cpu hL]
        rfl
      rw [hone]
      obtain ⟨hfd, hopened⟩ := ih ⟨q, L, true⟩ (by simpa [q] using Nat.lt_succ_of_lt hL) rfl rfl
      exact ⟨hfd, hopened.trans (by simp [q])⟩

/-- Without a leader, every granted opening starts a group of its own. -/
theorem foldl_openOne_of_fail (cpu : ℕ) (as : List (ℤ × Bool)) :
    ∀ b : Builder, b.fd = -1 → b.tried = true →
      (as.foldl (openOne cpu) b).fd = -1 ∧
      ∃ es, (as.foldl (openOne cpu) b).perf.opened = b.perf.opened ++ es ∧
        ∀ e ∈ es, b.perf.opened.length ≤ e.leader := by
  induction as with
  | nil => rintro b hfd -; exact ⟨hfd, [], by simp, by simp⟩
  | cons a as ih =>
    rintro ⟨p, fd, tried⟩ rfl rfl
    obtain ⟨config, ok⟩ := a
    rw [List.foldl_cons]
    cases ok with
    | false => exact ih _ rfl rfl
    | true =>
      let q := p.add p.opened.length config cpu (Nat.le_refl _)
      obtain ⟨hfd, es, hopened, hes⟩ := ih ⟨q, -1, true⟩ rfl rfl
      refine ⟨hfd, ⟨p.opened.length, config, cpu⟩ :: es, ?_, ?_⟩
      · refine hopened.trans ?_
        simp [q]
      · intro e he
        rcases List.mem_cons.mp he with rfl | he
        · exact Nat.le_refl _
        · have hlen := hes e he
          simp only [q, Perf.opened_add, List.length_append, List.length_singleton] at hlen
          exact Nat.le_of_succ_le hlen

/-- The openings append counters whose leaders are new, and keep the leader's
descriptor of the group they build. -/
theorem openAll_spec (cpu : ℕ) (p : Perf) (as : List (ℤ × Bool)) :
    ∃ es, (openAll cpu p as).perf.opened = p.opened ++ es ∧
      (∀ e ∈ es, p.opened.length ≤ e.leader) ∧
      (groupOf as = none ∧ (openAll cpu p as).fd = -1 ∨
        ∃ cs, groupOf as = some cs ∧ (openAll cpu p as).fd = p.opened.length ∧
          es = cs.map fun c => ⟨p.opened.length, c, cpu⟩) := by
  cases as with
  | nil => exact ⟨[], by simp [openAll], by simp, Or.inl ⟨rfl, rfl⟩⟩
  | cons a as =>
    obtain ⟨config, ok⟩ := a
    rw [openAll, List.foldl_cons]
    cases ok with
    | false =>
      obtain ⟨hfd, es, hopened, hes⟩ := foldl_openOne_of_fail cpu as ⟨p, -1, true⟩ rfl rfl
      exact ⟨es, hopened, hes, Or.inl ⟨rfl, hfd⟩⟩
    | true =>
      let q := p.add p.opened.length config cpu (Nat.le_refl _)
      obtain ⟨hfd, hopened⟩ := foldl_openOne_of_leader cpu (L := p.opened.length) as
        ⟨q, p.opened.length, true⟩ (by simp [q]) rfl rfl
      refine ⟨(config :: (as.filter (·.2)).map (·.1)).map fun c => ⟨p.opened.length, c, cpu⟩,
        ?_, ?_, Or.inr ⟨_, rfl, hfd, rfl⟩⟩
      · refine hopened.trans ?_
        simp [q]
      · intro e he
        obtain ⟨c, -, rfl⟩ := List.mem_map.mp he
        exact Nat.le_refl _

/-- **The group built**: its members are the granted openings in order, and there
is none when the first opening fails. -/
theorem group_openAll_self (cpu : ℕ) (p : Perf) (as : List (ℤ × Bool)) :
    (openAll cpu p as).perf.group (openAll cpu p as).fd =
      (groupOf as).map fun cs => cs.map fun c => ⟨p.opened.length, c, cpu⟩ := by
  obtain ⟨es, hperf, -, ⟨hnone, hfd⟩ | ⟨cs, hsome, hfd, rfl⟩⟩ := openAll_spec cpu p as
  · rw [hfd, hnone, Perf.group_neg_one]
    rfl
  · have hold : p.opened.filter (fun e => e.leader == p.opened.length) = [] := by
      rw [List.filter_eq_nil_iff]
      intro e he
      have := p.leader_lt e he
      simp only [beq_iff_eq]
      omega
    have hneg : ¬ ((p.opened.length : ℤ) < 0) := by omega
    rw [hfd, hsome, Perf.group, if_neg hneg, Int.toNat_natCast, hperf]
    simp [hold, List.filter_map, Function.comp_def]

/-- **Frame**: the groups that were there keep their members. -/
theorem group_openAll_of_lt {cpu : ℕ} {p : Perf} {as : List (ℤ × Bool)} {fd : ℤ}
    (hfd : fd < p.opened.length) : (openAll cpu p as).perf.group fd = p.group fd := by
  obtain ⟨es, hperf, hes, -⟩ := openAll_spec cpu p as
  by_cases hneg : fd < 0
  · simp [Perf.group, hneg]
  · refine Perf.group_of_opened_append hperf fun e he => ?_
    have := hes e he
    omega

theorem length_le_openAll (cpu : ℕ) (p : Perf) (as : List (ℤ × Bool)) :
    p.opened.length ≤ (openAll cpu p as).perf.opened.length := by
  obtain ⟨es, hperf, -, -⟩ := openAll_spec cpu p as
  rw [hperf, List.length_append]
  omega

/-- A builder's descriptor is `-1` or a counter that is open. -/
theorem fd_openAll_lt (cpu : ℕ) (p : Perf) (as : List (ℤ × Bool)) :
    (openAll cpu p as).fd < (openAll cpu p as).perf.opened.length := by
  obtain ⟨es, hperf, -, ⟨-, hfd⟩ | ⟨cs, hcs, hfd, rfl⟩⟩ := openAll_spec cpu p as
  · rw [hfd]; omega
  · have hpos : cs ≠ [] := by
      rintro rfl
      rcases as with _ | ⟨⟨config, _ | _⟩, as⟩ <;> simp at hcs
    have := List.length_pos_iff.mpr hpos
    rw [hperf, hfd, List.length_append, List.length_map]
    omega

end PerfGroup
