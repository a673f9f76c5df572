import LinuxNote.Base.AwkCompare
import LinuxNote.Base.ShellText
import LinuxNote.Base.Words

/-!
# The start of many pods

`check-new.sh` scales a deployment down to no pods and up to many, and measures how long it
takes until all of them run.  It polls `kubectl get pods` and counts lines: `restore` waits for
at most one pod, and the measuring loop for at most one line without `Running`, which is that of
the header.

## Main definitions

* `Listing` — the answer to a poll.
* `poll` — a loop over the answers.
* `run` — the loops of the script one behind the other.
* `RunRight` — each loop ends when the cluster is in the state it waits for.
* `FirstLooksRight` — the answers for which this is so.

## Main results

* `goesOn_decimal` — the comparison of texts in the condition of the loops.
* `poll_cons_of_looks` — a loop ends at an answer that looks right to it.
* `runRight_iff` — **the loops are right exactly when** the first answer that looks right to
  each of them is right.
-/

namespace LinuxNote.CheckNew

open AwkNumber ShellText

/-! ### Answers -/

/-- The line of a pod: name, ready, status, restarts and age.  Only the status has
capital letters in it, so `grep` finds its words nowhere else. -/
structure Pod where
  line : List Char
  name : List Char
  ready : List Char
  status : List Char
  rest : List (List Char)
  words_line : words line = name :: ready :: status :: rest
  small : ∀ w ∈ name :: ready :: rest, ∀ c ∈ w, c.isUpper = false
  status_running : "Running".toList <:+: status → status = "Running".toList
  status_name : ¬ "NAME".toList <:+: status

def Pod.isRunning (p : Pod) : Bool := p.status == "Running".toList

structure HeaderLine where
  line : List Char
  words_line : words line = ["NAME", "READY", "STATUS", "RESTARTS", "AGE"].map String.toList

/-- The answer to `kubectl get pods`.  Without pods there may be a header or not: without
one the answer is `No resources found`, on the other stream. -/
structure Listing where
  header : Option HeaderLine
  pods : List Pod
  header_of_pods : pods ≠ [] → header.isSome = true

def Listing.lines (l : Listing) : List (List Char) :=
  l.header.toList.map HeaderLine.line ++ l.pods.map Pod.line

/-! ### The script -/

/-- The loops of the script. -/
inductive Wait
  | restore
  | measure (podsNum : ℕ)

/-- `grep -v NAME | wc -l` and `grep -v Running | wc -l`. -/
def Wait.count : Wait → Listing → ℕ
  | .restore, l => (l.lines.filter fun line => !occursIn "NAME".toList line).length
  | .measure _, l => (l.lines.filter fun line => !occursIn "Running".toList line).length

/-- `[[ $count > 1 ]]`, which compares texts in the order of a dictionary and not
numbers. -/
def goesOn (count : List Char) : Bool := decide ("1".toList < count)

/-- A loop, with the answers it takes and those that are left.  There is no result as long as
it goes on. -/
def poll (w : Wait) : List Char → List Listing → Option (List Listing × List Listing)
  | count, [] => if goesOn count then none else some ([], [])
  | count, l :: ls =>
    if goesOn count then
      (poll w (CText.decimal (w.count l)) ls).map fun r => (l :: r.1, r.2)
    else some ([], l :: ls)

/-- Loops one behind the other: those that end, with the answers each of them takes. -/
def run : List Wait → List Listing → List (Wait × List Listing)
  | [], _ => []
  | w :: ws, ls =>
    match poll w "100".toList ls with
    | none => []
    | some (taken, rest) => (w, taken) :: run ws rest

/-- The loops of the script for `PODS_NUM`. -/
def script (podsNums : List ℕ) : List Wait :=
  .restore :: podsNums.flatMap fun podsNum => [.measure podsNum, .restore]

/-! ### Right loops -/

/-- The state that the loop waits for. -/
def Wait.Reached : Wait → Listing → Prop
  | .restore, l => l.pods.length = 0
  | .measure podsNum, l => l.pods.length = podsNum ∧ ∀ p ∈ l.pods, p.isRunning = true

/-- The state looks like this to the loop: there is at most one pod, or all pods run.  An
answer without pods looks like the end of both loops. -/
def Wait.LooksReached : Wait → Listing → Prop
  | .restore, l => l.pods.length ≤ 1
  | .measure _, l => ∀ p ∈ l.pods, p.isRunning = true

/-- A loop that ends does so with an answer that shows the state it waits for, so that
the next step starts from there. -/
def RunRight (ws : List Wait) (ls : List Listing) : Prop :=
  ∀ r ∈ run ws ls, ∃ last, r.2.getLast? = some last ∧ r.1.Reached last

/-- The first answer that looks right to a loop is right, and so on behind it: the next
loop starts with the answers that are left. -/
def FirstLooksRight : List Wait → List Listing → Prop
  | [], _ => True
  | w :: ws, ls =>
    ∀ before last rest, ls = before ++ last :: rest → (∀ l ∈ before, ¬ w.LooksReached l) →
      w.LooksReached last → w.Reached last ∧ FirstLooksRight ws rest

/-! ### The condition of the loops -/

/-- **Numbers are compared as texts**, which is right for 1: the text of no other number
is smaller than it but that of zero. -/
theorem goesOn_decimal (n : ℕ) : goesOn (CText.decimal n) = decide (2 ≤ n) := by
  rw [goesOn, decide_eq_decide]
  rcases Nat.lt_or_ge n 2 with hn | hn
  · have hnot : ¬ 2 ≤ n := Nat.not_le.mpr hn
    refine iff_of_false ?_ hnot
    obtain rfl | rfl : n = 0 ∨ n = 1 := by omega
    · decide
    · decide
  · refine iff_of_true ?_ hn
    obtain ⟨c, t, hdecimal, hdigit, hzero⟩ := leadsPositive_decimal (Nat.zero_lt_of_lt hn)
    rw [hdecimal]
    -- the first digit is above 1, or there is a second one
    by_cases hone : c = '1'
    · subst hone
      cases t with
      | nil =>
        have hvalue : (n : ℚ) = 1 := by
          rw [← numValue_decimal n, hdecimal]
          exact numValue_decimal 1
        exact absurd (Nat.cast_eq_one.mp hvalue) (by omega)
      | cons d t => exact List.Lex.cons List.Lex.nil
    · apply List.Lex.rel
      rw [Char.isDigit_iff_toNat] at hdigit
      have hcode : c.toNat ≠ '0'.toNat := fun h => hzero (Char.toNat_inj.mp h)
      have hcode' : c.toNat ≠ '1'.toNat := fun h => hone (Char.toNat_inj.mp h)
      have hlt : '1'.toNat < c.toNat := by
        have h0 : '0'.toNat = 48 := rfl
        have h1 : '1'.toNat = 49 := rfl
        omega
      exact hlt

/-- Words of small letters do not have a text with a capital letter in it. -/
theorem Pod.infix_line (p : Pod) {text : List Char} (hne : text ≠ [])
    (hblank : ∀ c ∈ text, isBlank c = false) (hcapital : ∃ c ∈ text, c.isUpper = true) :
    text <:+: p.line ↔ text <:+: p.status := by
  have hsmall : ∀ w ∈ p.name :: p.ready :: p.rest, ¬ text <:+: w := by
    intro w hw hin
    obtain ⟨c, hc, hupper⟩ := hcapital
    rw [p.small w hw c (hin.subset hc)] at hupper
    exact Bool.false_ne_true hupper
  rw [infix_iff_exists_word hne hblank, p.words_line]
  constructor
  · rintro ⟨w, hw, hin⟩
    by_cases hstatus : w = p.status
    · rwa [← hstatus]
    · have hother : w ∈ p.name :: p.ready :: p.rest := by
        simp only [List.mem_cons] at hw ⊢
        tauto
      exact absurd hin (hsmall w hother)
  · intro hin
    exact ⟨p.status, by simp, hin⟩

/-- The line of a pod shows whether it runs. -/
theorem Pod.occursIn_running (p : Pod) : occursIn "Running".toList p.line = p.isRunning := by
  rw [Bool.eq_iff_iff, occursIn_iff, p.infix_line (by decide) (isBlank_of_all (by decide))
    ⟨'R', by decide, by decide⟩, Pod.isRunning, beq_iff_eq]
  refine ⟨p.status_running, fun h => ?_⟩
  rw [h]

theorem Pod.occursIn_name (p : Pod) : occursIn "NAME".toList p.line = false := by
  rw [← Bool.not_eq_true, occursIn_iff, p.infix_line (by decide) (isBlank_of_all (by decide))
    ⟨'N', by decide, by decide⟩]
  exact p.status_name

theorem HeaderLine.occursIn_line (h : HeaderLine) :
    occursIn "NAME".toList h.line = true ∧ occursIn "Running".toList h.line = false := by
  constructor
  · rw [occursIn_iff, infix_iff_exists_word (by decide) (isBlank_of_all (by decide)), h.words_line]
    exact ⟨"NAME".toList, by decide, List.infix_rfl⟩
  · rw [← Bool.not_eq_true, occursIn_iff,
      infix_iff_exists_word (by decide) (isBlank_of_all (by decide)), h.words_line]
    decide

/-- `restore` counts the pods. -/
theorem count_restore (l : Listing) : Wait.restore.count l = l.pods.length := by
  have hheader : (l.header.toList.map HeaderLine.line).filter
      (fun line => !occursIn "NAME".toList line) = [] := by
    rw [List.filter_eq_nil_iff, List.forall_mem_map]
    intro h _
    rw [h.occursIn_line.1]
    exact Bool.false_ne_true
  have hpods : (l.pods.map Pod.line).filter (fun line => !occursIn "NAME".toList line) =
      l.pods.map Pod.line := by
    rw [List.filter_eq_self, List.forall_mem_map]
    intro p _
    rw [p.occursIn_name]
    rfl
  rw [Wait.count, Listing.lines, List.filter_append, hheader, hpods, List.nil_append,
    List.length_map]

/-- The measuring loop counts the header and the pods that do not run. -/
theorem count_measure (podsNum : ℕ) (l : Listing) :
    (Wait.measure podsNum).count l =
      l.header.toList.length + (l.pods.filter fun p => !p.isRunning).length := by
  have hheader : (l.header.toList.map HeaderLine.line).filter
      (fun line => !occursIn "Running".toList line) = l.header.toList.map HeaderLine.line := by
    rw [List.filter_eq_self, List.forall_mem_map]
    intro h _
    rw [h.occursIn_line.2]
    rfl
  have hpods : (l.pods.map Pod.line).filter (fun line => !occursIn "Running".toList line) =
      (l.pods.filter fun p => !p.isRunning).map Pod.line := by
    rw [List.filter_map]
    refine congrArg _ (List.filter_congr fun p _ => ?_)
    rw [← p.occursIn_running]
    rfl
  rw [Wait.count, Listing.lines, List.filter_append, hheader, hpods, List.length_append,
    List.length_map, List.length_map]

/-- A loop goes on at the answers that do not look right to it. -/
theorem goesOn_count (w : Wait) (l : Listing) :
    goesOn (CText.decimal (w.count l)) = true ↔ ¬ w.LooksReached l := by
  rw [goesOn_decimal, decide_eq_true_iff]
  cases w with
  | restore =>
    rw [count_restore, Wait.LooksReached]
    omega
  | measure podsNum =>
    rw [count_measure, Wait.LooksReached]
    have hrunning : (l.pods.filter fun p => !p.isRunning).length = 0 ↔
        ∀ p ∈ l.pods, p.isRunning = true := by
      simp [List.filter_eq_nil_iff]
    rw [← hrunning]
    -- where a pod is, there is a header, which counts as well
    cases hheader : l.header with
    | none =>
      have hpods : l.pods = [] := by
        by_contra hne
        have hsome := l.header_of_pods hne
        rw [hheader] at hsome
        exact Bool.false_ne_true hsome
      rw [hpods]
      decide
    | some h =>
      change 2 ≤ 1 + _ ↔ _
      omega

/-! ### Where loops end -/

section Poll

variable {w : Wait} {ws : List Wait} {l : Listing} {ls : List Listing}

theorem goesOn_hundred : goesOn "100".toList = true := by decide

/-- How large the count is does not matter. -/
theorem poll_of_goesOn {count : List Char} (h : goesOn count = true) :
    poll w count ls = poll w "100".toList ls := by
  cases ls with
  | nil => rw [poll, poll, h, goesOn_hundred]
  | cons l ls => rw [poll, poll, h, goesOn_hundred]

theorem poll_nil : poll w "100".toList [] = none := by
  rw [poll, if_pos goesOn_hundred]

/-- The loop ends at an answer that looks right to it. -/
theorem poll_cons_of_looks (h : w.LooksReached l) :
    poll w "100".toList (l :: ls) = some ([l], ls) := by
  have hend : goesOn (CText.decimal (w.count l)) = false := by
    rw [← Bool.not_eq_true, goesOn_count, not_not]
    exact h
  rw [poll, if_pos goesOn_hundred]
  cases ls with
  | nil => rw [poll, hend]; rfl
  | cons l' ls => rw [poll, hend]; rfl

/-- Any other answer is taken, and the loop goes on. -/
theorem poll_cons_of_not_looks (h : ¬ w.LooksReached l) :
    poll w "100".toList (l :: ls) =
      (poll w "100".toList ls).map fun r => (l :: r.1, r.2) := by
  rw [poll, if_pos goesOn_hundred, poll_of_goesOn ((goesOn_count w l).mpr h)]

/-- A loop that ends has taken an answer. -/
theorem taken_ne_nil {taken rest : List Listing}
    (h : poll w "100".toList ls = some (taken, rest)) : taken ≠ [] := by
  cases ls with
  | nil => rw [poll_nil] at h; cases h
  | cons l ls =>
    by_cases hlooks : w.LooksReached l
    · rw [poll_cons_of_looks hlooks] at h
      cases h
      exact List.cons_ne_nil _ _
    · rw [poll_cons_of_not_looks hlooks, Option.map_eq_some_iff] at h
      obtain ⟨r, -, heq⟩ := h
      cases heq
      exact List.cons_ne_nil _ _

/-! ### One answer more -/

theorem runRight_nil : RunRight (w :: ws) [] := by
  intro r hr
  rw [run, poll_nil] at hr
  exact absurd hr List.not_mem_nil

theorem runRight_cons_of_looks (h : w.LooksReached l) :
    RunRight (w :: ws) (l :: ls) ↔ w.Reached l ∧ RunRight ws ls := by
  rw [RunRight, run, poll_cons_of_looks h]
  simp only [List.forall_mem_cons, List.getLast?_singleton, Option.some.injEq, exists_eq_left']
  rfl

theorem runRight_cons_of_not_looks (h : ¬ w.LooksReached l) :
    RunRight (w :: ws) (l :: ls) ↔ RunRight (w :: ws) ls := by
  rw [RunRight, RunRight, run, run, poll_cons_of_not_looks h]
  cases hpoll : poll w "100".toList ls with
  | none => exact Iff.rfl
  | some r =>
    obtain ⟨taken, rest⟩ := r
    simp only [Option.map_some, List.forall_mem_cons,
      List.getLast?_cons_of_ne_nil (taken_ne_nil hpoll)]

theorem firstLooksRight_nil : FirstLooksRight (w :: ws) [] := by
  intro before last rest hsplit
  exact absurd hsplit (by simp)

theorem firstLooksRight_cons_of_looks (h : w.LooksReached l) :
    FirstLooksRight (w :: ws) (l :: ls) ↔ w.Reached l ∧ FirstLooksRight ws ls := by
  rw [FirstLooksRight]
  constructor
  · intro hfirst
    exact hfirst [] l ls rfl (List.forall_mem_nil _) h
  · intro hfirst before last rest hsplit hbefore _
    cases before with
    | nil =>
      obtain ⟨rfl, rfl⟩ := List.cons.inj hsplit
      exact hfirst
    | cons l' before =>
      obtain ⟨rfl, -⟩ := List.cons.inj hsplit
      exact absurd h (hbefore l List.mem_cons_self)

theorem firstLooksRight_cons_of_not_looks (h : ¬ w.LooksReached l) :
    FirstLooksRight (w :: ws) (l :: ls) ↔ FirstLooksRight (w :: ws) ls := by
  rw [FirstLooksRight, FirstLooksRight]
  constructor
  · intro hfirst before last rest hsplit hbefore
    exact hfirst (l :: before) last rest (by rw [hsplit]; rfl)
      (List.forall_mem_cons.mpr ⟨h, hbefore⟩)
  · intro hfirst before last rest hsplit hbefore hlooks
    cases before with
    | nil =>
      obtain ⟨rfl, rfl⟩ := List.cons.inj hsplit
      exact absurd hlooks h
    | cons l' before =>
      obtain ⟨rfl, hrest⟩ := List.cons.inj hsplit
      exact hfirst before last rest hrest (List.forall_mem_cons.mp hbefore).2 hlooks

end Poll

/-- **The loops are right exactly when** the first answer that looks right to each of
them is right, as that is the one they end with. -/
theorem runRight_iff (ws : List Wait) (ls : List Listing) :
    RunRight ws ls ↔ FirstLooksRight ws ls := by
  induction ws generalizing ls with
  | nil => exact iff_of_true (List.forall_mem_nil _) trivial
  | cons w ws ihws =>
    induction ls with
    | nil => exact iff_of_true runRight_nil firstLooksRight_nil
    | cons l ls ihls =>
      by_cases h : w.LooksReached l
      · rw [runRight_cons_of_looks h, firstLooksRight_cons_of_looks h, ihws]
      · rw [runRight_cons_of_not_looks h, firstLooksRight_cons_of_not_looks h, ihls]

/-- The answer when there are no pods. -/
def noPods : Listing := ⟨none, [], fun h => absurd rfl h⟩

/-- Two pods count as started before there is any. -/
theorem not_runRight_noPods : ¬ RunRight (script [2]) [noPods, noPods] := by
  intro h
  have hrestore : Wait.restore.LooksReached noPods := Nat.zero_le 1
  have hmeasure : (Wait.measure 2).LooksReached noPods := List.forall_mem_nil _
  have hreached := ((runRight_cons_of_looks hmeasure).mp
    ((runRight_cons_of_looks hrestore).mp h).2).1
  exact absurd hreached.1 (by decide)

end LinuxNote.CheckNew
