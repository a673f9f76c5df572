import LinuxNote.Base.AwkCompare
import LinuxNote.Base.ShellText
import Mathlib.Data.Char
import Mathlib.Data.List.Dedup
import Mathlib.Data.List.Lex
import Mathlib.Data.List.Sort

/-!
# Sorted lines without repetitions

`sort -nu` sorts lines by the numbers they start with and keeps the first line of each
run of equal numbers.  The sorting is stable, so the line that is kept is the first of
its number in the input.

* `firstOfRuns` — the first element of each run of a sorted list.
* `sortNumber` — the number that `sort -n` reads.
* `sortNumericUnique` — `sort -nu`.
* `mem_sortNumericUnique` — **a line is kept** when it is the first of its number.
* `sortUnique` — `sort -u`.
-/

namespace ShellText

/-! ### The first of a run -/

section Runs

variable {α β : Type*} [LinearOrder β] (key : α → β)

/-- The elements whose key differs from that of the element before, which is the first
argument to begin with. -/
def changesFrom : α → List α → List α
  | _, [] => []
  | a, x :: xs => if key x = key a then changesFrom a xs else x :: changesFrom x xs

/-- The first element of each run of equal keys, which is what `uniq` and `-u` leave of a
list. -/
def firstOfRuns : List α → List α
  | [] => []
  | x :: xs => x :: changesFrom key x xs

variable {key}

/-- In a sorted list, an element behind `a` is the first of its run when it is the first
of its key and this is not the key of `a`. -/
theorem mem_changesFrom {a w : α} {xs : List α}
    (h : (a :: xs).Pairwise fun x y => key x ≤ key y) :
    w ∈ changesFrom key a xs ↔
      key w ≠ key a ∧ xs.find? (fun x => decide (key x = key w)) = some w := by
  induction xs generalizing a with
  | nil => simp [changesFrom]
  | cons x xs ih =>
    obtain ⟨ha, hx⟩ := List.pairwise_cons.mp h
    have hax : key a ≤ key x := ha x List.mem_cons_self
    have hskip : (a :: xs).Pairwise fun x y => key x ≤ key y :=
      h.sublist (List.Sublist.cons_cons a (List.sublist_cons_self x xs))
    rw [changesFrom]
    by_cases hxa : key x = key a
    · rw [if_pos hxa, ih hskip]
      refine and_congr_right fun hw => ?_
      rw [List.find?_cons_of_neg (by simpa [hxa] using hw.symm)]
    · rw [if_neg hxa, List.mem_cons, ih hx]
      by_cases hxw : key x = key w
      · rw [List.find?_cons_of_pos (by simpa using hxw), Option.some_inj, ← hxw]
        constructor
        · rintro (hw | ⟨hne, -⟩)
          · exact ⟨hxa, hw.symm⟩
          · exact absurd rfl hne
        · rintro ⟨-, hw⟩
          exact Or.inl hw.symm
      · rw [List.find?_cons_of_neg (by simpa using hxw)]
        constructor
        · rintro (rfl | ⟨-, hfind⟩)
          · exact absurd rfl hxw
          · refine ⟨fun hwa => hxw ?_, hfind⟩
            -- the keys between two equal ones are equal to them
            have hle : key x ≤ key w :=
              (List.pairwise_cons.mp hx).1 w (List.mem_of_find?_eq_some hfind)
            rw [hwa] at hle ⊢
            exact le_antisymm hle hax
        · rintro ⟨-, hfind⟩
          exact Or.inr ⟨fun hwx => hxw hwx.symm, hfind⟩

/-- **In a sorted list** the first of a run is the first of its key. -/
theorem mem_firstOfRuns {w : α} {xs : List α} (h : xs.Pairwise fun x y => key x ≤ key y) :
    w ∈ firstOfRuns key xs ↔ xs.find? (fun x => decide (key x = key w)) = some w := by
  cases xs with
  | nil => simp [firstOfRuns]
  | cons x xs =>
    rw [firstOfRuns, List.mem_cons, mem_changesFrom h]
    by_cases hxw : key x = key w
    · rw [List.find?_cons_of_pos (by simpa using hxw), Option.some_inj]
      constructor
      · rintro (hw | ⟨hne, -⟩)
        · exact hw.symm
        · exact absurd hxw.symm hne
      · exact fun hw => Or.inl hw.symm
    · rw [List.find?_cons_of_neg (by simpa using hxw)]
      constructor
      · rintro (rfl | ⟨-, hfind⟩)
        · exact absurd rfl hxw
        · exact hfind
      · exact fun hfind => Or.inr ⟨fun hwx => hxw hwx.symm, hfind⟩

/-- The keys behind the first run grow. -/
theorem pairwise_changesFrom {a : α} {xs : List α}
    (h : (a :: xs).Pairwise fun x y => key x ≤ key y) :
    (a :: changesFrom key a xs).Pairwise fun x y => key x < key y := by
  induction xs generalizing a with
  | nil => simp [changesFrom]
  | cons x xs ih =>
    obtain ⟨ha, hx⟩ := List.pairwise_cons.mp h
    have hskip : (a :: xs).Pairwise fun x y => key x ≤ key y :=
      h.sublist (List.Sublist.cons_cons a (List.sublist_cons_self x xs))
    rw [changesFrom]
    split
    · exact ih hskip
    · next hne =>
      have hlt : key a < key x := lt_of_le_of_ne (ha x List.mem_cons_self) (Ne.symm hne)
      have hrest := ih hx
      refine List.pairwise_cons.mpr ⟨?_, hrest⟩
      intro y hy
      rcases List.mem_cons.mp hy with rfl | hy
      · exact hlt
      · exact hlt.trans ((List.pairwise_cons.mp hrest).1 y hy)

theorem nodup_firstOfRuns {xs : List α} (h : xs.Pairwise fun x y => key x ≤ key y) :
    (firstOfRuns key xs).Nodup := by
  cases xs with
  | nil => exact List.nodup_nil
  | cons x xs => exact (pairwise_changesFrom h).imp fun hlt heq => absurd (heq ▸ hlt) (lt_irrefl _)

end Runs

/-! ### Stable sorting -/

section Stable

variable {α β : Type*} [LinearOrder β] (key : α → β)

/-- Sorting by a key.  Elements with the same key stay in their order. -/
def sortBy (xs : List α) : List α := xs.insertionSort fun x y => key x ≤ key y

theorem pairwise_sortBy (xs : List α) : (sortBy key xs).Pairwise fun x y => key x ≤ key y := by
  have htotal : Std.Total fun x y => key x ≤ key y := ⟨fun x y => le_total (key x) (key y)⟩
  have htrans : IsTrans α fun x y => key x ≤ key y := ⟨fun _ _ _ => le_trans⟩
  exact List.pairwise_insertionSort _ xs

/-- **Sorting is stable**: the elements of one key keep their order. -/
theorem filter_sortBy (xs : List α) (k : β) :
    (sortBy key xs).filter (fun x => decide (key x = k)) =
      xs.filter fun x => decide (key x = k) := by
  have htotal : Std.Total fun x y => key x ≤ key y := ⟨fun x y => le_total (key x) (key y)⟩
  have htrans : IsTrans α fun x y => key x ≤ key y := ⟨fun _ _ _ => le_trans⟩
  have hsame : (xs.filter fun x => decide (key x = k)).Pairwise fun x y => key x ≤ key y := by
    apply List.pairwise_of_forall_mem_list
    intro x hx y hy
    have hxk := of_decide_eq_true (List.mem_filter.mp hx).2
    have hyk := of_decide_eq_true (List.mem_filter.mp hy).2
    rw [hxk, hyk]
  have hsub : (xs.filter fun x => decide (key x = k)).Sublist (sortBy key xs) :=
    List.sublist_insertionSort hsame List.filter_sublist
  have hfilter := hsub.filter fun x => decide (key x = k)
  rw [List.filter_filter] at hfilter
  simp only [Bool.and_self] at hfilter
  have hperm := (List.perm_insertionSort (fun x y => key x ≤ key y) xs).filter
    fun x => decide (key x = k)
  exact (hfilter.eq_of_length hperm.length_eq.symm).symm

/-- The first element of a key stays the first. -/
theorem find?_sortBy (xs : List α) (k : β) :
    (sortBy key xs).find? (fun x => decide (key x = k)) =
      xs.find? fun x => decide (key x = k) := by
  rw [← List.head?_filter, ← List.head?_filter, filter_sortBy]

end Stable

/-! ### `sort` -/

/-- The number that `sort -n` reads at the start of a line: no exponent and no plus
sign, 0 if there is none. -/
def sortNumber (line : List Char) : ℚ :=
  let digits := fun s : List Char =>
    let whole := s.takeWhile Char.isDigit
    let frac := AwkNumber.fraction (s.dropWhile Char.isDigit)
    (Nat.ofDigitChars 10 (whole ++ frac.1) 0 : ℚ) / 10 ^ frac.1.length
  match line.dropWhile isBlank with
  | '-' :: s => -digits s
  | s => digits s

/-- The number of a printed number. -/
theorem sortNumber_decimal (i : ℕ) : sortNumber (CText.decimal i) = i := by
  obtain ⟨c, t, hct, hc⟩ := AwkNumber.exists_digit_decimal i
  have hdrop : (CText.decimal i).dropWhile isBlank = CText.decimal i := by
    rw [hct, List.dropWhile_cons_of_neg (by simp [isBlank_eq_false_of_isDigit hc])]
  have hdigits : Nat.ofDigitChars 10 (CText.decimal i) 0 = i := Nat.ofDigitChars_ten_toDigits
  unfold sortNumber
  rw [hdrop]
  split
  · next s h =>
    rw [h] at hct
    rw [← (List.cons.inj hct).1] at hc
    exact absurd hc (by decide)
  · simp [AwkNumber.takeWhile_decimal, AwkNumber.dropWhile_decimal, AwkNumber.fraction, hdigits]

/-- `sort -nu`: of the lines with the same number the first one is kept, whatever else
they say. -/
def sortNumericUnique (lines : List (List Char)) : List (List Char) :=
  firstOfRuns sortNumber (sortBy sortNumber lines)

/-- **A line is kept** when it is the first of its number. -/
theorem mem_sortNumericUnique {line : List Char} {lines : List (List Char)} :
    line ∈ sortNumericUnique lines ↔
      lines.find? (fun l => decide (sortNumber l = sortNumber line)) = some line := by
  rw [sortNumericUnique, mem_firstOfRuns (pairwise_sortBy sortNumber lines), find?_sortBy]

theorem nodup_sortNumericUnique (lines : List (List Char)) : (sortNumericUnique lines).Nodup :=
  nodup_firstOfRuns (pairwise_sortBy sortNumber lines)

/-- `sort -u`, in the order of the codes of the characters. -/
def sortUnique (lines : List (List Char)) : List (List Char) :=
  (lines.insertionSort (· ≤ ·)).dedup

theorem mem_sortUnique {line : List Char} {lines : List (List Char)} :
    line ∈ sortUnique lines ↔ line ∈ lines := by
  rw [sortUnique, List.mem_dedup, List.mem_insertionSort]

theorem nodup_sortUnique (lines : List (List Char)) : (sortUnique lines).Nodup :=
  List.nodup_dedup _

end ShellText
