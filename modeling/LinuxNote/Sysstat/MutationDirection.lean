import LinuxNote.Sysstat.MutationCheck
import Mathlib.Data.Char
import Mathlib.Data.List.Dedup
import Mathlib.Data.List.Infix
import Mathlib.Data.List.Lex
import Mathlib.Data.List.Sort

/-!
# The direction of a change

With the threshold flag `up` or `down`, `Mutation_check.sh` keeps the lines of `main`
that do not, or do, contain a `-`.  The change that ends a line starts with a minus
sign exactly when the counter has fallen, but a `-` may as well come from the rest of
the line.

## Main definitions

* `program` — what the script prints for a threshold flag.
* `DirectionsRight` — the two directions print the rising and the falling records.

## Main results

* `minus_mem_text_iff` — where a `-` in a line comes from.
* `directionsRight_iff` — **the directions are right exactly when** no rising record has
  a `-` in its time, in the name of its object or in one of its values.
-/

namespace LinuxNote.MutationCheck

open AwkNumber

/-- `CHECK_THRESHOLD_FLAG`: the changes upwards are printed, or those downwards, or both.
-/
inductive ThresholdFlag where
  | up | down | all

/-- The value has grown. -/
def Record.Rises (r : Record) : Prop := numValue r.oldValue < numValue r.newValue

/-- The value has shrunk. -/
def Record.Falls (r : Record) : Prop := numValue r.newValue < numValue r.oldValue

instance (r : Record) : Decidable r.Rises := inferInstanceAs (Decidable (_ < _))
instance (r : Record) : Decidable r.Falls := inferInstanceAs (Decidable (_ < _))

section Program

variable (t : Tools) (conf : Settings) (file : List (List Char))

/-- What the script prints: `up` and `down` filter what `main` prints by a `-` anywhere
in the line. -/
def program : ThresholdFlag → List (List Char)
  | .up => ((main t conf file).map Record.text).filter fun line => !t.grep "-".toList line
  | .down => ((main t conf file).map Record.text).filter fun line => t.grep "-".toList line
  | .all => (main t conf file).map Record.text

/-- `up` prints the rising records and `down` the falling ones, each in the order of
`all`, and every record is one or the other. -/
structure DirectionsRight : Prop where
  up : program t conf file .up =
    ((main t conf file).filter fun r => decide r.Rises).map Record.text
  down : program t conf file .down =
    ((main t conf file).filter fun r => decide r.Falls).map Record.text
  all : program t conf file .all = (main t conf file).map Record.text ∧
    ∀ r ∈ main t conf file, Xor r.Rises r.Falls

end Program

/-! ### Minus signs in a line -/

/-- The texts of a record that do not come from the script. -/
def Record.NoMinus (r : Record) : Prop :=
  '-' ∉ r.time ∧ '-' ∉ r.number ∧ '-' ∉ r.oldValue ∧ '-' ∉ r.newValue

theorem minus_mem_padRight_iff (n : ℕ) (s : List Char) : '-' ∈ padRight n s ↔ '-' ∈ s := by
  simp [padRight]

theorem minus_mem_padLeft_iff (n : ℕ) (s : List Char) : '-' ∈ padLeft n s ↔ '-' ∈ s := by
  simp [padLeft]

/-- The names that the script gives have no `-`. -/
theorem minus_notMem_allChecks : ∀ c ∈ allChecks, '-' ∉ c.obj ∧ '-' ∉ c.mode := by
  decide

variable {t : Tools} {conf : Settings} {file : List (List Char)}

/-- Where a `-` in a line of `main` comes from. -/
theorem minus_mem_text_iff {r : Record} (h : r ∈ main t conf file) :
    '-' ∈ r.text ↔ ¬ r.NoMinus ∨ '-' ∈ numText r.change := by
  obtain ⟨c, hc, w, number, hr⟩ := fromCheck_of_mem_main h
  obtain ⟨hobj, hmode, -⟩ := mem_checkCmdSet hr
  obtain ⟨hcobj, hcmode⟩ := minus_notMem_allChecks c hc
  rw [← hobj] at hcobj
  rw [← hmode] at hcmode
  have hscript : ∀ s ∈ [" ".toList, "=".toList, " : old_value=".toList, " new_value=".toList,
      " >>> ".toList], '-' ∉ s := by decide
  -- what is left is the time, the name, the values and the change
  simp only [List.forall_mem_cons] at hscript
  unfold Record.text Record.NoMinus
  simp only [List.mem_append, minus_mem_padRight_iff, minus_mem_padLeft_iff, hcobj, hcmode,
    hscript, or_false]
  tauto

/-- A record rises or falls, and not both; the change of a falling one has a minus sign
and that of a rising one has none. -/
theorem direction_of_mem_main {r : Record} (h : r ∈ main t conf file) :
    r.Rises ∧ ¬ r.Falls ∧ '-' ∉ numText r.change ∨
      ¬ r.Rises ∧ r.Falls ∧ '-' ∈ numText r.change := by
  obtain ⟨c, -, w, number, hr⟩ := fromCheck_of_mem_main h
  obtain ⟨-, -, hup | hdown⟩ := mem_checkCmdSet hr
  · left
    have hrise : r.Rises := by
      unfold Record.Rises
      unfold Record.change at hup
      linarith
    exact ⟨hrise, lt_asymm hrise, minus_notMem_numText hup.le⟩
  · right
    have hfall : r.Falls := by
      unfold Record.Falls
      unfold Record.change at hdown
      linarith
    exact ⟨lt_asymm hfall, hfall, minus_mem_numText (by linarith)⟩

/-- The pattern of the filters is taken literally. -/
theorem grep_minus_iff (t : Tools) (line : List Char) :
    t.grep "-".toList line = true ↔ '-' ∈ line := by
  rw [t.grep_text (by decide), ShellText.occursIn_iff]
  exact List.singleton_infix_iff '-' line

/-! ### The filters -/

/-- **The directions are right exactly when** no rising record has a `-` in its time, in
the name of its object or in one of its values: `grep` takes any `-` of the line for the
sign of the change. -/
theorem directionsRight_iff (t : Tools) (conf : Settings) (file : List (List Char)) :
    DirectionsRight t conf file ↔ ∀ r ∈ main t conf file, r.Rises → r.NoMinus := by
  constructor
  · intro h r hr hrise
    have hup := (ShellText.filter_map_eq_iff _ _ _ _).mp h.up r hr
    by_contra hminus
    have hgrep : t.grep "-".toList r.text = true :=
      (grep_minus_iff t _).mpr ((minus_mem_text_iff hr).mpr (Or.inl hminus))
    rw [hgrep, decide_eq_true hrise] at hup
    exact absurd hup (by decide)
  · intro h
    have hgrep : ∀ r ∈ main t conf file, t.grep "-".toList r.text = decide r.Falls := by
      intro r hr
      rw [Bool.eq_iff_iff, grep_minus_iff, minus_mem_text_iff hr, decide_eq_true_iff]
      rcases direction_of_mem_main hr with ⟨hrise, hfall, hchange⟩ | ⟨-, hfall, hchange⟩
      · simp [h r hr hrise, hfall, hchange]
      · simp [hfall, hchange]
    -- a record is printed for a change only, which is in one direction
    have hxor : ∀ r ∈ main t conf file, Xor r.Rises r.Falls := by
      intro r hr
      rcases direction_of_mem_main hr with ⟨hrise, hfall, -⟩ | ⟨hrise, hfall, -⟩
      · exact Or.inl ⟨hrise, hfall⟩
      · exact Or.inr ⟨hfall, hrise⟩
    refine ⟨?_, ?_, rfl, hxor⟩
    · apply (ShellText.filter_map_eq_iff _ _ _ _).mpr
      intro r hr
      rw [hgrep r hr]
      rcases hxor r hr with ⟨hrise, hfall⟩ | ⟨hfall, hrise⟩
      · simp [hrise, hfall]
      · simp [hrise, hfall]
    · exact (ShellText.filter_map_eq_iff _ _ _ _).mpr hgrep

/-- Tools that take every pattern literally and sort by the codes of the characters. -/
def plainTools : Tools where
  grep p l := decide (p <:+: l)
  sortUnique ls := (ls.insertionSort (· ≤ ·)).dedup
  grep_plain _ _ _ := decide_eq_true_iff

/-- A report on one disk, on which the transfers of the last sample jump. -/
def diskReport : List (List Char) :=
  ["Linux 3.10.0 (host)  11/08/2017  _x86_64_  (4 CPU)", "",
    "12:00:01          DEV       tps  rd_sec/s  wr_sec/s",
    "12:00:02       dev8-0      1.00      0.00      0.00",
    "12:00:03       dev8-0      1.00      0.00      0.00",
    "12:00:04       dev8-0      1.00      0.00      0.00",
    "12:00:05       dev8-0      1.00      0.00      0.00",
    "12:00:06       dev8-0      1.00      0.00      0.00",
    "12:00:07       dev8-0      1.00      0.00      0.00",
    "12:00:08       dev8-0      7.00      0.00      0.00", "",
    "Average:       dev8-0      1.86      0.00      0.00"].map String.toList

/-- The rising record of the disk is missing with the flag `up`, because of the name of
the disk. -/
theorem not_directionsRight_disk :
    ¬ DirectionsRight plainTools { Settings.shipped with checkMode := .dev } diskReport := by
  intro h
  have hup := h.up
  revert hup
  decide +kernel

end LinuxNote.MutationCheck
