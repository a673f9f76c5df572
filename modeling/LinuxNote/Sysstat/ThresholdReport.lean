import LinuxNote.Sysstat.Report
import LinuxNote.Sysstat.ThresholdCheck

/-!
# Looking for the rows of an object

What `cpu`, `disk` and `network` have in common: the results of the single objects, and
what the first two take from the lines of a report that are not averages.

* `filter_results_iff` — there is one result for an object, and it is the right one.
* `names_kept` — what the list of the objects is taken from.
* `checkRows_report_iff` — **a result is right exactly when** the test picks the right
  rows and no other line of the report.
-/

namespace LinuxNote.ThresholdCheck

open AwkNumber ShellText Sar

/-! ### The results of one object -/

/-- There is exactly one result for an object, and it is the right one. -/
theorem filter_results_iff {ρ : Type*} {devices : List (List Char)} (hnodup : devices.Nodup)
    {f : List Char → ρ} {device : ρ → List Char} (hf : ∀ d, device (f d) = d) (d : List Char)
    (right : ρ) :
    (devices.map f).filter (fun r => device r == d) = [right] ↔ d ∈ devices ∧ f d = right := by
  have hfilter : (devices.map f).filter (fun r => device r == d) =
      (devices.filter (· == d)).map f := by
    rw [List.filter_map]
    congr 1
    apply List.filter_congr
    intro x _
    rw [Function.comp_apply, hf]
  rw [hfilter, List.filter_beq]
  by_cases hd : d ∈ devices
  · rw [List.count_eq_one_of_mem hnodup hd]
    simp [hd]
  · rw [List.count_eq_zero_of_not_mem hd]
    simp [hd]

/-! ### The third words of a report -/

section Names

variable {columns : List (List Char)} {n : ℕ} (r : Report columns n) (keep : List Char → Bool)
  (hblank : keep [] = true) {keepHeader : Bool}
  (hheader : ∀ h : Header columns, keep h.line = keepHeader)
  (hrows : ∀ row ∈ r.rows, keep row.line = true)
  (haverage : ∀ a : AverageLine, keep a.line = false)

include hblank hheader hrows in
theorem names_kept_sample {s : Sample columns n} (hs : s ∈ r.samples) :
    ((s.items.map Item.text).filter keep).map (field 3) =
      [] :: ((if keepHeader then [field 3 s.header.line] else []) ++ s.rows.map Row.name) := by
  have hkept : (s.rows.map Row.line).filter keep = s.rows.map Row.line := by
    rw [List.filter_eq_self]
    intro l hl
    obtain ⟨row, hrow, rfl⟩ := List.mem_map.mp hl
    exact hrows row (List.mem_flatMap.mpr ⟨s, hs, hrow⟩)
  rw [s.map_text_items, List.filter_cons_of_pos hblank, List.filter_cons, hheader, hkept]
  cases keepHeader with
  | true => simp [← map_field_name]
  | false => simp [← map_field_name]

include hblank haverage in
/-- What is left of the averages is the blank line in front of them. -/
theorem names_kept_closing :
    ∃ k, ((r.closing.map Item.text).filter keep).map (field 3) = List.replicate k [] := by
  unfold Report.closing
  split
  · exact ⟨0, rfl⟩
  · refine ⟨1, ?_⟩
    have haverages : ((r.averages.map fun a => (Item.average a : Item columns n)).map
        Item.text).filter keep = [] := by
      rw [List.filter_eq_nil_iff]
      intro l hl
      obtain ⟨i, hi, rfl⟩ := List.mem_map.mp hl
      obtain ⟨a, -, rfl⟩ := List.mem_map.mp hi
      rw [Item.text, haverage]
      decide
    rw [List.map_cons, Item.text, List.filter_cons_of_pos hblank, haverages]
    rfl

include hblank hheader hrows haverage in
/-- **The third words of a report** of which blank lines and rows are kept, but no
averages: the names of the objects, and what stands in their place in the other lines. -/
theorem names_kept :
    ∃ k, (r.lines.filter keep).map (field 3) =
      (if keep r.banner.line then ['(' :: r.banner.host] else []) ++
        (r.samples.flatMap (fun s =>
          [] :: ((if keepHeader then [field 3 s.header.line] else []) ++ s.rows.map Row.name)) ++
        List.replicate k []) := by
  obtain ⟨k, hclosing⟩ := names_kept_closing r keep hblank haverage
  refine ⟨k, ?_⟩
  -- by induction on the samples, for all that are in the report
  have hsamples : ∀ ss : List (Sample columns n), ss ⊆ r.samples →
      (((ss.flatMap Sample.items).map Item.text).filter keep).map (field 3) =
        ss.flatMap fun s =>
          [] :: ((if keepHeader then [field 3 s.header.line] else []) ++ s.rows.map Row.name) := by
    intro ss hss
    induction ss with
    | nil => rfl
    | cons s ss ih =>
      rw [List.flatMap_cons, List.map_append, List.filter_append, List.map_append,
        names_kept_sample r keep hblank hheader hrows (hss List.mem_cons_self), List.flatMap_cons,
        ih fun x hx => hss (List.mem_cons_of_mem s hx)]
  rw [Report.lines, Report.items, List.map_cons, Item.text, List.map_append, List.filter_cons,
    List.filter_append]
  cases keep r.banner.line with
  | true =>
    rw [if_pos rfl, if_pos rfl, List.map_cons, List.map_append, hsamples _ fun _ h => h, hclosing,
      r.banner.field_host]
    rfl
  | false =>
    rw [if_neg (by decide), if_neg (by decide), List.map_append, hsamples _ fun _ h => h,
      hclosing, List.nil_append]

end Names

/-! ### The rows of a report -/

section Rows

variable {columns : List (List Char)} {n : ℕ}

/-- **A result is right exactly when** the test picks the right rows and no other line of
the report: banner, header and blank lines have columns too, as `awk` sees them. -/
theorem checkRows_report_iff {r : Report columns n} {s : Sample columns n}
    {ss : List (Sample columns n)} (h : r.samples = s :: ss) {test : List Char → Bool}
    (hheader : test s.header.line = false) (kind : Row n → Bool) (device logName : List Char) :
    checkRows test 3 (grepV "Average".toList r.lines) device logName =
        Result.ofRows device logName s.header.line ((r.rows.filter kind).map Row.line) ↔
      ∀ i ∈ r.items, (test i.text && !occursIn "Average".toList i.text) = i.hasRow kind := by
  obtain ⟨rest, hlines⟩ := r.lines_cons h
  have hkept : grepV "Average".toList r.lines =
      r.banner.line :: [] :: s.header.line :: grepV "Average".toList rest := by
    rw [hlines]
    simp only [grepV, List.filter_cons, r.banner.plain, s.header.plain, Bool.not_false, if_true]
    rfl
  have hrows : r.banner.line ∉ (r.rows.filter kind).map Row.line ∧
      [] ∉ (r.rows.filter kind).map Row.line := by
    constructor
    · intro hin
      obtain ⟨row, -, heq⟩ := List.mem_map.mp hin
      exact r.banner.line_ne_row row heq.symm
    · intro hin
      obtain ⟨row, -, heq⟩ := List.mem_map.mp hin
      exact row.line_ne_nil heq
  rw [hkept, checkRows_three_iff device logName hheader
    ⟨r.banner.line_ne_header s.header, Ne.symm s.header.line_ne_nil⟩ hrows, ← hkept, grepV,
    List.filter_filter, r.rows_eq, map_line_filter, Report.lines]
  exact filter_map_eq_iff (fun l => test l && !occursIn "Average".toList l) (Item.hasRow kind)
    Item.text r.items

end Rows

end LinuxNote.ThresholdCheck
