import Mathlib.Data.List.Basic
import Mathlib.Data.Int.Notation
import Mathlib.Data.List.Infix

/-!
# Text as shell tools see it

`sed`, `grep` and `awk` read a file as a list of lines without their newlines, and
`awk` reads a line as a list of words.

* `words`, `field` — the words of a line, and `$n`; `fieldBy` — the same with `awk -F`.
* `sedRange` — `sed -n "b,ep"`.
* `firstLine` — the number of the first line that a test accepts, as `grep -n` gives it.
* `occursIn` — `grep` with a pattern that it takes literally; `isPlainPattern` — such a
  pattern.
* `filter_map_eq_iff` — **when a filter on printed lines** selects the right items.
-/

namespace ShellText

/-! ### Words -/

/-- What separates the words of a line, for `awk` with its own separator. -/
def isBlank (c : Char) : Bool := c == ' ' || c == '\t'

/-- A digit separates no words. -/
theorem isBlank_eq_false_of_isDigit {c : Char} (h : c.isDigit = true) : isBlank c = false := by
  by_contra hblank
  rw [Bool.not_eq_false, isBlank, Bool.or_eq_true, beq_iff_eq, beq_iff_eq] at hblank
  rcases hblank with rfl | rfl
  · exact absurd h (by decide)
  · exact absurd h (by decide)

/-- The words of a text.  Separators at the ends or one behind another make no empty
word. -/
def words (text : List Char) : List (List Char) :=
  (text.splitOnP isBlank).filter fun w => !w.isEmpty

/-- `$n` for `n ≥ 1`: empty behind the last word. -/
def field (n : ℕ) (line : List Char) : List Char := (words line).getD (n - 1) []

/-- `$n` for `n ≥ 1` with `awk -F` and a single character. -/
def fieldBy (sep : Char) (n : ℕ) (line : List Char) : List Char :=
  (line.splitOnP (· == sep)).getD (n - 1) []

/-- Whether a line has a text somewhere: `grep` with a pattern without special
characters. -/
def occursIn (word line : List Char) : Bool := decide (word <:+: line)

/-- The characters that stand for themselves in a pattern, as `grep` without `-E` and
`-F` reads it. -/
def isLiteral (c : Char) : Bool := !(['.', '[', ']', '*', '^', '$', '\\', '\n'].contains c)

/-- A pattern that `grep` takes literally.  One that starts with a `-` is taken for options
instead, unless there is nothing behind the `-`. -/
def isPlainPattern (p : List Char) : Bool :=
  p.all isLiteral && (p.head? != some '-' || p == ['-'])

theorem occursIn_iff {word line : List Char} : occursIn word line = true ↔ word <:+: line :=
  decide_eq_true_iff

/-! ### Lines -/

section Ranges

variable {α : Type*}

/-- `sed -n "b,ep"` for `b ≥ 1`.  A range that ends before it begins is its first line,
and a negative end is a syntax error, with which nothing is printed. -/
def sedRange (b : ℕ) (e : ℤ) (ls : List α) : List α :=
  if e < 0 then [] else (ls.drop (b - 1)).take (max 1 (e.toNat + 1 - b))

/-- The number, counted from 1, of the first line that the test accepts. -/
def firstLine (test : α → Bool) (ls : List α) : Option ℕ := (ls.findIdx? test).map (· + 1)

/-- Two filters agree when one lets through what the other does, and no more. -/
theorem filter_agree {p q : α → Bool} {ls : List α} (h : ∀ l ∈ ls, q l = true → p l = true)
    (hlength : (ls.filter p).length = (ls.filter q).length) : ∀ l ∈ ls, p l = q l := by
  have hsub : ls.filter q = (ls.filter p).filter q := by
    rw [List.filter_filter]
    apply List.filter_congr
    intro l hl
    cases hq : q l with
    | false => rfl
    | true => rw [h l hl hq, Bool.and_true]
  have hsame : (ls.filter p).filter q = ls.filter p := by
    apply List.filter_sublist.eq_of_length
    rw [← hsub, hlength]
  intro l hl
  rw [Bool.eq_iff_iff]
  refine ⟨fun hp => ?_, h l hl⟩
  have hin : l ∈ (ls.filter p).filter q := by
    rw [hsame]
    exact List.mem_filter.mpr ⟨hl, hp⟩
  exact (List.mem_filter.mp hin).2

/-- **A filter on printed lines** selects the items of a kind exactly when it agrees with
the kind on every item: different items may be printed alike, but then the filter does
not tell them apart either. -/
theorem filter_map_eq_iff {β : Type*} (test : β → Bool) (kind : α → Bool) (print : α → β)
    (ls : List α) :
    (ls.map print).filter test = (ls.filter kind).map print ↔
      ∀ l ∈ ls, test (print l) = kind l := by
  rw [List.filter_map]
  constructor
  · intro h
    have hkind : ∀ l ∈ ls, kind l = true → test (print l) = true := by
      intro l hl hk
      have hmem : print l ∈ (ls.filter (test ∘ print)).map print := by
        rw [h]
        exact List.mem_map_of_mem (List.mem_filter.mpr ⟨hl, hk⟩)
      obtain ⟨l', hl', heq⟩ := List.mem_map.mp hmem
      rw [← heq]
      exact (List.mem_filter.mp hl').2
    have hlength := congrArg List.length h
    rw [List.length_map, List.length_map] at hlength
    exact filter_agree hkind hlength
  · intro h
    exact congrArg (List.map print) (List.filter_congr h)

end Ranges

end ShellText
