import LinuxNote.Base.ShellText
import LinuxNote.Base.TextSubst

/-!
# The words of a line

How `words` works on lines that are put together, and where a text without blanks can
occur in a line.  The words of the shell, which also end at newlines, are `shellWords`.

* `words_append_blank`, `words_free` — a blank separates words.
* `fieldBy_one`, `fieldBy_succ`, `fieldBy_last` — a separator between fields.
* `mem_words_of_between`, `between_of_words` — a text between blanks is a word, and an
  inner word stands between blanks.
* `infix_iff_exists_word` — **a text without blanks occurs in a line** when it occurs in
  one of its words; `exists_word_of_infix_map` for a line with letters replaced.
* `flatMap_shellWords_eq_iff` — **texts come through a loop of the shell unchanged** when
  each of them is one word.
-/

namespace ShellText

theorem words_append_blank {c : Char} (hc : isBlank c = true) (a b : List Char) :
    words (a ++ c :: b) = words a ++ words b := by
  unfold words
  rw [List.splitOnP_append_cons _ _ hc, List.filter_append]

/-- A text without blanks is a word. -/
theorem words_free {w : List Char} (hne : w ≠ []) (hw : ∀ c ∈ w, isBlank c = false) :
    words w = [w] := by
  unfold words
  rw [List.splitOnP_eq_singleton hw]
  simpa using hne

/-- A given text without blanks. -/
theorem isBlank_of_all {w : List Char} (h : (w.all fun c => !isBlank c) = true) :
    ∀ c ∈ w, isBlank c = false := by
  simpa using List.all_eq_true.mp h

@[simp] theorem words_nil : words [] = [] := rfl

/-- A word is not empty and has no blanks. -/
theorem mem_words {w line : List Char} (h : w ∈ words line) :
    w ≠ [] ∧ ∀ c ∈ w, isBlank c = false := by
  induction line using TextSubst.sep_induction isBlank with
  | free s hs =>
    by_cases hne : s = []
    · subst hne
      exact absurd h List.not_mem_nil
    · rw [words_free hne hs, List.mem_singleton] at h
      subst h
      exact ⟨hne, hs⟩
  | sep a c b ha hc ih =>
    rw [words_append_blank hc, List.mem_append] at h
    rcases h with h | h
    · by_cases hne : a = []
      · subst hne
        exact absurd h List.not_mem_nil
      · rw [words_free hne ha, List.mem_singleton] at h
        subst h
        exact ⟨hne, ha⟩
    · exact ih h

/-- An occurrence of a text does not reach over an element that the text lacks. -/
theorem infix_append_sep {α : Type*} {p a b : List α} {c : α} (hp : p ≠ []) (hc : c ∉ p) :
    p <:+: a ++ c :: b ↔ p <:+: a ∨ p <:+: b := by
  induction a with
  | nil =>
    have hpre : ¬ p <+: c :: b := by
      rw [← List.nil_append (c :: b), TextSubst.prefix_append_sep hc, List.prefix_nil]
      exact hp
    rw [List.nil_append, List.infix_cons_iff, List.infix_nil]
    simp [hpre, hp]
  | cons x a ih =>
    rw [List.cons_append, List.infix_cons_iff, List.infix_cons_iff, ih, ← List.cons_append,
      TextSubst.prefix_append_sep hc, or_assoc]

/-- **A text without blanks occurs in a line** when it occurs in one of its words. -/
theorem infix_iff_exists_word {p : List Char} (hp : p ≠ []) (hblank : ∀ c ∈ p, isBlank c = false)
    (line : List Char) : p <:+: line ↔ ∃ w ∈ words line, p <:+: w := by
  have hfree : ∀ s : List Char, (∀ c ∈ s, isBlank c = false) →
      (p <:+: s ↔ ∃ w ∈ words s, p <:+: w) := by
    intro s hs
    by_cases hne : s = []
    · subst hne
      simp [hp]
    · rw [words_free hne hs]
      simp
  induction line using TextSubst.sep_induction isBlank with
  | free s hs => exact hfree s hs
  | sep a c b ha hc ih =>
    have hnot : c ∉ p := by
      intro hin
      rw [hblank c hin] at hc
      exact absurd hc (by decide)
    have hrest : p <:+: b ↔ ∃ w ∈ words b, p <:+: w := ih
    rw [infix_append_sep hp hnot, words_append_blank hc, hrest, hfree a ha]
    simp [or_and_right, exists_or]

/-- A text occurs in the word that its letters come from, also when letters are replaced. -/
theorem exists_word_of_infix_map {f : Char → Char}
    (hf : ∀ c, isBlank c = true → isBlank (f c) = true) {p line : List Char} (hp : p ≠ [])
    (hblank : ∀ c ∈ p, isBlank c = false) (h : p <:+: line.map f) :
    ∃ w ∈ words line, p <:+: w.map f := by
  obtain ⟨text, hin, rfl⟩ := List.infix_map_iff.mp h
  have hfree : ∀ c ∈ text, isBlank c = false := by
    intro c hc
    by_contra hcontra
    have hmapped := hf c (eq_true_of_ne_false hcontra)
    rw [hblank (f c) (List.mem_map_of_mem hc)] at hmapped
    exact Bool.false_ne_true hmapped
  have hne : text ≠ [] := by
    rintro rfl
    exact hp rfl
  obtain ⟨w, hw, hword⟩ := (infix_iff_exists_word hne hfree _).mp hin
  exact ⟨w, hw, hword.map f⟩

/-- Where a word stands in a line: it begins the line or follows a blank, and it ends the line or is
followed by one. -/
theorem exists_append_of_words {line w : List Char} {u v : List (List Char)}
    (h : words line = u ++ w :: v) : ∃ a b, line = a ++ w ++ b ∧ words a = u ∧ words b = v ∧
      (∀ c ∈ a.getLast?, isBlank c = true) ∧ ∀ c ∈ b.head?, isBlank c = true := by
  induction line using TextSubst.sep_induction isBlank generalizing u with
  | free s hs =>
    by_cases hne : s = []
    · subst hne
      simp at h
    · rw [words_free hne hs, List.singleton_eq_append_iff] at h
      obtain ⟨rfl, heq⟩ | ⟨-, heq⟩ := h
      · obtain ⟨rfl, rfl⟩ := List.cons.inj heq
        exact ⟨[], [], by simp, rfl, rfl, by simp, by simp⟩
      · simp at heq
  | sep a c b ha hc ih =>
    -- the word is in front of the blank, or somewhere behind it
    have hbehind : ∀ u', words b = u' ++ w :: v → u = words a ++ u' →
        ∃ x y, a ++ c :: b = x ++ w ++ y ∧ words x = u ∧ words y = v ∧
          (∀ c ∈ x.getLast?, isBlank c = true) ∧ ∀ c ∈ y.head?, isBlank c = true := by
      rintro u' hb rfl
      obtain ⟨x, y, rfl, rfl, hy, hlast, hhead⟩ := ih hb
      refine ⟨a ++ c :: x, y, by simp, words_append_blank hc a x, hy, ?_, hhead⟩
      intro d hd
      rw [List.getLast?_append, List.getLast?_cons] at hd
      cases hx : x.getLast? with
      | none =>
        rw [hx] at hd
        obtain rfl : c = d := by simpa using hd
        exact hc
      | some e =>
        rw [hx] at hd
        obtain rfl : e = d := by simpa using hd
        exact hlast e hx
    rw [words_append_blank hc] at h
    by_cases hne : a = []
    · subst hne
      exact hbehind u h rfl
    · rw [words_free hne ha] at h
      cases u with
      | nil =>
        obtain ⟨rfl, rfl⟩ := List.cons.inj h
        exact ⟨[], c :: b, by simp, rfl, by rw [← List.nil_append (c :: b), words_append_blank hc]; rfl,
          by simp, by simpa using hc⟩
      | cons x u =>
        obtain ⟨rfl, hb⟩ := List.cons.inj h
        exact hbehind u hb (by rw [words_free hne ha]; rfl)

/-- A text between blanks is a word. -/
theorem mem_words_of_between {w line : List Char} (hne : w ≠ []) (hw : ∀ c ∈ w, isBlank c = false)
    (h : ' ' :: w ++ [' '] <:+: line) : w ∈ words line := by
  obtain ⟨a, b, rfl⟩ := h
  have hsplit : a ++ (' ' :: w ++ [' ']) ++ b = a ++ ' ' :: (w ++ ' ' :: b) := by simp
  rw [hsplit, words_append_blank rfl, words_append_blank rfl, words_free hne hw]
  simp

/-- An inner word of a line without tabs stands between blanks. -/
theorem between_of_words {w line : List Char} {u v : List (List Char)}
    (h : words line = u ++ w :: v) (hu : u ≠ []) (hv : v ≠ [])
    (hspaces : ∀ c ∈ line, isBlank c = true → c = ' ') : ' ' :: w ++ [' '] <:+: line := by
  obtain ⟨a, b, rfl, rfl, rfl, hlast, hhead⟩ := exists_append_of_words h
  have ha : a ≠ [] := fun heq => hu (by rw [heq]; rfl)
  have hb : b ≠ [] := fun heq => hv (by rw [heq]; rfl)
  obtain ⟨a, c, rfl⟩ := (List.eq_nil_or_concat' a).resolve_left ha
  obtain ⟨d, b, rfl⟩ := List.exists_cons_of_ne_nil hb
  obtain rfl := hspaces c (by simp) (hlast c (by simp))
  obtain rfl := hspaces d (by simp) (hhead d (by simp))
  exact ⟨a, b, by simp⟩

/-- What separates the words of a command's output: `$IFS`.  A newline is one of them, as it is not
for `awk`. -/
def isSeparator (c : Char) : Bool := isBlank c || c == '\n'

/-- The words that `for w in $(…)` runs over, whatever lines they are on. -/
def shellWords (text : List Char) : List (List Char) :=
  (text.splitOnP isSeparator).filter fun w => !w.isEmpty

/-- A text that the shell takes for one word, and that is there when it is expanded without quotes.
-/
def IsOneWord (text : List Char) : Prop := text ≠ [] ∧ ∀ c ∈ text, isSeparator c = false

theorem shellWords_of_isOneWord {w : List Char} (h : IsOneWord w) : shellWords w = [w] := by
  rw [shellWords, List.splitOnP_eq_singleton h.2]
  simpa using h.1

theorem isOneWord_of_mem_shellWords {w text : List Char} (h : w ∈ shellWords text) :
    IsOneWord w := by
  induction text using TextSubst.sep_induction isSeparator with
  | free s hs =>
    by_cases hne : s = []
    · subst hne
      exact absurd h List.not_mem_nil
    · rw [shellWords_of_isOneWord ⟨hne, hs⟩, List.mem_singleton] at h
      subst h
      exact ⟨hne, hs⟩
  | sep a c b ha hc ih =>
    rw [shellWords, List.splitOnP_append_cons _ _ hc, List.filter_append, List.mem_append] at h
    rcases h with h | h
    · by_cases hne : a = []
      · subst hne
        exact absurd h List.not_mem_nil
      · have hword : shellWords a = [a] := shellWords_of_isOneWord ⟨hne, ha⟩
        rw [shellWords] at hword
        rw [hword, List.mem_singleton] at h
        subst h
        exact ⟨hne, ha⟩
    · exact ih h

/-- **Texts come through a loop of the shell unchanged exactly when** each of them is one word. -/
theorem flatMap_shellWords_eq_iff (texts : List (List Char)) :
    texts.flatMap shellWords = texts ↔ ∀ t ∈ texts, IsOneWord t := by
  constructor
  · intro h t ht
    rw [← h] at ht
    obtain ⟨text, -, hin⟩ := List.mem_flatMap.mp ht
    exact isOneWord_of_mem_shellWords hin
  · intro h
    have hsame : texts.flatMap shellWords = texts.flatMap fun t => [t] :=
      List.flatMap_congr fun t ht => shellWords_of_isOneWord (h t ht)
    rw [hsame]
    simp

/-! ### Fields between separators -/

section Fields

variable {sep : Char} {a : List Char}

theorem splitOnP_free (h : sep ∉ a) : a.splitOnP (· == sep) = [a] :=
  List.splitOnP_eq_singleton fun _ hc => beq_eq_false_iff_ne.mpr fun heq => h (heq ▸ hc)

/-- The field in front of a separator. -/
theorem fieldBy_one (h : sep ∉ a) (b : List Char) : fieldBy sep 1 (a ++ sep :: b) = a := by
  rw [fieldBy, List.splitOnP_append_cons a b (p := (· == sep)) (beq_self_eq_true sep), splitOnP_free h]
  rfl

/-- The fields behind it. -/
theorem fieldBy_succ (h : sep ∉ a) (n : ℕ) (b : List Char) :
    fieldBy sep (n + 2) (a ++ sep :: b) = fieldBy sep (n + 1) b := by
  rw [fieldBy, List.splitOnP_append_cons a b (p := (· == sep)) (beq_self_eq_true sep), splitOnP_free h]
  rfl

theorem fieldBy_last (h : sep ∉ a) : fieldBy sep 1 a = a := by
  rw [fieldBy, splitOnP_free h]
  rfl

end Fields

end ShellText
