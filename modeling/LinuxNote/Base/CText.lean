import Mathlib.Algebra.Group.Int.Defs
import Mathlib.Algebra.Group.Nat.Defs
import Mathlib.Data.Int.Order.Basic
import Mathlib.Data.List.Basic

/-!
# C strings and lines of text

The part of the C library that reads and compares text.  A string is the list of
its characters before the terminating NUL, so no string holds a NUL; a file is
the list of all its characters.

* `startsWith`, `strncmpEq` — the prefix tests a program writes with `strncmp`.
* `takeWhile_ne_append` — the text before a character.
* `decimal`, `atol`, `atoi` — decimal numbers, and `atoi_decimal`: reading back
  what was printed.
* `snprintf` — the first `size - 1` characters of what is printed.
* `sscanfWord` — scanning a word behind a literal text.
* `lines`, `chomp`, `fgets`, `fgetsAll` — the lines of a file, reading them through
  a buffer of a given size, and `fgetsAll_eq_pieces`: what the successive calls
  deliver when the lines fit.
-/

namespace CText

/-! ### Comparing -/

/-- `!strncmp(s, p, strlen(p))`: the test for a prefix, as C programs write it. -/
def startsWith (s p : List Char) : Bool := p.isPrefixOf s

theorem startsWith_iff {s p : List Char} : startsWith s p = true ↔ p <+: s := by
  simp [startsWith]

/-- `!strncmp(s, t, n)`: the strings are the same up to the `n`-th character, or up to
their end when that comes first. -/
def strncmpEq (s t : List Char) (n : ℕ) : Bool := s.take n == t.take n

/-- Comparing the whole of `t` is a prefix test. -/
theorem strncmpEq_length (s t : List Char) : strncmpEq s t t.length = startsWith s t := by
  rw [Bool.eq_iff_iff, startsWith_iff, strncmpEq, beq_iff_eq, List.take_length,
    List.prefix_iff_eq_take]
  exact eq_comm

/-! ### Cutting at a character -/

/-- A text without the character is not cut. -/
theorem takeWhile_ne {c : Char} {s : List Char} (h : c ∉ s) (rest : List Char) :
    (s ++ rest).takeWhile (fun d => d != c) = s ++ rest.takeWhile fun d => d != c := by
  refine List.takeWhile_append_of_pos fun d hd => ?_
  rw [bne_iff_ne]
  rintro rfl
  exact h hd

/-- What stands before the first occurrence of a character. -/
theorem takeWhile_ne_append {c : Char} {s : List Char} (h : c ∉ s) (rest : List Char) :
    (s ++ c :: rest).takeWhile (fun d => d != c) = s := by
  rw [takeWhile_ne h, List.takeWhile_cons_of_neg (by simp), List.append_nil]

/-! ### Numbers -/

/-- What `"%d"` prints for a number that is not negative. -/
def decimal (n : ℕ) : List Char := Nat.toDigits 10 n

theorem decimal_ne_nil (n : ℕ) : decimal n ≠ [] := Nat.toDigits_ne_nil

/-- Different numbers are printed differently. -/
theorem decimal_injective {i j : ℕ} (h : decimal i = decimal j) : i = j := by
  have hval := congrArg (fun l => Nat.ofDigitChars 10 l 0) h
  simpa [decimal] using hval

theorem isDigit_of_mem_decimal {n : ℕ} {c : Char} (h : c ∈ decimal n) : c.isDigit = true :=
  Nat.isDigit_of_mem_toDigits (by decide) (by decide) h

theorem newline_notMem_decimal (n : ℕ) : '\n' ∉ decimal n := by
  intro h
  exact absurd (isDigit_of_mem_decimal h) (by decide)

theorem length_decimal_le {n k : ℕ} (hk : 0 < k) (h : n < 10 ^ k) : (decimal n).length ≤ k :=
  (Nat.length_toDigits_le_iff (by decide) hk).mpr h

theorem decimal_of_lt_ten {n : ℕ} (h : n < 10) : decimal n = [n.digitChar] :=
  Nat.toDigits_of_lt_base h

/-- Print the higher digits, then the last one. -/
theorem decimal_of_ten_le {n : ℕ} (h : 10 ≤ n) :
    decimal n = decimal (n / 10) ++ [(n % 10).digitChar] :=
  Nat.toDigits_of_base_le (by decide) h

/-- `isspace` in the C locale, as `sscanf`, `atoi` and `strtol` skip it. -/
def isSpace (c : Char) : Bool :=
  c == ' ' || c == '\t' || c == '\n' || c == '\x0b' || c == '\x0c' || c == '\r'

/-- The number a string of digits starts with, and 0 when it does not start with a digit.
-/
def leadingNat (s : List Char) : ℕ := Nat.ofDigitChars 10 (s.takeWhile Char.isDigit) 0

/-- `atol`: skip white space, an optional sign, then digits, saturating at the
ends of a 64-bit `long`. -/
def atol (s : List Char) : ℤ :=
  match s.dropWhile isSpace with
  | '-' :: t => max (-2 ^ 63) (-(leadingNat t : ℤ))
  | '+' :: t => min (2 ^ 63 - 1) (leadingNat t : ℤ)
  | t => min (2 ^ 63 - 1) (leadingNat t : ℤ)

/-- `atoi`: `atol` cut to a 32-bit `int`. -/
def atoi (s : List Char) : ℤ := (atol s).bmod (2 ^ 32)

theorem isSpace_eq_false_of_isDigit {c : Char} (h : c.isDigit = true) : isSpace c = false := by
  by_contra hc
  have hsp : isSpace c = true := by simpa using hc
  simp only [isSpace, Bool.or_eq_true, beq_iff_eq] at hsp
  rcases hsp with ((((rfl | rfl) | rfl) | rfl) | rfl) | rfl <;> revert h <;> decide

theorem leadingNat_decimal (n : ℕ) {s : List Char} (hs : ∀ c t, s = c :: t → c.isDigit = false) :
    leadingNat (decimal n ++ s) = n := by
  have htake : (decimal n ++ s).takeWhile Char.isDigit = decimal n := by
    rw [List.takeWhile_append_of_pos fun c hc => isDigit_of_mem_decimal hc]
    cases s with
    | nil => simp
    | cons c t => simp [hs c t rfl]
  rw [leadingNat, htake]
  exact Nat.ofDigitChars_ten_toDigits

/-- **Reading back a printed number.** -/
theorem atol_decimal {n : ℕ} (hn : n < 2 ^ 63) {s : List Char}
    (hs : ∀ c t, s = c :: t → c.isDigit = false) : atol (decimal n ++ s) = n := by
  have hlead := leadingNat_decimal n hs
  obtain ⟨c, t, hct⟩ := List.exists_cons_of_ne_nil (decimal_ne_nil n)
  have hc : c.isDigit = true := isDigit_of_mem_decimal (by rw [hct]; exact List.mem_cons_self)
  have hdrop : (decimal n ++ s).dropWhile isSpace = decimal n ++ s := by
    simp [hct, isSpace_eq_false_of_isDigit hc]
  have hval : min (2 ^ 63 - 1) (leadingNat (decimal n ++ s) : ℤ) = n := by
    rw [hlead]; omega
  rw [atol, hdrop]
  split
  · next u heq =>
    rw [hct, List.cons_append, List.cons.injEq] at heq
    rw [heq.1] at hc
    exact absurd hc (by decide)
  · next u heq =>
    rw [hct, List.cons_append, List.cons.injEq] at heq
    rw [heq.1] at hc
    exact absurd hc (by decide)
  · exact hval

theorem atoi_decimal {n : ℕ} (hn : n < 2 ^ 31) {s : List Char}
    (hs : ∀ c t, s = c :: t → c.isDigit = false) : atoi (decimal n ++ s) = n := by
  rw [atoi, atol_decimal (by omega) hs, Int.bmod_def]
  omega

/-! ### Printing into a buffer -/

/-- The string `snprintf(buf, size, …)` leaves in `buf` when the format prints
`s`: at most `size - 1` characters and the terminating NUL. -/
def snprintf (size : ℕ) (s : List Char) : List Char := s.take (size - 1)

/-- glibc's `BUFSIZ`, with which the sizes of the buffers for lines are given. -/
def BUFSIZ : ℕ := 8192

/-! ### Scanning -/

/-- How `sscanf` with a format of one conversion ends. -/
inductive Scan
  | eof
  | mismatch
  | word (w : List Char)
  deriving DecidableEq

/-- The next word of a string, after any white space. -/
def nextWord (s : List Char) : List Char := (s.dropWhile isSpace).takeWhile fun c => !isSpace c

/-- `sscanf(s, "lit%s", w)`, where `lit` has no white space.  A string that ends
before anything is converted gives `EOF`. -/
def sscanfWord : List Char → List Char → Scan
  | [], s => if nextWord s = [] then .eof else .word (nextWord s)
  | _ :: _, [] => .eof
  | p :: lit, c :: s => if p = c then sscanfWord lit s else .mismatch

theorem sscanfWord_append (lit s : List Char) :
    sscanfWord lit (lit ++ s) = if nextWord s = [] then .eof else .word (nextWord s) := by
  induction lit with
  | nil => rfl
  | cons p lit ih => rw [List.cons_append, sscanfWord, if_pos rfl, ih]

/-- Without the literal text there is no word: the string ends in the middle of
it, or differs from it. -/
theorem sscanfWord_of_not_startsWith {lit s : List Char} (h : ¬ lit <+: s) :
    sscanfWord lit s = if s <+: lit then .eof else .mismatch := by
  induction lit generalizing s with
  | nil => exact absurd List.nil_prefix h
  | cons p lit ih =>
    cases s with
    | nil => rw [if_pos List.nil_prefix, sscanfWord]
    | cons c s =>
      rw [sscanfWord]
      by_cases hpc : p = c
      · subst hpc
        rw [if_pos rfl, ih fun hp => h (List.cons_prefix_cons.mpr ⟨rfl, hp⟩)]
        simp only [List.cons_prefix_cons, true_and]
      · rw [if_neg hpc, if_neg]
        intro hp
        exact hpc (List.cons_prefix_cons.mp hp).1.symm

/-- White space at the end does not change the next word. -/
theorem nextWord_append_space {c : Char} (hc : isSpace c = true) (s : List Char) :
    nextWord (s ++ [c]) = nextWord s := by
  unfold nextWord
  induction s with
  | nil => simp [hc]
  | cons d s ih =>
    rw [List.cons_append, List.dropWhile_cons, List.dropWhile_cons]
    split
    · exact ih
    · rw [← List.cons_append, List.takeWhile_append]
      have hnil : [c].takeWhile (fun c => !isSpace c) = [] := by simp [hc]
      split
      · next hlen =>
        rw [hnil, List.append_nil]
        exact (List.IsPrefix.eq_of_length (List.takeWhile_prefix _) hlen).symm
      · rfl

/-! ### Lines -/

/-- The lines of a file, each with its newline; only the last may lack one. -/
def lines : List Char → List (List Char)
  | [] => []
  | c :: s =>
    if c = '\n' then [c] :: lines s
    else match lines s with
      | [] => [[c]]
      | l :: ls => (c :: l) :: ls

theorem flatten_lines (s : List Char) : (lines s).flatten = s := by
  induction s with
  | nil => rfl
  | cons c s ih =>
    rw [lines]
    split
    · simp [ih]
    · cases hl : lines s with
      | nil => rw [hl] at ih; simp [← ih]
      | cons l ls => rw [hl] at ih; simp [← ih]

/-- A line that ends in its newline is cut off whole. -/
theorem lines_append_newline {l : List Char} (hl : '\n' ∉ l) (s : List Char) :
    lines (l ++ '\n' :: s) = (l ++ ['\n']) :: lines s := by
  induction l with
  | nil => simp [lines]
  | cons c l ih =>
    rw [List.mem_cons, not_or] at hl
    rw [List.cons_append, lines, if_neg (Ne.symm hl.1), ih hl.2]
    rfl

/-- A line without its newline. -/
def chomp (l : List Char) : List Char := l.takeWhile fun c => c != '\n'

/-- A line is some text without a newline, with a newline behind it or, at the end
of the file, with nothing. -/
theorem mem_lines {s l : List Char} (h : l ∈ lines s) :
    '\n' ∉ chomp l ∧ (l = chomp l ++ ['\n'] ∨ l = chomp l ∧ l ≠ []) := by
  induction s generalizing l with
  | nil => simp [lines] at h
  | cons c s ih =>
    rw [lines] at h
    split at h
    · next hc =>
      rcases List.mem_cons.mp h with rfl | h
      · simp [chomp, hc]
      · exact ih h
    · next hc =>
      have hchomp : ∀ t, chomp (c :: t) = c :: chomp t := fun t => by
        rw [chomp, List.takeWhile_cons, if_pos (by simpa using hc)]
        rfl
      -- the character is put in front of the first line of the rest, or is a line alone
      cases hl : lines s with
      | nil =>
        rw [hl, List.mem_singleton] at h
        subst h
        rw [hchomp]
        exact ⟨by simp [chomp, Ne.symm hc], Or.inr ⟨rfl, by simp⟩⟩
      | cons l' ls =>
        rw [hl] at h
        rcases List.mem_cons.mp h with rfl | h
        · obtain ⟨hnot, hshape⟩ := ih (l := l') (by rw [hl]; exact List.mem_cons_self)
          rw [hchomp]
          refine ⟨by simp [hnot, Ne.symm hc], ?_⟩
          rcases hshape with heq | ⟨heq, -⟩
          · exact Or.inl (by rw [List.cons_append, ← heq])
          · exact Or.inr ⟨by rw [← heq], by simp⟩
        · exact ih (by rw [hl]; exact List.mem_cons_of_mem _ h)

/-- Fill a buffer with room for `n` characters, up to and including a newline. -/
def fill : ℕ → List Char → List Char × List Char
  | 0, s => ([], s)
  | _ + 1, [] => ([], [])
  | n + 1, c :: s => if c = '\n' then ([c], s) else (c :: (fill n s).1, (fill n s).2)

/-- `fgets(buf, size, fp)`: the string read and what is left of the file, or
`none` for the NULL of an exhausted file. -/
def fgets (size : ℕ) (s : List Char) : Option (List Char × List Char) :=
  if s = [] then none else some (fill (size - 1) s)

/-- The strings `while (fgets(buf, size, fp) != NULL)` sees, for at most `fuel`
calls. -/
def fgetsLoop (size : ℕ) : ℕ → List Char → List (List Char)
  | 0, _ => []
  | fuel + 1, s =>
    match fgets size s with
    | none => []
    | some (buf, rest) => buf :: fgetsLoop size fuel rest

/-- The strings the whole loop sees: a call takes at least one character, so
there are no more calls than characters. -/
def fgetsAll (size : ℕ) (s : List Char) : List (List Char) := fgetsLoop size s.length s

theorem fill_append (n : ℕ) (s : List Char) : (fill n s).1 ++ (fill n s).2 = s := by
  induction n generalizing s with
  | zero => rfl
  | succ n ih =>
    cases s with
    | nil => rfl
    | cons c s =>
      rw [fill]
      split
      · rfl
      · simpa using ih s

theorem length_fill_snd {n : ℕ} (hn : 0 < n) {s : List Char} (hs : s ≠ []) :
    (fill n s).2.length < s.length := by
  cases n with
  | zero => omega
  | succ n =>
    cases s with
    | nil => exact absurd rfl hs
    | cons c s =>
      have hlen := congrArg List.length (fill_append n s)
      rw [List.length_append] at hlen
      rw [fill]
      split
      · simp
      · simp only [List.length_cons]; omega

/-- Enough fuel is enough. -/
theorem fgetsLoop_of_length_le {size : ℕ} (hsize : 2 ≤ size) {fuel : ℕ} {s : List Char}
    (h : s.length ≤ fuel) : fgetsLoop size fuel s = fgetsAll size s := by
  have key : ∀ m, ∀ s : List Char, s.length ≤ m → ∀ fuel, s.length ≤ fuel →
      fgetsLoop size fuel s = fgetsLoop size m s := by
    intro m
    induction m with
    | zero =>
      intro s hs fuel _
      have hnil : s = [] := List.length_eq_zero_iff.mp (by omega)
      subst hnil
      cases fuel <;> rfl
    | succ m ih =>
      intro s hs fuel hf
      cases fuel with
      | zero =>
        have hnil : s = [] := List.length_eq_zero_iff.mp (by omega)
        subst hnil
        rfl
      | succ fuel =>
        by_cases hnil : s = []
        · subst hnil; rfl
        · have hlt := length_fill_snd (n := size - 1) (by omega) hnil
          simp only [fgetsLoop, fgets, if_neg hnil]
          rw [ih _ (by omega) fuel (by omega)]
  exact key s.length s (Nat.le_refl _) fuel h

/-- One call of `fgets`, then the others. -/
theorem fgetsAll_of_ne_nil {size : ℕ} (hsize : 2 ≤ size) {s : List Char} (hs : s ≠ []) :
    fgetsAll size s = (fill (size - 1) s).1 :: fgetsAll size (fill (size - 1) s).2 := by
  have hlt := length_fill_snd (n := size - 1) (by omega) hs
  obtain ⟨c, t, rfl⟩ := List.exists_cons_of_ne_nil hs
  rw [fgetsAll, List.length_cons, fgetsLoop, fgets, if_neg hs]
  change (fill (size - 1) (c :: t)).1 :: fgetsLoop size t.length (fill (size - 1) (c :: t)).2 = _
  rw [fgetsLoop_of_length_le hsize (by simpa using Nat.le_of_lt_succ hlt)]

/-- A call whose buffer is larger than the next line reads exactly that line. -/
theorem fill_of_lines {n : ℕ} {s l : List Char} {ls : List (List Char)}
    (h : lines s = l :: ls) (hl : l.length ≤ n) : (fill n s).1 = l ∧ lines (fill n s).2 = ls := by
  induction s generalizing n l ls with
  | nil => simp [lines] at h
  | cons c s ih =>
    rw [lines] at h
    split at h
    · next hc =>
      obtain ⟨rfl, rfl⟩ := List.cons.inj h
      obtain ⟨m, rfl⟩ : ∃ m, n = m + 1 := ⟨n - 1, by simp at hl; omega⟩
      simp [fill, hc]
    · next hc =>
      cases hs : lines s with
      | nil =>
        rw [hs] at h
        obtain ⟨rfl, rfl⟩ := List.cons.inj h
        obtain ⟨m, rfl⟩ : ∃ m, n = m + 1 := ⟨n - 1, by simp at hl; omega⟩
        have hnil : s = [] := by rw [← flatten_lines s, hs]; rfl
        subst hnil
        cases m <;> simp [fill, hc, lines]
      | cons l' ls' =>
        rw [hs] at h
        obtain ⟨rfl, rfl⟩ := List.cons.inj h
        obtain ⟨m, rfl⟩ : ∃ m, n = m + 1 := ⟨n - 1, by simp at hl; omega⟩
        obtain ⟨h1, h2⟩ := ih hs (n := m) (by simpa using hl)
        simp [fill, hc, h1, h2]

/-- A call whose buffer is too small reads the first part of the line. -/
theorem fill_of_lines_of_lt {n : ℕ} {s l : List Char} {ls : List (List Char)}
    (h : lines s = l :: ls) (hl : n < l.length) :
    (fill n s).1 = l.take n ∧ lines (fill n s).2 = l.drop n :: ls := by
  induction s generalizing n l ls with
  | nil => simp [lines] at h
  | cons c s ih =>
    cases n with
    | zero => exact ⟨rfl, h⟩
    | succ n =>
      rw [lines] at h
      split at h
      · obtain ⟨rfl, rfl⟩ := List.cons.inj h
        simp at hl
      · next hc =>
        cases hs : lines s with
        | nil =>
          rw [hs] at h
          obtain ⟨rfl, rfl⟩ := List.cons.inj h
          simp at hl
        | cons l' ls' =>
          rw [hs] at h
          obtain ⟨rfl, rfl⟩ := List.cons.inj h
          obtain ⟨h1, h2⟩ := ih hs (n := n) (by simpa using hl)
          simp [fill, hc, h1, h2]

/-- What the successive calls read of a line that fits the buffer with at most its
newline left over. -/
def pieces (size : ℕ) (l : List Char) : List (List Char) :=
  if l.length < size then [l] else [l.take (size - 1), l.drop (size - 1)]

/-- **A loop over `fgets` sees the lines of the file**, a line that just fails to
fit in two pieces. -/
theorem fgetsAll_eq_pieces {size : ℕ} (hsize : 2 ≤ size) {s : List Char}
    (h : ∀ l ∈ lines s, l.length ≤ size) : fgetsAll size s = (lines s).flatMap (pieces size) := by
  generalize hls : lines s = ls at h
  induction ls generalizing s with
  | nil =>
    have hnil : s = [] := by rw [← flatten_lines s, hls]; rfl
    subst hnil
    rfl
  | cons l ls ih =>
    have hs : s ≠ [] := by rintro rfl; simp [lines] at hls
    have hl : l.length ≤ size := h l List.mem_cons_self
    have hrest : ∀ l' ∈ ls, l'.length ≤ size := fun l' hl' => h l' (List.mem_cons_of_mem _ hl')
    rw [List.flatMap_cons, fgetsAll_of_ne_nil hsize hs, pieces]
    rcases Nat.lt_or_ge l.length size with hlt | hge
    · obtain ⟨h1, h2⟩ := fill_of_lines hls (n := size - 1) (by omega)
      rw [if_pos hlt, h1, ih h2 hrest, List.singleton_append]
    · -- the newline alone is left for the second call
      obtain ⟨h1, h2⟩ := fill_of_lines_of_lt hls (n := size - 1) (by omega)
      have hs2 : (fill (size - 1) s).2 ≠ [] := by
        intro hnil
        rw [hnil] at h2
        simp [lines] at h2
      obtain ⟨h3, h4⟩ := fill_of_lines h2 (n := size - 1) (by rw [List.length_drop]; omega)
      rw [if_neg (by omega), h1, fgetsAll_of_ne_nil hsize hs2, h3, ih h4 hrest]
      rfl

/-- **When every line fits, the calls deliver the lines.** -/
theorem fgetsAll_eq_lines {size : ℕ} (hsize : 2 ≤ size) {s : List Char}
    (h : ∀ l ∈ lines s, l.length < size) : fgetsAll size s = lines s := by
  rw [fgetsAll_eq_pieces hsize fun l hl => Nat.le_of_lt (h l hl)]
  calc (lines s).flatMap (pieces size) = (lines s).flatMap fun l => [l] :=
        List.flatMap_congr fun l hl => if_pos (h l hl)
    _ = lines s := by simp

end CText
