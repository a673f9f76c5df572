import LinuxNote.Base.CBuffer

/-!
# Listing a directory

`listdir` of `recusive_dir.c` prints a directory with all that is below it.  All calls share one
buffer for the path: a call writes the name of a subdirectory behind its own path, calls itself
and cuts the path again.

## Main definitions

* `Entries` — a directory with its subdirectories.
* `listEntries`, `listdir` — the listing, with the buffer and what is printed.
* `lines`, `linesOf` — the lines with a path of its own for every entry.
* `complaints`, `complaintsOf` — the same for the messages.

## Main results

* `listdirWith_ok`, `listEntries_ok` — a call that finds its path in the buffer leaves it there.
* `listdir_right` — **nothing is written beyond the buffer**, the path is kept, and the lines are
  those of the recursion with paths of their own.
-/

namespace LinuxNote.RecusiveDir

open CBuffer

/-! ### Directories -/

/-- The entries of a directory in the order of `readdir`: those that are no directory, and
directories, with the text of `strerror` if `opendir` fails.  The entries `.` and `..` are
directories too. -/
inductive Entries
  | nil
  | file (name : CString) (rest : Entries)
  | dir (name : CString) (error : Option (List Char)) (sub rest : Entries)

/-- `!strcmp(name, ".") || !strcmp(name, "..")`: the directory itself and the one above, which
would be listed for ever. -/
def isDots (name : List Char) : Bool := name == ".".toList || name == "..".toList

/-! ### The listing -/

section Listing

/-- The buffer for the path, which all calls share, and what is printed: `stdout` line by line. -/
structure State (size : ℕ) where
  path : Buffer size
  stdout : List (List Char)
  stderr : List (List Char)

variable {size : ℕ}

def State.puts (s : State size) (line : List Char) : State size :=
  { s with stdout := s.stdout ++ [line] }

def State.eputs (s : State size) (line : List Char) : State size :=
  { s with stderr := s.stderr ++ [line] }

def State.setPath (s : State size) (path : Buffer size) : State size := { s with path := path }

/-- `path not found: %s: %s`, with the text of `strerror`.  It goes to `stderr`, and the loop of
the caller goes on. -/
def notFound (path error : List Char) : List Char :=
  "path not found: ".toList ++ path ++ ": ".toList ++ error

/-- `path too long: %s/%s`, for an entry that is then left out with all that is below it. -/
def tooLong (path name : List Char) : List Char :=
  "path too long: ".toList ++ path ++ '/' :: name

/-- A call of `listdir`, with the loop over the entries of the directory, which is given the
length of the path.  The path that `opendir` is called with is printed in either case. -/
def listdirWith (loop : ℕ → State size → Option (State size)) (error : Option (List Char))
    (s : State size) : Option (State size) := do
  let path ← s.path.str
  match error with
  | some error => some (s.eputs (notFound path error))
  | none => loop path.length (s.puts path)

/-- The loop over the entries of a directory.  The name of a directory is written behind the path,
and cut off again after the call for it. -/
def listEntries : Entries → ℕ → State size → Option (State size)
  | .nil, _, s => some s
  | .file name rest, len, s => do
    let path ← s.path.str
    listEntries rest len (s.puts (path ++ '/' :: name.chars))
  | .dir name error sub rest, len, s =>
    if isDots name.chars then listEntries rest len s
    else if size < len + name.chars.length + 2 then do
      let path ← s.path.str
      listEntries rest len (s.eputs (tooLong path name.chars))
    else do
      let path ← s.path.write len '/'
      let path ← path.strcpy (len + 1) name.chars
      let s ← listdirWith (listEntries sub) error (s.setPath path)
      let path ← s.path.write len '\x00'
      listEntries rest len (s.setPath path)

/-- `listdir`, for a directory whose path is in the buffer. -/
def listdir (error : Option (List Char)) (entries : Entries) : State size → Option (State size) :=
  listdirWith (listEntries entries) error

end Listing

/-! ### Paths of their own -/

section Lines

variable (size : ℕ)

/-- A path fits with its terminating NUL.  It is the condition of the source, with the length of
the whole path. -/
def Fits (path : List Char) : Prop := path.length + 1 ≤ size

instance (path : List Char) : Decidable (Fits size path) := inferInstanceAs (Decidable (_ ≤ _))

/-- The lines for the entries of a directory, in which each path is put together afresh: a
recursion that has no buffer to share. -/
def lines : Entries → List Char → List (List Char)
  | .nil, _ => []
  | .file name rest, path => (path ++ '/' :: name.chars) :: lines rest path
  | .dir name error sub rest, path =>
    let fresh := path ++ '/' :: name.chars
    (if isDots name.chars = false ∧ Fits size fresh ∧ error = none then
      fresh :: lines sub fresh else []) ++ lines rest path

/-- The lines for a directory: its own path and those below it, or nothing when it cannot be
opened. -/
def linesOf (error : Option (List Char)) (entries : Entries) (path : List Char) :
    List (List Char) :=
  if error = none then path :: lines size entries path else []

/-- The messages for the entries of a directory: for those that `opendir` fails for, and for those
whose path does not fit into the buffer. -/
def complaints : Entries → List Char → List (List Char)
  | .nil, _ => []
  | .file _ rest, path => complaints rest path
  | .dir name error sub rest, path =>
    let fresh := path ++ '/' :: name.chars
    (if isDots name.chars then []
      else if Fits size fresh then error.elim (complaints sub fresh) fun e => [notFound fresh e]
      else [tooLong path name.chars]) ++ complaints rest path

/-- The messages for a directory: one when it cannot be opened, and else those for what is in it. -/
def complaintsOf (error : Option (List Char)) (entries : Entries) (path : List Char) :
    List (List Char) :=
  error.elim (complaints size entries path) fun e => [notFound path e]

variable {size : ℕ} {name : CString} {path : List Char} (error : Option (List Char))
  (sub rest : Entries)

theorem lines_dir_of_fits (hdots : isDots name.chars = false)
    (hfits : Fits size (path ++ '/' :: name.chars)) :
    lines size (.dir name error sub rest) path =
      linesOf size error sub (path ++ '/' :: name.chars) ++ lines size rest path := by
  rw [lines, linesOf]
  cases error with
  | none => rw [if_pos ⟨hdots, hfits, rfl⟩, if_pos rfl]
  | some error =>
    rw [if_neg fun h => Option.some_ne_none error h.2.2, if_neg (Option.some_ne_none error)]

theorem lines_dir_of_not_fits (hfits : ¬ Fits size (path ++ '/' :: name.chars)) :
    lines size (.dir name error sub rest) path = lines size rest path := by
  rw [lines, if_neg fun h => hfits h.2.1]
  rfl

theorem complaints_dir_of_fits (hdots : isDots name.chars = false)
    (hfits : Fits size (path ++ '/' :: name.chars)) :
    complaints size (.dir name error sub rest) path =
      complaintsOf size error sub (path ++ '/' :: name.chars) ++ complaints size rest path := by
  rw [complaints, hdots, if_neg Bool.false_ne_true, if_pos hfits]
  rfl

theorem complaints_dir_of_not_fits (hdots : isDots name.chars = false)
    (hfits : ¬ Fits size (path ++ '/' :: name.chars)) :
    complaints size (.dir name error sub rest) path =
      tooLong path name.chars :: complaints size rest path := by
  rw [complaints, hdots, if_neg Bool.false_ne_true, if_neg hfits]
  rfl

end Lines

/-! ### The buffer -/

section Buffer

variable {size : ℕ} {path : List Char}

/-- What a call does: its path is in the buffer again, so that the caller can go on with the next
entry, and lines and messages are printed behind those that are there. -/
structure Prints (path : List Char) (out err : List (List Char)) (s s' : State size) : Prop where
  path : s'.path.Holds path
  stdout : s'.stdout = s.stdout ++ out
  stderr : s'.stderr = s.stderr ++ err

/-- Nothing is done. -/
theorem Prints.refl {s : State size} (h : s.path.Holds path) : Prints path [] [] s s :=
  ⟨h, (List.append_nil _).symm, (List.append_nil _).symm⟩

/-- One after the other. -/
theorem Prints.trans {inner : List Char} {out err out' err' : List (List Char)}
    {s s' s'' : State size} (h : Prints inner out err s s') (h' : Prints path out' err' s' s'') :
    Prints path (out ++ out') (err ++ err') s s'' where
  path := h'.path
  stdout := by rw [h'.stdout, h.stdout, List.append_assoc]
  stderr := by rw [h'.stderr, h.stderr, List.append_assoc]

theorem Prints.puts {s : State size} (h : s.path.Holds path) (line : List Char) :
    Prints path [line] [] s (s.puts line) :=
  ⟨h, rfl, (List.append_nil _).symm⟩

theorem Prints.eputs {s : State size} (h : s.path.Holds path) (line : List Char) :
    Prints path [] [line] s (s.eputs line) :=
  ⟨h, (List.append_nil _).symm, rfl⟩

/-- The buffer is written. -/
theorem Prints.setPath (s : State size) {buf : Buffer size} (h : buf.Holds path) :
    Prints path [] [] s (s.setPath buf) :=
  ⟨h, (List.append_nil _).symm, (List.append_nil _).symm⟩

/-- A call of `listdir`, if the loop does the same as for a path of its own. -/
theorem listdirWith_ok {loop : ℕ → State size → Option (State size)} {entries : Entries}
    (hloop : ∀ s : State size, s.path.Holds path → ∃ s', loop path.length s = some s' ∧
      Prints path (lines size entries path) (complaints size entries path) s s')
    (error : Option (List Char)) {s : State size} (h : s.path.Holds path) :
    ∃ s', listdirWith loop error s = some s' ∧
      Prints path (linesOf size error entries path)
        (complaintsOf size error entries path) s s' := by
  rw [listdirWith, h.str_eq]
  cases error with
  | some error => exact ⟨_, rfl, Prints.eputs h _⟩
  | none =>
    obtain ⟨s', hs', hprints⟩ := hloop (s.puts path) h
    exact ⟨s', hs', (Prints.puts h path).trans hprints⟩

/-- The path of a subdirectory that fits is written, the subdirectory listed, and the path cut
again. -/
theorem subdirectory_ok {sub : Entries} {name : CString}
    (hsub : ∀ s : State size, s.path.Holds (path ++ '/' :: name.chars) →
      ∃ s', listEntries sub (path ++ '/' :: name.chars).length s = some s' ∧
        Prints (path ++ '/' :: name.chars) (lines size sub (path ++ '/' :: name.chars))
          (complaints size sub (path ++ '/' :: name.chars)) s s')
    (error : Option (List Char)) (hfits : Fits size (path ++ '/' :: name.chars)) {s : State size}
    (h : s.path.Holds path) :
    ∃ b₁ b₂ s' b₃, s.path.write path.length '/' = some b₁ ∧
      b₁.strcpy (path.length + 1) name.chars = some b₂ ∧
      listdirWith (listEntries sub) error (s.setPath b₂) = some s' ∧
      s'.path.write path.length '\x00' = some b₃ ∧
      Prints path (linesOf size error sub (path ++ '/' :: name.chars))
        (complaintsOf size error sub (path ++ '/' :: name.chars)) s (s'.setPath b₃) := by
  have hroom : path.length + name.chars.length + 2 ≤ size := by
    rw [Fits, List.length_append, List.length_cons] at hfits
    omega
  obtain ⟨b₁, b₂, hwrite, hstrcpy, hfresh⟩ := h.append (c := '/') (by decide) name hroom
  obtain ⟨s', hs', hprints⟩ := listdirWith_ok hsub error (s := s.setPath b₂) hfresh
  obtain ⟨b₃, hcut, hpath⟩ := hprints.path.truncate
  refine ⟨b₁, b₂, s', b₃, hwrite, hstrcpy, hs', hcut, hpath, hprints.stdout, hprints.stderr⟩

/-- The loop over the entries, by induction on the directory. -/
theorem listEntries_ok (entries : Entries) {s : State size} (h : s.path.Holds path) :
    ∃ s', listEntries entries path.length s = some s' ∧
      Prints path (lines size entries path) (complaints size entries path) s s' := by
  induction entries generalizing s path with
  | nil => exact ⟨s, rfl, Prints.refl h⟩
  | file name rest ih =>
    obtain ⟨s', hs', hprints⟩ := ih (s := s.puts (path ++ '/' :: name.chars)) h
    refine ⟨s', ?_, (Prints.puts h _).trans hprints⟩
    rw [listEntries, h.str_eq]
    exact hs'
  -- the path is in the buffer again behind the call for a directory, and so the loop goes on
  | dir name error sub rest ihsub ihrest =>
    cases hdots : isDots name.chars with
    | true =>
      rw [listEntries, lines, complaints, hdots]
      exact ihrest h
    | false =>
      have hlength : (path ++ '/' :: name.chars).length = path.length + (name.chars.length + 1) :=
        List.length_append
      rw [listEntries, hdots, if_neg Bool.false_ne_true]
      by_cases hfits : Fits size (path ++ '/' :: name.chars)
      · rw [lines_dir_of_fits error sub rest hdots hfits,
          complaints_dir_of_fits error sub rest hdots hfits]
        obtain ⟨b₁, b₂, s₁, b₃, hwrite, hstrcpy, hlistdir, hcut, hprints⟩ :=
          subdirectory_ok (fun s hs => ihsub hs) error hfits h
        obtain ⟨s₂, hs₂, hrest⟩ := ihrest hprints.path
        refine ⟨s₂, ?_, hprints.trans hrest⟩
        rw [Fits, hlength] at hfits
        rw [if_neg (by omega)]
        simp only [Option.bind_eq_bind, hwrite, hstrcpy, hlistdir, hcut, Option.bind_some, hs₂]
      · rw [lines_dir_of_not_fits error sub rest hfits,
          complaints_dir_of_not_fits error sub rest hdots hfits]
        obtain ⟨s', hs', hrest⟩ := ihrest (s := s.eputs (tooLong path name.chars)) h
        refine ⟨s', ?_, (Prints.eputs h _).trans hrest⟩
        rw [Fits, hlength] at hfits
        rw [if_pos (by omega), h.str_eq]
        exact hs'

/-- `listdir` finds its path in the buffer and leaves it there. -/
theorem listdir_ok (error : Option (List Char)) (entries : Entries) {s : State size}
    (h : s.path.Holds path) :
    ∃ s', listdir error entries s = some s' ∧
      Prints path (linesOf size error entries path) (complaintsOf size error entries path) s s' :=
  listdirWith_ok (fun _ hs => listEntries_ok entries hs) error h

/-- **Nothing is written beyond the buffer**, the path is kept, and the lines are those of the
recursion with paths of their own: that all calls write to one buffer, and cut it off when they
come back, is not seen. -/
theorem listdir_right (error : Option (List Char)) (entries : Entries) {s : State size}
    (h : s.path.str = some path) :
    ∃ s', listdir error entries s = some s' ∧ s'.path.str = some path ∧
      s'.stdout = s.stdout ++ linesOf size error entries path := by
  obtain ⟨s', hs', hprints⟩ := listdir_ok error entries (Buffer.str_eq_some_iff.mp h)
  exact ⟨s', hs', hprints.path.str_eq, hprints.stdout⟩

/-- `/dev` in a buffer of twelve characters. -/
def dev : State 12 where
  path := ⟨"/dev".toList ++ List.replicate 8 '\x00', rfl⟩
  stdout := []
  stderr := []

/-- The two entries that each directory has for itself and the one above it, which have entries of
their own. -/
def dots (rest : Entries) : Entries :=
  .dir ⟨".".toList, by decide⟩ none (.file ⟨"tty".toList, by decide⟩ .nil)
    (.dir ⟨"..".toList, by decide⟩ none (.file ⟨"init".toList, by decide⟩ .nil) rest)

/-- `bus` with `usb`, whose path is too long, and a terminal. -/
def devEntries : Entries :=
  dots (.dir ⟨"bus".toList, by decide⟩ none
    (dots (.dir ⟨"usb".toList, by decide⟩ none .nil (.file ⟨"pci".toList, by decide⟩ .nil)))
    (.file ⟨"tty".toList, by decide⟩ .nil))

theorem listdir_right_dev :
    ∃ s', listdir none devEntries dev = some s' ∧ s'.path.str = some "/dev".toList ∧
      s'.stdout = ["/dev".toList, "/dev/bus".toList, "/dev/bus/pci".toList, "/dev/tty".toList] :=
  listdir_right none devEntries (s := dev) (by decide)

end Buffer

end LinuxNote.RecusiveDir
