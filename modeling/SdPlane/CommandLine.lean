import Mathlib

/-!
# Words of a command line (`command.c`)

Command lines, and the patterns of commands, are taken apart by `strsep` with a space for the
only delimiter, until it answers `NULL`. Two spaces in a row leave an empty word between them,
and a line without a space is one word, the empty line too.

`shell_format3` takes out the superfluous spaces first, for some of those that look at a line
and not for others.
-/

set_option autoImplicit false

namespace SdPlane

/-- A string, up to its terminator. -/
abbrev Str := List Char

/-- `strsep (&stringp, COMMAND_WORD_DELIMITERS)`, time after time. -/
def words (line : Str) : List Str := line.splitOn ' '

/-- The loop of `shell_format3`, where `first` says that `i` is zero. -/
def shellFormat3From : Bool → Nat → Str → Str
  | _, _, [] => []
  | first, count, c :: cs =>
    let count := if c = ' ' then count + 1 else count
    -- omit redundant spaces
    if c = ' ' ∧ count > 1 then shellFormat3From false count cs
    -- omit even first space if it is the beginning of the line
    else if c = ' ' ∧ first then shellFormat3From false count cs
    else c :: shellFormat3From false (if c ≠ ' ' then 0 else count) cs

/-- `shell_format3`. -/
def shellFormat3 (line : Str) : Str := shellFormat3From true 0 line

/-- The arguments that `command_argv_parse` hands out. -/
def commandArgvParse (line : Str) : List Str := words (shellFormat3 line)

example : commandArgvParse "  show   ip  route ".toList
    = ["show".toList, "ip".toList, "route".toList, []] := by decide

theorem words_ne_nil (line : Str) : words line ≠ [] := List.splitOn_ne_nil _ _

end SdPlane
