import Mathlib.Data.List.Basic

namespace Hmux.Lib

/-!
# Files that are replaced at once

A private file is written to a temporary file which is then renamed.  The write fails before the
rename, which leaves the file as it was, or after it, when the directory could not be synced: the
file then has the new content although an error is returned.

A caller that gets an error therefore cannot tell which of the two contents the next reader sees.
The stores that are built on such a file treat every failure of a write the same way, and what
their runs keep has to hold of the old content and of the new one.
-/

/-- How an atomic write ends. -/
inductive WriteOutcome
  | done
  | beforeCommit
  | afterCommit
  deriving DecidableEq

/-- `write_atomic_private`: the file after the write, and whether it succeeded. -/
def WriteOutcome.write {α : Type} (outcome : WriteOutcome) (file : Option α) (raw : α) :
    Bool × Option α :=
  match outcome with
  | .done => (true, some raw)
  | .beforeCommit => (false, file)
  | .afterCommit => (false, some raw)

end Hmux.Lib
