import Chronicle.Proofs.Workspace.Run

/-!
# Merging without going ahead

A merge that may not just move the head ahead does one of two things when it succeeds: where the head
descends from the other commit already it does nothing, and everywhere else, **also where the head is
behind, it records one commit whose parents are the head's commit and the other one, in this order**
(`Workspace.merge_records`).
-/

namespace Chronicle.Workspace

variable {dir : String} {tree : FileTree} {w w' : Workspace} {r : Repository}

/-- A commit on each of two branches, which go apart after the first commit. -/
def apart : List Call :=
  [.init "main", .commit ⟨"one", "ann", "ann@mail"⟩, .createBranch "side",
    .commit ⟨"two", "ann", "ann@mail"⟩, .checkout "side", .commit ⟨"three", "ann", "ann@mail"⟩]

/-- A merge of the branch that the head has left. -/
def joining : Call := .merge "main" ⟨"four", "ann", "ann@mail"⟩ false .theirs

end Chronicle.Workspace
