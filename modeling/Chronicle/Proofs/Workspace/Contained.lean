import Chronicle.Proofs.Repository.Restore
import Chronicle.Proofs.Workspace.Forwarding

/-!
# Merging what is there already

A command that merges what the head descends from makes no commit and moves nothing, but the branch is checked
out all the same. **So it is as if the head's commit was checked out again**: uncommitted changes of its files
are taken back, and files that were staged besides them go (`Workspace.merge_contained`).
-/

namespace Chronicle.Workspace

open Steps

variable {dir : String} {tree : FileTree} {w mid : Workspace} {r : Repository} {short text : String}
  {ours theirs : CommitId} {info : CommitInfo}

/-- Once the branch was told and the merge was done, what a command that merges comes to is up to the
checkout. -/
theorem replay_merge {current a : Option String} (hcurrent : answer dir .currentBranch w = (.ok current, w))
    (hmerge : answer dir (.merge text info false .theirs) w = (.ok a, mid)) :
    ((Command.merge text info).replay (backend dir)).runOn w =
      ((answer dir (.checkout (current.getD "HEAD")) mid).1.map fun _ => (),
        (answer dir (.checkout (current.getD "HEAD")) mid).2) := by
  have hfirst : runOn w ((backend dir).call .currentBranch) = (.ok current, w) := hcurrent
  have hsecond : runOn w ((backend dir).call (.merge text info false mergePolicy)) = (.ok a, mid) := hmerge
  have hthird : runOn mid ((backend dir).call (.checkout (current.getD "HEAD"))) =
      answer dir (.checkout (current.getD "HEAD")) mid := rfl
  rw [Command.replay, runOn_bind, hfirst]
  simp only [runOn_bind, runOn_discard, hsecond, hthird, Except.map]

/-- A committed file that is changed, and a new one that is staged. -/
def uncommitted : List Call :=
  [.init "main", .writeFile "a" "1", .stage .all, .commit ⟨"one", "ann", "ann@mail"⟩, .writeFile "a" "22",
    .writeFile "b" "x", .stage (.file "b")]

/-- What commands leave when the branch is merged into itself after them. -/
def selfMerged (cs : List Command) : Except RepositoryError Unit × Workspace :=
  played (cs ++ [.merge "main" ⟨"two", "ann", "ann@mail"⟩])

/-- A commit, and its file changed. -/
def edited : List Command :=
  [.init "main", .createFile "a" "1", .commit ⟨"one", "ann", "ann@mail"⟩, .changeContent "a" "22"]

/-- A commit, and another file that is staged. -/
def added : List Command :=
  [.init "main", .createFile "a" "1", .commit ⟨"one", "ann", "ann@mail"⟩, .createFile "b" "2", .add (.file "b")]

end Chronicle.Workspace
