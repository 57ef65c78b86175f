import Chronicle.Proofs.Merge.Trees
import Chronicle.Proofs.Workspace.Run

/-!
# Merges that theirs win

A merge that does not go ahead, and that theirs win, never ends in a conflict (`Workspace.settled_merge`).
Where the two commits have one base, no file was moved, and no file stands where another tree has a
directory, **its commit holds at every path what `TheirsWin` says** (`Workspace.merge_theirs_win`).
-/

namespace Chronicle

open Outcome

/-- Two commits with one base are merged over its files. -/
theorem mergeCommits_of_base {h : History} {ours theirs base : CommitId} (favor : Option Side)
    (hbase : h.mergeBases [ours] theirs = [base]) : mergeCommits h favor ours theirs =
      mergeTrees favor false (h.tree base) (h.tree ours) (h.tree theirs) := by
  have htree : baseTree h favor h.length [base] = h.tree base := by
    cases h.length <;> rfl
  rw [mergeCommits, hbase, htree]

namespace Workspace

variable {dir : String} {tree : FileTree} {w w' : Workspace} {r : Repository}

/-! ## Without conflicts -/

/-- Whether whatever error a computation ends with is not that of a conflict. -/
def Settled {α : Type} (x : Except RepositoryError α) : Prop :=
  ∀ other paths, x ≠ .error (.conflict other paths)

theorem settled_resolve (r : Repository) (text : String) : Settled (r.resolve text) := by
  intro other paths h
  unfold Repository.resolve at h
  split at h
  · cases h
  · split at h
    · cases h
    · split at h
      · rename_i o _
        cases hpeel : o.peelCommit r.history with
        | ok id =>
          rw [hpeel] at h
          cases h
        | error e =>
          rw [hpeel] at h
          cases h
      · cases h
      · cases h
      · cases h

theorem settled_bornHead (r : Repository) (action : String) : Settled (bornHead r action) := by
  intro other paths h
  unfold bornHead at h
  split at h <;> cases h

theorem settled_recordMerge (ours theirs : CommitId) (reference : String) (info : CommitInfo) :
    Settled (w.recordMerge r ours theirs reference info .theirs).1 := by
  intro other paths h
  unfold recordMerge at h
  simp only [MergeIndex.resolve] at h
  split at h <;> cases h

/-- A merge that theirs win never ends in a conflict. -/
theorem settled_merge (dir : String) (w : Workspace) (reference : String) (info : CommitInfo) :
    Settled (answer dir (.merge reference info false .theirs) w).1 := by
  intro other paths h
  cases hr : w.repository with
  | none =>
    simp only [answer, hr] at h
    cases h
  | some r =>
    simp only [answer, hr, answerIn, merge] at h
    split at h
    · rename_i e hsides
      cases h
      rcases bind_eq_error.mp hsides with hborn | ⟨ours, _, hsides⟩
      · exact settled_bornHead _ _ _ _ hborn
      · rcases bind_eq_error.mp hsides with hresolve | ⟨theirs, _, hsides⟩
        · exact settled_resolve _ _ _ _ hresolve
        · cases hsides
    · split at h
      · cases h
      · simp only [Bool.false_and, Bool.false_eq_true, if_false] at h
        exact settled_recordMerge _ _ _ _ _ _ h

/-! ## The commit -/

/-- A head that is at a commit can be moved, if the name of the reference it is attached to is not too
long for a file. -/
theorem advance_isOk {id : CommitId} (hid : r.headCommit = .ok (some id))
    (hname : ∀ name, r.headRef? = some name → RefName.tooLong name = false) (new : CommitId) :
    ∃ r', r.advance new = .ok r' := by
  unfold Repository.advance
  cases hhead : r.head with
  | detached old => exact ⟨_, rfl⟩
  | attached target =>
    cases hnormal : RefName.normal? target with
    | none =>
      simp only [Repository.headCommit, hhead, hnormal] at hid
      cases hid
    | some name =>
      have hshort := hname name (by simp [Repository.headRef?, hhead, hnormal])
      simp only [hnormal, hshort]
      exact ⟨_, rfl⟩

/-- What a merge does once it is known what is merged into what. -/
theorem merge_eq (dir : String) (hr : w.repository = some r) {ours theirs : CommitId} {reference : String}
    (hours : r.headCommit = .ok (some ours)) (htheirs : r.resolve reference = .ok theirs) (info : CommitInfo)
    (fastForward : Bool) (policy : Policy) : answer dir (.merge reference info fastForward policy) w =
      if r.history.isIn theirs ours then w.done
      else if fastForward && r.history.isIn ours theirs then
        match r.advance theirs with
        | .error e => w.failed (.refused e)
        | .ok r => w.checkOut r (r.history.tree theirs) (r.history.tree theirs) id
      else w.recordMerge r ours theirs reference info policy := by
  have hborn : bornHead r ("merge " ++ reference) = .ok ours := by
    unfold bornHead
    rw [hours]
  have hmerge : answer dir (.merge reference info fastForward policy) w =
      w.merge r reference info fastForward policy := by
    simp only [answer, hr, answerIn]
  unfold merge at hmerge
  rw [hborn, htheirs] at hmerge
  exact hmerge

/-- Where nothing is in conflict, the commit is made whenever it can be signed and stored and the head can be
moved; otherwise nothing happens. -/
theorem recordMerge_of_resolve (w : Workspace) (info : CommitInfo) {ours theirs : CommitId} {reference : String}
    {policy : Policy} {merged : Tree} (hours : r.headCommit = .ok (some ours))
    (hname : ∀ name, r.headRef? = some name → RefName.tooLong name = false)
    (htree : (mergeCommits r.history policy.favor ours theirs).resolve policy reference = .ok merged) :
    (info.signature?.isSome = true → info.stored?.isSome = true →
      ∃ c r', w.recordMerge r ours theirs reference info policy = (.ok none, w.keep r') ∧ r.Recorded c r' ∧
        c.parents = [ours, theirs] ∧ c.tree = merged ∧ c.Bears info) ∧
      (info.signature? = none ∨ info.stored? = none →
        w.recordMerge r ours theirs reference info policy = (.error (.refused .general), w)) := by
  constructor
  · intro hsigned hstored
    obtain ⟨s, hs⟩ := Option.isSome_iff_exists.mp hsigned
    obtain ⟨message, hmessage⟩ := Option.isSome_iff_exists.mp hstored
    obtain ⟨c, hc⟩ : ∃ c, draft info [ours, theirs] merged = .ok c := by
      unfold draft
      rw [hs, hmessage]
      exact ⟨_, rfl⟩
    obtain ⟨hparents, hctree, hbears⟩ := draft_eq_ok hc
    -- the head is where it was, before it is moved to the commit that was added
    have hmoves : ({ r with history := r.history.add c } : Repository).headCommit = .ok (some ours) := hours
    obtain ⟨r', hr'⟩ := advance_isOk hmoves hname r.history.length
    have hrecord : r.record c = .ok (r.history.length, r') := by
      unfold Repository.record
      dsimp only
      rw [hr']
      rfl
    refine ⟨c, r', ?_, (Repository.Recorded.of_record hrecord).2, hparents, hctree, hbears⟩
    simp only [recordMerge, htree, hc, Except.bind, hrecord]
    rfl
  · intro hnone
    have hdraft : draft info [ours, theirs] merged = .error .general := by
      unfold draft
      rcases hnone with hnone | hnone <;> simp [hnone]
    simp only [recordMerge, htree, hdraft, Except.bind]
    rfl

/-- A merge that theirs win makes a commit if one can be signed, stored and pointed at. -/
theorem merge_isOk (hr : w.repository = some r) {ours theirs : CommitId} {reference : String} {info : CommitInfo}
    (hours : r.headCommit = .ok (some ours)) (htheirs : r.resolve reference = .ok theirs)
    (hin : r.history.isIn theirs ours = false) (hsigned : info.signature?.isSome = true)
    (hstored : info.stored?.isSome = true)
    (hname : ∀ name, r.headRef? = some name → RefName.tooLong name = false) :
    ∃ w', answer dir (.merge reference info false .theirs) w = (.ok none, w') := by
  obtain ⟨merged, htree⟩ : ∃ merged, (mergeCommits r.history (Policy.favor .theirs) ours theirs).resolve .theirs
      reference = .ok merged := ⟨_, rfl⟩
  obtain ⟨c, r', hrecord, -⟩ := (recordMerge_of_resolve w info hours hname htree).1 hsigned hstored
  refine ⟨w.keep r', ?_⟩
  rw [merge_eq dir hr hours htheirs, if_neg (Bool.eq_false_iff.mp hin), Bool.false_and,
    if_neg Bool.false_ne_true, hrecord]

/-- **In the commit of a merge that theirs win, every path has what `TheirsWin` says.** There is no
conflict, and the commit is made whenever it can be signed and stored and the head can be moved. -/
theorem merge_theirs_win (hw : Reachable dir tree w) (hr : w.repository = some r) {ours theirs base : CommitId}
    {reference : String} {info : CommitInfo} (hours : r.headCommit = .ok (some ours))
    (htheirs : r.resolve reference = .ok theirs) (hnew : ¬ r.history.Descends ours theirs)
    (hbase : ∀ b, r.history.IsBase ours theirs b ↔ b = base)
    (hlevel : Level (r.history.tree base) (r.history.tree ours) (r.history.tree theirs))
    (hmoved : ∀ side, renames side
      (differing (r.history.tree base) (r.history.tree ours) (r.history.tree theirs)) = []) :
    Settled (answer dir (.merge reference info false .theirs) w).1 ∧
      (info.signature?.isSome = true → info.stored?.isSome = true →
        (∀ name, r.headRef? = some name → RefName.tooLong name = false) →
        ∃ w', answer dir (.merge reference info false .theirs) w = (.ok none, w')) ∧
      ∀ a w', answer dir (.merge reference info false .theirs) w = (.ok a, w') →
        ∃ c r', w'.repository = some r' ∧ r'.history = r.history.add c ∧ c.parents = [ours, theirs] ∧
          ∀ p, TheirsWin ((r.history.tree base).get? p) ((r.history.tree ours).get? p)
            ((r.history.tree theirs).get? p) (c.tree.get? p) := by
  have hsound : r.Sound := hw.sound hr
  have hours_lt : ours < r.history.length := hsound.headCommit_lt hours
  have htheirs_lt : theirs < r.history.length := Repository.resolve_lt hsound reference theirs htheirs
  have hin : r.history.isIn theirs ours = false :=
    Bool.eq_false_iff.mpr fun hin => hnew (History.descends_of_isIn hin)
  refine ⟨settled_merge dir w reference info, merge_isOk hr hours htheirs hin, ?_⟩
  intro a w' hmerge
  have hanswer := answer_answers dir hr (.merge reference info false .theirs)
  rw [hmerge] at hanswer
  cases hanswer with
  | contained hours' htheirs' hin' =>
    rw [hours] at hours'
    rw [htheirs] at htheirs'
    cases hours'
    cases htheirs'
    rw [hin] at hin'
    cases hin'
  | @merged _ _ _ _ ours' theirs' c r' hours' htheirs' hin' hff hparents htree hbears hrec =>
    rw [hours] at hours'
    rw [htheirs] at htheirs'
    cases hours'
    cases htheirs'
    refine ⟨c, r', rfl, hrec.history, hparents, ?_⟩
    intro p
    have hbases := History.mergeBases_eq_singleton hsound.history hours_lt htheirs_lt hbase
    have hfavor : Policy.theirs.favor = some .theirs := rfl
    rw [hfavor, mergeCommits_of_base _ hbases] at htree
    have hresult : ((mergeTrees (some .theirs) false (r.history.tree base) (r.history.tree ours)
        (r.history.tree theirs)).settleAll .theirs).lowest = c.tree := Except.ok.inj htree
    rw [← hresult, get?_mergeTrees hlevel hmoved]
    exact Versions.won_theirs p
  | wrote hc hin hw => cases hc

/-- The files of a commit that has one. -/
def single (content : String) : Tree := ⟨[(["test.txt"], content)]⟩

theorem level_single (a b c : String) : Level (single a) (single b) (single c) := by
  have hone (content : String) (p : Path) (h : (single content).has p = true) : p = ["test.txt"] := by
    rw [← PathMap.mem_paths] at h
    exact List.mem_singleton.mp h
  have hnamed (p : Path) (h : Named (single a) (single b) (single c) p) : p = ["test.txt"] := by
    rcases h with h | h | h <;> exact hone _ p h
  intro p q hp hq
  rw [hnamed p hp, hnamed q hq]
  decide

/-- Two branches that both rewrite the one file. -/
def diverged : List Call :=
  [.init "main", .writeFile "test.txt" "line 1\n", .stage .all, .commit ⟨"one", "ann", "ann@mail"⟩,
    .createBranch "develop", .checkout "develop", .writeFile "test.txt" "line 2 from develop\n", .stage .all,
    .commit ⟨"two", "ann", "ann@mail"⟩, .checkout "main", .writeFile "test.txt" "line 2 from main\n",
    .stage .all, .commit ⟨"three", "ann", "ann@mail"⟩]

theorem merge_theirs_win_diverged :
    ∃ c r', (answer "." (.merge "develop" ⟨"four", "ann", "ann@mail"⟩ false .theirs)
        (run "." {} diverged)).2.repository = some r' ∧ r'.history.get? 3 = some c ∧ c.parents = [2, 1] ∧
      c.tree.get? ["test.txt"] = some "line 2 from develop\n" := by
  have hreach : Reachable "." {} (run "." {} diverged) := ⟨diverged, rfl⟩
  have hok : (answer "." (.merge "develop" ⟨"four", "ann", "ann@mail"⟩ false .theirs)
      (run "." {} diverged)).1 = .ok none := by decide +kernel
  have hstate : (run "." {} diverged).repository.map (fun r => (r.headCommit, r.resolve "develop",
      r.history.length, r.history.mergeBases [2] 1, r.history.isIn 1 2)) =
        some (.ok (some 2), .ok 1, 3, [0], false) := by decide +kernel
  have htrees : (run "." {} diverged).repository.map
      (fun r => (r.history.tree 0, r.history.tree 2, r.history.tree 1)) =
        some (single "line 1\n", single "line 2 from main\n", single "line 2 from develop\n") := by decide +kernel
  cases hr : (run "." {} diverged).repository with
  | none =>
    rw [hr] at hstate
    cases hstate
  | some r =>
    rw [hr] at hstate htrees
    simp only [Option.map_some, Option.some.injEq, Prod.mk.injEq] at hstate htrees
    obtain ⟨hours, htheirs, hlength, hbases, hin⟩ := hstate
    obtain ⟨hbase, hmine, hother⟩ := htrees
    have hsound : r.Sound := hreach.sound hr
    have hours_lt : 2 < r.history.length := by omega
    have htheirs_lt : 1 < r.history.length := by omega
    have hnew : ¬ r.history.Descends 2 1 := by
      intro hd
      rw [(History.isIn_iff hsound.history htheirs_lt).mpr hd] at hin
      cases hin
    have hone (b : CommitId) : r.history.IsBase 2 1 b ↔ b = 0 := by
      rw [← History.mem_mergeBases_iff hsound.history hours_lt htheirs_lt, hbases, List.mem_singleton]
    have hlevel : Level (r.history.tree 0) (r.history.tree 2) (r.history.tree 1) := by
      rw [hbase, hmine, hother]
      exact level_single _ _ _
    have hmoved (side : Side) :
        renames side (differing (r.history.tree 0) (r.history.tree 2) (r.history.tree 1)) = [] := by
      rw [hbase, hmine, hother]
      cases side <;> decide +kernel
    have hmerge : answer "." (.merge "develop" ⟨"four", "ann", "ann@mail"⟩ false .theirs) (run "." {} diverged) =
        (.ok none, (answer "." (.merge "develop" ⟨"four", "ann", "ann@mail"⟩ false .theirs)
          (run "." {} diverged)).2) := Prod.ext hok rfl
    obtain ⟨c, r', hr', hhistory, hparents, hwins⟩ :=
      (merge_theirs_win hreach hr hours htheirs hnew hone hlevel hmoved).2.2 none _ hmerge
    have hfile := hwins ["test.txt"]
    rw [hbase, hmine, hother] at hfile
    obtain ⟨m, _, hmerged, hfavors⟩ := hfile.changed "line 2 from main\n" "line 2 from develop\n" rfl rfl
      (by decide) (by decide) (by decide)
    have hmine' : Diff.Swap (Diff.lines "line 1\n") (Diff.lines "line 2 from main\n") [] ["line 1\n"]
        ["line 2 from main\n"] [] := by
      constructor <;> decide +kernel
    have hother' : Diff.Swap (Diff.lines "line 1\n") (Diff.lines "line 2 from develop\n") [] ["line 1\n"]
        ["line 2 from develop\n"] [] := by
      constructor <;> decide +kernel
    refine ⟨c, r', hr', ?_, hparents, ?_⟩
    · rw [hhistory, History.get?_add, if_pos hlength.symm]
    · rw [hmerged, hfavors.replaced _ _ _ _ _ hmine' hother' (.inl (by decide))]

end Workspace

end Chronicle
