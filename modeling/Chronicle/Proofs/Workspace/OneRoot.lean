import Chronicle.Proofs.Repository.RefName
import Chronicle.Proofs.Repository.Rooted
import Chronicle.Proofs.Workspace.AppendOnly

/-!
# One root

The head is attached to a reference that is there, or to none that is, and nothing brings it back to the
second state once there is a commit. So a commit without parents is only ever the first one, and **all
commits that any calls make descend from it** (`Workspace.one_root`): every two of them have a base.

What one call keeps is `Workspace.Answers.rooted`, and which calls make a commit is
`Workspace.Answers.commits`.
-/

namespace Chronicle.Workspace

variable {dir : String} {tree : FileTree} {w : Workspace} {r : Repository}

/-! ## One call -/

/-- A head that was put to a branch or a commit is at a commit. -/
theorem born_nextHead (r : Repository) (reference : String) (id : CommitId) (index saved : Tree) :
    ∃ id', ({ r with index, saved }.turn (nextHead r reference id) id).headCommit = .ok (some id') := by
  cases hbranch : r.branch? reference with
  | none =>
    have hnext : nextHead r reference id = .detached id := by rw [nextHead, hbranch]
    exact ⟨id, Repository.headCommit_detached (by rw [hnext]; rfl)⟩
  | some found =>
    obtain ⟨name, ref⟩ := found
    have hnext : nextHead r reference id = .attached name := by rw [nextHead, hbranch]
    obtain ⟨hwithin, href⟩ := Repository.ref?_of_branch? hbranch
    have hhead : ({ r with index, saved }.turn (nextHead r reference id) id).headRef? = some name := by
      rw [hnext]
      exact RefName.normal?_normal? hwithin
    have hat : ({ r with index, saved }.turn (nextHead r reference id) id).ref? name = some ref := href
    exact ⟨ref.commit, by rw [Repository.headCommit_attached hhead, hat]; rfl⟩

/-- Whatever comes of a call, there is at most one root, and a head that is at a commit stays at one. -/
theorem Answers.rooted {c : Call} {o : Outcome} (h : w.repository = some r) (hs : r.Sound) (hr : r.Rooted)
    (ha : Answers w r c o) : ∃ r', o.2.repository = some r' ∧ r'.Rooted := by
  cases ha with
  | refused c e => exact ⟨r, h, hr⟩
  | reopened branch => exact ⟨_, rfl, hr.history, hr.born⟩
  | told name => exact ⟨r, h, hr⟩
  | stagedAll hstaged => exact ⟨_, rfl, hr.history, hr.born⟩
  | stagedSome hstaged => exact ⟨_, rfl, hr.history, hr.born⟩
  | stagedFile hstaged => exact ⟨_, rfl, hr.history, hr.born⟩
  | @committed info parent c r' hparent hparents htree hbears hrec =>
    -- the parent is the head's commit, which is there exactly when there is any
    refine ⟨r', rfl, hrec.rooted hr ?_ ?_⟩
    · intro hnil
      rw [hparents, Option.toList_eq_nil_iff]
      by_contra hsome
      obtain ⟨id, rfl⟩ := Option.ne_none_iff_exists'.mp hsome
      exact (hr.born_iff hs).mp ⟨id, hparent⟩ hnil
    · intro hne
      obtain ⟨id, hid⟩ := hr.born hne
      rw [hparent] at hid
      cases hid
      exact .inl (by rw [hparents]; rfl)
  | branched hid hfull hadd => exact ⟨_, rfl, hadd.rooted hr hid⟩
  | tagged hid hfull hadd => exact ⟨_, rfl, hadd.rooted hr hid⟩
  | annotated hid hfull hname hmessage htagger hadd => exact ⟨_, rfl, hadd.rooted hr hid⟩
  | @turned reference id c hid hc =>
    exact ⟨_, rfl, hr.history, fun _ => born_nextHead r reference id c.index c.index⟩
  | turnedPartly hid hc => exact ⟨_, rfl, hr.history, hr.born⟩
  | contained hours htheirs hin => exact ⟨r, h, hr⟩
  | forwarded hours htheirs hin hhist hm hc =>
    have hmoved := hm.rooted hr hhist
    exact ⟨_, rfl, hmoved.history, hmoved.born⟩
  | forwardedPartly hours htheirs hin hhist hm hc =>
    have hmoved := hm.rooted hr hhist
    exact ⟨_, rfl, hmoved.history, hmoved.born⟩
  | merged hours htheirs hin hff hparents htree hbears hrec =>
    -- a merge has a head to start from, so there are commits already
    refine ⟨_, rfl, hrec.rooted hr ?_ ?_⟩
    · intro hnil
      exact absurd hnil ((hr.born_iff hs).mp ⟨_, hours⟩)
    · intro _
      exact .inr (by rw [hparents]; rfl)
  | wrote hc hin hw => exact ⟨r, h, hr⟩
  | wroteNothing hc hin hw => exact ⟨r, h, hr⟩

/-- A call makes one commit at most. Only commits and merges that succeed make one, and a commit that
succeeds always does. -/
theorem Answers.commits {c : Call} {o : Outcome} (h : w.repository = some r) (ha : Answers w r c o) :
    ∃ r', o.2.repository = some r' ∧
      (r'.history = r.history ∧ (∀ info, c = .commit info → ∃ e, o.1 = .error e) ∨
        ∃ new, r'.history = r.history.add new ∧ c.movesHead = true ∧ o.1 = .ok none) := by
  cases ha with
  | refused c e => exact ⟨r, h, .inl ⟨rfl, fun _ _ => ⟨e, rfl⟩⟩⟩
  | committed hparent hparents htree hbears hrec => exact ⟨_, rfl, .inr ⟨_, hrec.history, rfl, rfl⟩⟩
  | merged hours htheirs hin hff hparents htree hbears hrec =>
    exact ⟨_, rfl, .inr ⟨_, hrec.history, rfl, rfl⟩⟩
  | branched hid hfull hadd => exact ⟨_, rfl, .inl ⟨hadd.history, fun _ hc => by cases hc⟩⟩
  | tagged hid hfull hadd => exact ⟨_, rfl, .inl ⟨hadd.history, fun _ hc => by cases hc⟩⟩
  | annotated hid hfull hname hmessage htagger hadd =>
    exact ⟨_, rfl, .inl ⟨hadd.history, fun _ hc => by cases hc⟩⟩
  | forwarded hours htheirs hin hhist hm hc => exact ⟨_, rfl, .inl ⟨hhist, fun _ hc => by cases hc⟩⟩
  | forwardedPartly hours htheirs hin hhist hm hc =>
    exact ⟨_, rfl, .inl ⟨hhist, fun _ hc => by cases hc⟩⟩
  | contained hours htheirs hin => exact ⟨r, h, .inl ⟨rfl, fun _ hc => by cases hc⟩⟩
  | told name => exact ⟨r, h, .inl ⟨rfl, fun _ hc => by cases hc⟩⟩
  | @wrote c path new tree hc hin hw =>
    refine ⟨r, h, .inl ⟨rfl, ?_⟩⟩
    rintro info rfl
    cases hc
  | wroteNothing hc hin hw => exact ⟨r, h, .inl ⟨rfl, fun _ _ => ⟨_, rfl⟩⟩⟩
  | _ => exact ⟨_, rfl, .inl ⟨rfl, fun _ hc => by cases hc⟩⟩

/-! ## Every run -/

theorem Reachable.rooted (hw : Reachable dir tree w) (h : w.repository = some r) : r.Rooted := by
  refine (hw.keeps (P := fun w => ∀ r, w.repository = some r → r.Sound ∧ r.Rooted) ?_ ?_ r h).2
  · intro r h
    cases h
  · intro c w ih r' h'
    cases h : w.repository with
    | none =>
      rcases answer_of_none dir h c with hnone | ⟨branch, hsome⟩
      · rw [hnone] at h'
        cases h'
      · rw [hsome] at h'
        cases h'
        exact ⟨.empty branch, .empty branch⟩
    | some r =>
      obtain ⟨hs, hr⟩ := ih r h
      have hanswer := answer_answers dir h c
      obtain ⟨r₁, h₁, hs₁, _⟩ := hanswer.sound h hs
      obtain ⟨r₂, h₂, hr₂⟩ := hanswer.rooted h hs hr
      -- both speak of the repository that the call leaves
      obtain rfl : r₁ = r' := Option.some.inj (h₁.symm.trans h')
      obtain rfl : r₂ = r₁ := Option.some.inj (h₂.symm.trans h₁)
      exact ⟨hs₁, hr₂⟩

/-- **One root.** From a working tree without a repository, whatever calls are made and whatever they
answer: the first repository has no commit, and each call makes one at most. The head is at a commit
exactly when one was made. The first commit has no parents, and every later one has one or two that were
there before it. Any two commits have an ancestor in common, and a merge finds a base. -/
theorem one_root (dir : String) (tree : FileTree) (before : List Call) (c : Call) :
    let w := run dir { tree } before
    let o := answer dir c w
    (w.repository = none → ∀ r, o.2.repository = some r → r.history = []) ∧
    ∀ r, w.repository = some r →
      (∃ r', o.2.repository = some r' ∧
        (r'.history = r.history ∧ (∀ info, c = .commit info → ∃ e, o.1 = .error e) ∨
          ∃ new, r'.history = r.history.add new ∧ c.movesHead = true ∧ o.1 = .ok none)) ∧
      ((∃ id, r.headCommit = .ok (some id)) ↔ r.history ≠ []) ∧
      (∀ id < r.history.length, (r.history.parents id = [] ↔ id = 0) ∧
        (0 < id → (r.history.parents id).length = 1 ∨ (r.history.parents id).length = 2) ∧
        ∀ p ∈ r.history.parents id, p < id) ∧
      (∀ a < r.history.length, ∀ b < r.history.length,
        ∃ base, r.history.Descends a base ∧ r.history.Descends b base) ∧
      ∀ ours reference theirs, r.headCommit = .ok (some ours) → r.resolve reference = .ok theirs →
        ∃ base ∈ r.history.mergeBases [ours] theirs, r.history.IsBase ours theirs base := by
  intro w o
  have hreachable : Reachable dir tree w := ⟨before, rfl⟩
  refine ⟨?_, ?_⟩
  · intro hnone r hsome
    rcases answer_of_none dir hnone c with hnone' | ⟨branch, hempty⟩
    · rw [hnone'] at hsome
      cases hsome
    · rw [hempty] at hsome
      cases hsome
      rfl
  · intro r h
    have hs : r.Sound := hreachable.sound h
    have hr : r.Rooted := hreachable.rooted h
    refine ⟨(answer_answers dir h c).commits h, hr.born_iff hs, ?_, ?_, ?_⟩
    · intro id hid
      exact ⟨hr.history.parents_eq_nil_iff hid, fun hpos => hr.history.later id hpos hid, hs.history id⟩
    · intro a ha b hb
      exact ⟨0, hr.history.descends hs.history ha, hr.history.descends hs.history hb⟩
    · intro ours reference theirs hours htheirs
      have hourslt := hs.headCommit_lt hours
      have htheirslt := Repository.resolve_lt hs reference theirs htheirs
      obtain ⟨base, hbase⟩ :=
        List.exists_mem_of_ne_nil _ (hr.history.mergeBases_ne_nil hs.history hourslt htheirslt)
      exact ⟨base, hbase, (History.mem_mergeBases_iff hs.history hourslt htheirslt).mp hbase⟩

/-- A branch is left at its first commit and gone on with, the repository is made once more, and the
other branch goes on too. -/
def replanted : List Call :=
  [.init "main", .commit ⟨"one", "ann", "ann@mail"⟩, .createBranch "side", .init "other",
    .commit ⟨"two", "ann", "ann@mail"⟩, .checkout "side", .init "third", .commit ⟨"three", "ann", "ann@mail"⟩]

/-- The two branches meet in the first commit, which the merge of one into the other starts from. -/
theorem one_root_replanted : ∃ r, (run "." {} replanted).repository = some r ∧ r.history.length = 3 ∧
    (r.history.parents 2 = [] ↔ 2 = 0) ∧
    ∃ base ∈ r.history.mergeBases [2] 1, r.history.IsBase 2 1 base := by
  have hr : ∃ r, (run "." {} replanted).repository = some r ∧ r.history.length = 3 ∧
      r.headCommit = .ok (some 2) ∧ r.resolve "main" = .ok 1 := by
    refine ⟨((run "." {} replanted).repository.getD (.empty "")), ?_, ?_, ?_, ?_⟩ <;> decide +kernel
  obtain ⟨r, hr, hlength, hours, htheirs⟩ := hr
  obtain ⟨_, _, hparents, _, hbases⟩ := (one_root "." {} replanted .currentBranch).2 r hr
  exact ⟨r, hr, hlength, (hparents 2 (by rw [hlength]; decide)).1, hbases 2 "main" 1 hours htheirs⟩

end Chronicle.Workspace
