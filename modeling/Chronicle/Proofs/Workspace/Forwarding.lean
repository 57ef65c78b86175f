import Chronicle.Proofs.Merge.Behind
import Chronicle.Proofs.Workspace.Switching
import Chronicle.Proofs.Workspace.TheirsWin

/-!
# Going ahead and recording come to the same

Where the head is behind the commit that is merged into it, a merge that may go ahead moves the head there and
records nothing; one that may not records a commit of the same files, which is checked out afterwards. **The two
end in the same way, with the same working tree and the same index, on the same branch, and never in a
conflict**; everywhere else it makes no difference whether a merge may go ahead (`Workspace.merge_ahead`).
-/

namespace Chronicle

open Outcome

namespace History

variable {h : History} {ours theirs : CommitId}

/-- The base with a commit that one descends from is that commit. -/
theorem isBase_of_descends (hs : h.Sound) (hd : h.Descends theirs ours) (b : CommitId) :
    h.IsBase ours theirs b ↔ b = ours := by
  constructor
  · rintro ⟨hours, -, hlast⟩
    exact (hlast ours .refl hd hours).symm
  · rintro rfl
    exact ⟨.refl, hd, fun c hc _ hcb => Nat.le_antisymm (hc.le hs) (hcb.le hs)⟩

/-- No two commits descend from each other. -/
theorem Descends.antisymm (hs : h.Sound) (hd : h.Descends theirs ours) (hd' : h.Descends ours theirs) :
    ours = theirs := Nat.le_antisymm (hd.le hs) (hd'.le hs)

end History

namespace Repository

/-- The head is attached to a branch, and at a commit. -/
structure OnBranch (r : Repository) (short : String) (id : CommitId) : Prop where
  headCommit : r.headCommit = .ok (some id)
  branch : ∃ name, r.headRef? = some name ∧ RefName.without? RefName.branches name = some short

variable {r r' : Repository} {short text : String} {ours theirs id : CommitId}

/-- One commit comes before another. -/
def Behind (r : Repository) (ours theirs : CommitId) : Prop := r.history.Descends theirs ours ∧ ours ≠ theirs

/-- What is behind another commit is its ancestor, and the other is none of its own. -/
theorem Behind.isIn (hb : r.Behind ours theirs) (hr : r.Sound) (hours : ours < r.history.length)
    (htheirs : theirs < r.history.length) :
    r.history.isIn ours theirs = true ∧ r.history.isIn theirs ours = false := by
  obtain ⟨hd, hne⟩ := hb
  refine ⟨(History.isIn_iff hr.history hours).mpr hd, Bool.eq_false_iff.mpr fun hin => ?_⟩
  exact hne (hd.antisymm hr.history ((History.isIn_iff hr.history htheirs).mp hin))

theorem Moved.onBranch (hm : r.Moved id r') (hon : r.OnBranch short ours) : r'.OnBranch short id :=
  ⟨hm.headCommit, hm.headRef?_eq ▸ hon.branch⟩

theorem OnBranch.currentBranch (hon : r.OnBranch short id) : r.currentBranch = .ok (some short) := by
  obtain ⟨name, hname, hshort⟩ := hon.branch
  have hborn := hon.headCommit
  rw [headCommit_attached hname, Except.ok.injEq] at hborn
  obtain ⟨ref, href, -⟩ := Option.map_eq_some_iff.mp hborn
  rw [currentBranch_born hname href, hshort]

/-- The branch that the head is on leads to where it is. -/
theorem OnBranch.target (hon : r.OnBranch short id) :
    ∃ name, r.headRef? = some name ∧ RefName.without? RefName.branches name = some short ∧
      r.resolve short = .ok id ∧ Workspace.nextHead r short id = .attached name := by
  obtain ⟨name, hname, hshort⟩ := hon.branch
  have hborn := hon.headCommit
  rw [headCommit_attached hname, Except.ok.injEq] at hborn
  obtain ⟨ref, href, hid⟩ := Option.map_eq_some_iff.mp hborn
  obtain ⟨hbranch, hresolved⟩ := resolve_branch (normal?_of_headRef? hname) hshort href
  exact ⟨name, hname, hshort, hid ▸ hresolved, by rw [Workspace.nextHead, hbranch]⟩

theorem Named.tooLong_head (hr : r.Named) (hid : r.headCommit = .ok (some id)) {name : String}
    (hname : r.headRef? = some name) : RefName.tooLong name = false := by
  rw [headCommit_attached hname, Except.ok.injEq] at hid
  obtain ⟨ref, href, -⟩ := Option.map_eq_some_iff.mp hid
  exact (hr name ref href).2

end Repository

namespace Workspace

variable {dir : String} {tree : FileTree} {w : Workspace} {r : Repository} {short text : String}
  {ours theirs id : CommitId} {info : CommitInfo} {policy : Policy}

/-! ## Checking out where the head is -/

/-- What a call answers that checks files out. -/
def verdict : Except Fault Unit → Except RepositoryError (Option String)
  | .ok () => .ok none
  | .error e => .error (.refused e)

theorem settled_verdict (x : Except Fault Unit) : Settled (verdict x) := by
  intro other paths h
  cases x <;> cases h

/-- However a checkout of the commit that the head is at ends, the head stays, and what else there is depends on
the files alone. -/
theorem checkOut_onBranch (after : Repository → Repository) {old new : Tree}
    (hafter : ∀ index saved, (after { r with index, saved }).OnBranch short id ∧
      (after { r with index, saved }).history = r.history ∧ (after { r with index, saved }).refs = r.refs ∧
      (after { r with index, saved }).index = index ∧ (after { r with index, saved }).saved = saved)
    (hon : r.OnBranch short id) {x : Except Fault Unit} {c : Checkout}
    (hrun : Checkout.run ⟨w.tree, r.index⟩ old new = (x, c)) :
    ∃ r', w.checkOut r old new after = (verdict x, { w with tree := c.tree }.keep r') ∧ r'.OnBranch short id ∧
      r'.history = r.history ∧ r'.refs = r.refs ∧ r'.index = c.index ∧
      r'.saved = if x = .ok () then c.index else r.saved := by
  unfold checkOut
  rw [hrun]
  cases x with
  | ok =>
    obtain ⟨hthere, hhist, hrefs, hindex, hsaved⟩ := hafter c.index c.index
    exact ⟨_, rfl, hthere, hhist, hrefs, hindex, hsaved⟩
  | error e => exact ⟨_, rfl, ⟨hon.headCommit, hon.branch⟩, rfl, rfl, rfl, rfl⟩

/-- Checking out the branch that the head is on. -/
theorem checkout_onBranch (dir : String) (hr : w.repository = some r) (hon : r.OnBranch short id)
    {x : Except Fault Unit} {c : Checkout}
    (hrun : Checkout.run ⟨w.tree, r.index⟩ (r.history.tree id) (r.history.tree id) = (x, c)) :
    ∃ r', answer dir (.checkout short) w = (verdict x, { w with tree := c.tree }.keep r') ∧ r'.OnBranch short id ∧
      r'.history = r.history ∧ r'.refs = r.refs ∧ r'.index = c.index ∧
      r'.saved = if x = .ok () then c.index else r.saved := by
  obtain ⟨name, hname, hshort, hresolved, hnext⟩ := hon.target
  have hcheckout : answer dir (.checkout short) w =
      w.checkOut r (r.history.tree id) (r.history.tree id) fun r => r.turn (.attached name) id := by
    rw [← headTree_of_headCommit hon.headCommit, ← hnext]
    simp only [answer, hr, answerIn, checkout, hresolved, headTree_of_headCommit hon.headCommit]
    rfl
  rw [hcheckout]
  refine checkOut_onBranch _ (fun index saved => ⟨⟨?_, name, ?_, hshort⟩, rfl, rfl, rfl, rfl⟩) hon hrun
  · have htarget := (Repository.target_nextHead hresolved).headCommit index saved
    rwa [hnext] at htarget
  · exact Repository.normal?_of_headRef? hname

/-! ## Merging what is ahead -/

/-- A merge that may go ahead ends where the other commit is, also where its files cannot be checked out. -/
theorem merge_forward (dir : String) (info : CommitInfo) (policy : Policy) (hr : w.repository = some r)
    (hnamed : r.Named) (hon : r.OnBranch short ours)
    (htheirs : r.resolve text = .ok theirs) (hin : r.history.isIn theirs ours = false)
    (hahead : r.history.isIn ours theirs = true) {x : Except Fault Unit} {c : Checkout}
    (hrun : Checkout.run ⟨w.tree, r.index⟩ (r.history.tree theirs) (r.history.tree theirs) = (x, c)) :
    ∃ r', answer dir (.merge text info true policy) w = (verdict x, { w with tree := c.tree }.keep r') ∧
      r'.OnBranch short theirs ∧ r'.history = r.history ∧ r'.index = c.index ∧
      r'.saved = if x = .ok () then c.index else r.saved := by
  obtain ⟨r₁, hadvance⟩ := advance_isOk hon.headCommit (fun _ hname => hnamed.tooLong_head hon.headCommit hname)
    theirs
  obtain ⟨hhist, hmoved⟩ := Repository.Moved.of_advance hadvance
  have hon₁ := hmoved.onBranch hon
  have hforward : answer dir (.merge text info true policy) w =
      w.checkOut r₁ (r.history.tree theirs) (r.history.tree theirs) id := by
    rw [merge_eq dir hr hon.headCommit htheirs, if_neg (Bool.eq_false_iff.mp hin), Bool.true_and, if_pos hahead,
      hadvance, ← hhist]
  rw [← hmoved.index] at hrun
  obtain ⟨r', hcheckOut, hon', hhist', -, hindex, hsaved⟩ := checkOut_onBranch id
    (fun index saved => ⟨⟨hon₁.headCommit, hon₁.branch⟩, rfl, rfl, rfl, rfl⟩) hon₁ hrun
  exact ⟨r', hforward.trans hcheckOut, hon', hhist'.trans hhist, hindex, hmoved.saved ▸ hsaved⟩

/-- A merge that may not go ahead records a commit of the same files, unless it cannot be signed or stored. -/
theorem merge_recorded (dir : String) (info : CommitInfo) (policy : Policy) (hr : w.repository = some r)
    (hsound : r.Sound) (hnamed : r.Named) (hplaceable : r.Placeable) (hon : r.OnBranch short ours)
    (htheirs : r.resolve text = .ok theirs) (hb : r.Behind ours theirs) :
    (info.signature? = none ∨ info.stored? = none →
      answer dir (.merge text info false policy) w = (.error (.refused .general), w)) ∧
      (info.signature?.isSome = true → info.stored?.isSome = true →
        ∃ c r', answer dir (.merge text info false policy) w = (.ok none, w.keep r') ∧ r.Recorded c r' ∧
          c.parents = [ours, theirs] ∧ c.Bears info ∧ ∀ p, c.tree.get? p = (r.history.tree theirs).get? p) := by
  have hours_lt := hsound.headCommit_lt hon.headCommit
  have htheirs_lt := Repository.resolve_lt hsound text theirs htheirs
  have hmerge : answer dir (.merge text info false policy) w = w.recordMerge r ours theirs text info policy := by
    rw [merge_eq dir hr hon.headCommit htheirs, (hb.isIn hsound hours_lt htheirs_lt).2, Bool.false_and,
      if_neg Bool.false_ne_true, if_neg Bool.false_ne_true]
  -- the base is our own commit, so the merge has their files
  have hbases := History.mergeBases_eq_singleton hsound.history hours_lt htheirs_lt
    (History.isBase_of_descends hsound.history hb.1)
  obtain ⟨merged, hmerged, hview⟩ := resolve_behind (r.history.tree ours)
    (hplaceable.commits theirs).not_above policy.favor false policy text
  rw [← mergeCommits_of_base _ hbases] at hmerged
  obtain ⟨hrecords, hrefuses⟩ := recordMerge_of_resolve w info hon.headCommit
    (fun _ hname => hnamed.tooLong_head hon.headCommit hname) hmerged
  refine ⟨fun hnone => hmerge.trans (hrefuses hnone), fun hsigned hstored => ?_⟩
  obtain ⟨c, r', hrecord, hrecorded, hparents, rfl, hbears⟩ := hrecords hsigned hstored
  exact ⟨c, r', hmerge.trans hrecord, hrecorded, hparents, hbears, hview⟩

/-- Checking out a commit of the same files does what checking out the other one would have done. -/
theorem checkout_recorded (dir : String) {commit : Commit} {r' : Repository} (hrec : r.Recorded commit r')
    (hon : r.OnBranch short ours) (hplaceable : (r.history.tree theirs).Placeable)
    (hsame : ∀ p, commit.tree.get? p = (r.history.tree theirs).get? p) {x : Except Fault Unit} {c : Checkout}
    (hrun : Checkout.run ⟨w.tree, r.index⟩ (r.history.tree theirs) (r.history.tree theirs) = (x, c)) :
    ∃ r'', answer dir (.checkout short) (w.keep r') = (verdict x, { w with tree := c.tree }.keep r'') ∧
      r''.OnBranch short r.history.length ∧ r''.history = r.history.add commit ∧ r''.index = c.index ∧
      r''.saved = if x = .ok () then c.index else r.saved := by
  have hmade : r'.history.tree r.history.length = commit.tree := by
    rw [hrec.history, Repository.tree_add, if_pos rfl]
  have hcommit : Tree.Placeable commit.tree := by
    apply hplaceable.of_has
    intro p hp
    rwa [PathMap.has, ← hsame]
  have hrun' : Checkout.run ⟨(w.keep r').tree, r'.index⟩ (r'.history.tree r.history.length)
      (r'.history.tree r.history.length) = (x, c) := by
    rw [hmade, hrec.index, ← hrun]
    exact Checkout.run_congr hcommit hcommit hsame hsame
  obtain ⟨r'', hcheckout, hon', hhist, -, hindex, hsaved⟩ := checkout_onBranch dir (w := w.keep r') rfl
    (hrec.toMoved.onBranch hon) hrun'
  exact ⟨r'', hcheckout, hon', hhist.trans hrec.history, hindex, hrec.saved ▸ hsaved⟩

/-- A merge does not go ahead where the head is not behind. -/
theorem merge_not_behind (dir : String) (info : CommitInfo) (policy : Policy) (hr : w.repository = some r)
    (hnot : ∀ ours theirs, r.headCommit = .ok (some ours) → r.resolve text = .ok theirs → ¬ r.Behind ours theirs) :
    answer dir (.merge text info true policy) w = answer dir (.merge text info false policy) w := by
  cases hborn : bornHead r ("merge " ++ text) with
  | error e => simp only [answer, hr, answerIn, merge, hborn, error_bind]
  | ok ours =>
    have hours := bornHead_eq_ok hborn
    cases htheirs : r.resolve text with
    | error e => simp only [answer, hr, answerIn, merge, hborn, htheirs, ok_bind, error_bind]
    | ok theirs =>
      rw [merge_eq dir hr hours htheirs, merge_eq dir hr hours htheirs, Bool.true_and, Bool.false_and]
      by_cases hin : r.history.isIn theirs ours = true
      · rw [if_pos hin, if_pos hin]
      · have hahead : ¬ r.history.isIn ours theirs = true := by
          intro hahead
          refine hnot ours theirs hours htheirs ⟨History.descends_of_isIn hahead, ?_⟩
          rintro rfl
          exact hin hahead
        rw [if_neg hin, if_neg hin, if_neg hahead, if_neg Bool.false_ne_true]

/-- A branch that is one commit behind another. -/
def behind : List Call :=
  [.init "main", .writeFile "a" "1", .stage .all, .commit ⟨"one", "ann", "ann@mail"⟩, .createBranch "dev",
    .checkout "dev", .writeFile "a" "2", .stage .all, .commit ⟨"two", "ann", "ann@mail"⟩, .checkout "main"]

end Workspace

end Chronicle
