import Chronicle.Proofs.Repository.RefName
import Chronicle.Proofs.Repository.Refresh
import Chronicle.Proofs.Workspace.Run

/-!
# What a merge leaves checked out

A command that merges asks for the branch, merges, and checks out what it was told, or `HEAD` where there
was no branch. The check-out looks a name up among the branches first, so it comes back to where it was
if the head was attached to a branch, or if no branch is called `HEAD` (`Repository.Returns`). **Then the
head is at the commit of the merge, whose files are all in the working tree**
(`Workspace.merge_checks_out`). The index holds them too, except where the working tree had a file as
the commit has it already: such a path is not written, and keeps what was staged for it.
-/

namespace Chronicle

open Outcome Steps

/-! ## Finding the head again -/

namespace Repository

variable {r r' : Repository} {name : String} {id : CommitId}

/-- A head that is at a commit is attached to a reference at that commit, or to none. -/
theorem headCommit_cases (h : r.headCommit = .ok (some id)) :
    (∃ name ref, r.headRef? = some name ∧ r.ref? name = some ref ∧ ref.commit = id) ∨
      r.head = .detached id := by
  cases hh : r.head with
  | detached other =>
    rw [headCommit_detached hh] at h
    cases h
    exact .inr rfl
  | attached target =>
    left
    cases hn : r.headRef? with
    | none =>
      simp only [headRef?, hh] at hn
      simp [headCommit, hh, hn] at h
    | some name =>
      rw [headCommit_attached hn, Except.ok.injEq] at h
      obtain ⟨ref, href, hid⟩ := Option.map_eq_some_iff.mp h
      exact ⟨name, ref, rfl, href, hid⟩

/-- A branch that is there is called by what is left of its full name. -/
theorem currentBranch_born (hname : r.headRef? = some name) {ref : Ref} (href : r.ref? name = some ref) :
    r.currentBranch = .ok (RefName.without? RefName.branches name) := by
  unfold headRef? at hname
  unfold currentBranch
  cases hh : r.head with
  | detached other =>
    rw [hh] at hname
    cases hname
  | attached target =>
    rw [hh] at hname
    simp only [hname, href]
    rfl

theorem branch?_of_without? {short : String} (hname : r.headRef? = some name) {ref : Ref}
    (href : r.ref? name = some ref) (hshort : RefName.without? RefName.branches name = some short) :
    r.branch? short = some (name, ref) := by
  unfold headRef? at hname
  cases hh : r.head with
  | detached other =>
    rw [hh] at hname
    cases hname
  | attached target =>
    rw [hh] at hname
    simp [branch?, RefName.within?_branches hname hshort, href]

theorem peelCommit_object (ref : Ref) (h : History) : ref.object.peelCommit h = .ok ref.commit := by
  unfold Ref.object
  split <;> rfl

theorem follow_head (hid : r.headCommit = .ok (some id)) :
    ∃ full ref, r.follow "HEAD" = .ok (full, ref) ∧ ref.commit = id := by
  have hhead : ("HEAD" == headName) = true := rfl
  rcases headCommit_cases hid with ⟨name, ref, hname, href, hcommit⟩ | hdetached
  · refine ⟨name, ref, ?_, hcommit⟩
    unfold headRef? at hname
    cases hh : r.head with
    | detached other =>
      rw [hh] at hname
      cases hname
    | attached target =>
      rw [hh] at hname
      simp only [follow, hhead, hh, hname, href, if_true]
  · refine ⟨headName, ⟨id, none⟩, ?_, rfl⟩
    simp only [follow, hhead, hdetached, if_true]

/-- The revision `HEAD` is where the head is. -/
theorem revision_head (hid : r.headCommit = .ok (some id)) :
    ∃ ref : Ref, r.revision "HEAD" = .ok ref.object ∧ ref.commit = id := by
  obtain ⟨full, ref, hfollow, hcommit⟩ := follow_head hid
  have hvalid : RefName.isValid "HEAD" = true := by decide +kernel
  have hnamed : r.named "HEAD" = .ok (full, ref) := by
    have hreadings : ∃ others, readings "HEAD" = "HEAD" :: others := ⟨_, rfl⟩
    obtain ⟨others, hreadings⟩ := hreadings
    simp only [named, hreadings, firstOf, hvalid, hfollow, if_true]
  have hread : r.readOn "HEAD".length "HEAD".toList {} = .ok { name := ['D', 'A', 'E', 'H'] } := rfl
  have htext : Reading.text { name := ['D', 'A', 'E', 'H'] } = "HEAD" := rfl
  have hobject : r.nameObject "HEAD" = .ok ref.object := by
    have hlength : ("HEAD".length == 40) = false := rfl
    have hat : ("HEAD" == "@") = false := by decide
    simp only [nameObject, hlength, hat, Bool.false_eq_true, if_false, hnamed]
  refine ⟨ref, ?_, hcommit⟩
  simp only [revision, hread, ok_bind, reached, htext, hobject]
  rfl

/-- A head that moves stays attached to its reference. -/
theorem Moved.headRef?_eq (hm : r.Moved id r') : r'.headRef? = r.headRef? := by
  unfold headRef?
  rw [hm.head]
  cases r.head <;> rfl

/-- Whether a merge that goes back to where it was comes to the commit of the head again: by the name of
its branch, or by `HEAD`, which must not be that of another branch then. -/
def Returns (r : Repository) : Prop :=
  (∃ name short, r.headRef? = some name ∧ RefName.without? RefName.branches name = some short) ∨
    r.ref? "refs/heads/HEAD" = none

/-- Without a branch of that name, `HEAD` is the head. -/
theorem resolve_head (hnone : r.ref? "refs/heads/HEAD" = none) (hid : r.headCommit = .ok (some id)) :
    r.branch? "HEAD" = none ∧ r.resolve "HEAD" = .ok id := by
  have hbranch : r.branch? "HEAD" = none := by
    have hwithin : RefName.within? RefName.branches "HEAD" = some "refs/heads/HEAD" := by decide +kernel
    simp [branch?, hwithin, hnone]
  have hnul : FileTree.hasNul "HEAD" = false := by decide +kernel
  obtain ⟨ref, hrevision, hcommit⟩ := revision_head hid
  refine ⟨hbranch, ?_⟩
  simp only [resolve, hnul, hbranch, hrevision, peelCommit_object, hcommit]
  rfl

theorem resolve_of_branch? {text : String} {ref : Ref} {other : CommitId}
    (hbranch : r.branch? text = some (name, ref)) (h : r.resolve text = .ok other) :
    other = ref.commit := by
  unfold resolve at h
  split at h
  · cases h
  · rw [hbranch] at h
    cases h
    rfl

theorem headRef?_detached (h : r.head = .detached id) : r.headRef? = none := by
  unfold headRef?
  rw [h]

theorem normal?_of_headRef? (h : r.headRef? = some name) : RefName.normal? name = some name := by
  unfold headRef? at h
  split at h
  · exact RefName.normal?_normal? h
  · cases h

/-- Where the head is attached to no branch, `HEAD` is no branch either after the head moved. -/
theorem goes_back_unnamed (hreturns : r.Returns)
    (hunnamed : ∀ name, r.headRef? = some name → RefName.without? RefName.branches name = none)
    (hid : r'.headCommit = .ok (some id))
    (hrefs : ∀ name, r.headRef? ≠ some name → r'.ref? name = r.ref? name) :
    r'.branch? "HEAD" = none ∧ r'.resolve "HEAD" = .ok id := by
  have hnone : r.ref? "refs/heads/HEAD" = none := by
    rcases hreturns with ⟨name, short, hname, hshort⟩ | hnone
    · rw [hunnamed name hname] at hshort
      cases hshort
    · exact hnone
  have hother : r.headRef? ≠ some "refs/heads/HEAD" := by
    intro hname
    have hshort : RefName.without? RefName.branches "refs/heads/HEAD" = some "HEAD" := by decide +kernel
    rw [hunnamed _ hname] at hshort
    cases hshort
  exact resolve_head ((hrefs _ hother).trans hnone) hid

/-- What a merge goes back to, the head having moved from `r` to `r'`: the branch that it is attached to,
or else the commit. -/
theorem goes_back {ours : CommitId} {current : Option String} (hreturns : r.Returns)
    (hours : r.headCommit = .ok (some ours)) (hcurrent : r.currentBranch = .ok current)
    (hid : r'.headCommit = .ok (some id)) (hhead : r'.headRef? = r.headRef?)
    (hrefs : ∀ name, r.headRef? ≠ some name → r'.ref? name = r.ref? name) :
    (∃ name ref, r.headRef? = some name ∧ r'.branch? (current.getD "HEAD") = some (name, ref) ∧
        ref.commit = id) ∨
      (∀ name, r.headRef? = some name → RefName.without? RefName.branches name = none) ∧
        r'.branch? (current.getD "HEAD") = none ∧ r'.resolve (current.getD "HEAD") = .ok id := by
  rcases headCommit_cases hours with ⟨name, ref, hname, href, _⟩ | hdetached
  · rw [currentBranch_born hname href, Except.ok.injEq] at hcurrent
    cases hshort : RefName.without? RefName.branches name with
    | some short =>
      left
      rcases headCommit_cases hid with ⟨name', ref', hname', href', hcommit⟩ | hdetached
      · have hsame : name' = name := by
          rw [hhead, hname] at hname'
          exact (Option.some.inj hname').symm
        subst hsame
        rw [← hcurrent, hshort]
        exact ⟨name', ref', hname, branch?_of_without? hname' href' hshort, hcommit⟩
      · rw [headRef?_detached hdetached, hname] at hhead
        cases hhead
    | none =>
      right
      have hunnamed : ∀ name, r.headRef? = some name → RefName.without? RefName.branches name = none := by
        intro name' hname'
        rw [hname] at hname'
        cases hname'
        exact hshort
      rw [← hcurrent, hshort]
      exact ⟨hunnamed, goes_back_unnamed hreturns hunnamed hid hrefs⟩
  · right
    have hunnamed : ∀ name, r.headRef? = some name → RefName.without? RefName.branches name = none := by
      intro name hname
      rw [headRef?_detached hdetached] at hname
      cases hname
    have hplain : current = none := by
      simp only [currentBranch, hdetached, Except.ok.injEq] at hcurrent
      exact hcurrent.symm
    rw [hplain]
    exact ⟨hunnamed, goes_back_unnamed hreturns hunnamed hid hrefs⟩

end Repository

/-! ## The calls of a merge -/

namespace Workspace

variable {dir : String} {tree : FileTree} {w w' mid : Workspace} {r : Repository}

/-- A command that merges asks for the branch, merges, and goes back. -/
theorem refreshed_of_ok {theirs : String} {info : CommitInfo}
    (hok : ((Command.merge theirs info).replay (backend dir)).runOn w = (.ok (), w')) :
    ∃ r current a b mid, w.repository = some r ∧ r.currentBranch = .ok current ∧
      answer dir (.merge theirs info false .theirs) w = (.ok a, mid) ∧
      answer dir (.checkout (current.getD "HEAD")) mid = (.ok b, w') := by
  obtain ⟨current, w₁, hcurrent, hrest⟩ := bind_of_ok hok
  obtain ⟨a, b, mid, hmerge, hcheckout⟩ := runOn_discard_seq hrest
  have hanswer : answer dir .currentBranch w = (.ok current, w₁) := hcurrent
  cases hr : w.repository with
  | none =>
    simp only [answer, hr] at hanswer
    cases hanswer
  | some r =>
    simp only [answer, hr, answerIn] at hanswer
    cases hbranch : r.currentBranch with
    | error e =>
      rw [hbranch] at hanswer
      cases hanswer
    | ok name =>
      rw [hbranch] at hanswer
      cases hanswer
      exact ⟨r, current, a, b, mid, rfl, hbranch, hmerge, hcheckout⟩

/-- A merge that may not go ahead records a commit, unless there is nothing to merge. The head stays
attached to its reference, and no other reference moves. -/
theorem merge_of_ok {reference : String} {info : CommitInfo} {policy : Policy} {a : Option String}
    (hr : w.repository = some r)
    (hok : answer dir (.merge reference info false policy) w = (.ok a, mid)) :
    ∃ ours theirs id r₁, r.headCommit = .ok (some ours) ∧ r.resolve reference = .ok theirs ∧
      mid = w.keep r₁ ∧ r₁.headCommit = .ok (some id) ∧ r₁.headRef? = r.headRef? ∧
      (∀ name, r.headRef? ≠ some name → r₁.ref? name = r.ref? name) ∧ r₁.index = r.index ∧
      (r.history.isIn theirs ours = true ∧ id = ours ∧ r₁.history = r.history ∨
        r.history.isIn theirs ours = false ∧ id = r.history.length ∧
          ∃ c, c.parents = [ours, theirs] ∧ c.Bears info ∧ r₁.history = r.history.add c) := by
  have hanswer := answer_answers dir hr (.merge reference info false policy)
  rw [hok] at hanswer
  cases hanswer with
  | @contained _ _ _ _ ours theirs hours htheirs hin =>
    have hkeep : w = w.keep r := by rw [keep, ← hr]
    exact ⟨ours, theirs, ours, r, hours, htheirs, hkeep, hours, rfl, fun _ _ => rfl, rfl,
      .inl ⟨hin, rfl, rfl⟩⟩
  | @merged _ _ _ _ ours theirs c r₁ hours htheirs hin hff hparents htree hbears hrec =>
    refine ⟨ours, theirs, r.history.length, r₁, hours, htheirs, rfl, hrec.headCommit,
      hrec.toMoved.headRef?_eq, ?_, hrec.index, .inr ⟨hin, rfl, c, hparents, hbears, hrec.history⟩⟩
    intro name hname
    rw [hrec.ref, if_neg hname]
  | wrote hc hin hw => cases hc

theorem checkout_of_ok {reference : String} {b : Option String} (hr : mid.repository = some r)
    (hok : answer dir (.checkout reference) mid = (.ok b, w')) :
    ∃ id c, r.resolve reference = .ok id ∧
      Checkout.run ⟨mid.tree, r.index⟩ (headTree r) (r.history.tree id) = (.ok (), c) ∧
      w' = { mid with tree := c.tree }.keep
        ({ r with index := c.index, saved := c.index }.turn (nextHead r reference id) id) := by
  have hanswer := answer_answers dir hr (.checkout reference)
  rw [hok] at hanswer
  cases hanswer with
  | @turned _ id c hid hc => exact ⟨id, c, hid, hc, rfl⟩
  | wrote hc hin hw => cases hc

/-- What is checked out again, and where the head is put. -/
theorem headCommit_turn {reference : String} {id : CommitId} (index saved : Tree)
    (hplace : (∃ name ref, r.headRef? = some name ∧ r.branch? reference = some (name, ref) ∧
      ref.commit = id) ∨ r.branch? reference = none) :
    ({ r with index, saved }.turn (nextHead r reference id) id).headCommit = .ok (some id) := by
  rcases hplace with ⟨name, ref, hname, hbranch, hcommit⟩ | hnone
  · have hnext : nextHead r reference id = .attached name := by rw [nextHead, hbranch]
    have hhead : ({ r with index, saved }.turn (nextHead r reference id) id).headRef? = some name := by
      rw [hnext]
      exact Repository.normal?_of_headRef? hname
    have href : ({ r with index, saved }.turn (nextHead r reference id) id).ref? name = some ref :=
      (Repository.ref?_of_branch? hbranch).2
    rw [Repository.headCommit_attached hhead, href, ← hcommit]
    rfl
  · have hnext : nextHead r reference id = .detached id := by rw [nextHead, hnone]
    apply Repository.headCommit_detached
    rw [hnext]
    rfl

/-- A merge that returns checks out the commit that the head came to, and the head stays there. -/
theorem headCommit_back {r₁ : Repository} {ours id id' : CommitId} {current : Option String} (hreturns : r.Returns)
    (hours : r.headCommit = .ok (some ours)) (hcurrent : r.currentBranch = .ok current)
    (hid : r₁.headCommit = .ok (some id)) (hhead : r₁.headRef? = r.headRef?)
    (hrefs : ∀ name, r.headRef? ≠ some name → r₁.ref? name = r.ref? name)
    (hresolve : r₁.resolve (current.getD "HEAD") = .ok id') (index saved : Tree) : id' = id ∧
      ({ r₁ with index, saved }.turn (nextHead r₁ (current.getD "HEAD") id') id').headCommit = .ok (some id') := by
  rcases Repository.goes_back hreturns hours hcurrent hid hhead hrefs with
    ⟨name, ref, hname, hbranch, hcommit⟩ | ⟨_, hbranch, hto⟩
  · have hsame : id' = id := (Repository.resolve_of_branch? hbranch hresolve).trans hcommit
    refine ⟨hsame, headCommit_turn index saved (.inl ⟨name, ref, hhead.trans hname, hbranch, ?_⟩)⟩
    exact hcommit.trans hsame.symm
  · rw [hto] at hresolve
    exact ⟨(Except.ok.inj hresolve).symm, headCommit_turn index saved (.inr hbranch)⟩

/-- Two branches that go apart after the first commit; one of them changes a file. -/
def parted : List Call :=
  [.init "main", .writeFile "a" "1", .stage .all, .commit ⟨"one", "ann", "ann@mail"⟩, .createBranch "side",
    .writeFile "a" "2", .stage .all, .commit ⟨"two", "ann", "ann@mail"⟩, .checkout "side",
    .commit ⟨"three", "ann", "ann@mail"⟩]

/-- What commands leave of an empty directory. -/
def played (cs : List Command) : Except RepositoryError Unit × Workspace := (replay (backend ".") cs).runOn {}

/-- A change that is staged, and then taken back in the working tree only. -/
def takenBack : List Command :=
  [.init "main", .createFile "a" "1", .commit ⟨"one", "ann", "ann@mail"⟩, .changeContent "a" "22",
    .add (.file "a"), .changeContent "a" "1"]

/-- A branch that is called `HEAD`, and a head that has left it. -/
def misnamed : List Command :=
  [.init "HEAD", .createFile "a" "1", .commit ⟨"one", "ann", "ann@mail"⟩, .tag "v1" none,
    .changeContent "a" "2", .commit ⟨"two", "ann", "ann@mail"⟩, .tag "v2" none, .checkout "v1",
    .commit ⟨"three", "ann", "ann@mail"⟩]

/-- A head that is attached to a reference that is no branch. -/
def elsewhere : List Command :=
  [.init "refs/foo/main", .createFile "a" "1", .commit ⟨"one", "ann", "ann@mail"⟩]

end Workspace

end Chronicle
