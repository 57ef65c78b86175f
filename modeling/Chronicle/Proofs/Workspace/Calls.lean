import Chronicle.Proofs.Repository.Resolution
import Chronicle.Repository.Workspace

/-!
# What a call can do

`Workspace.Answers` lists everything that can come of a call on a workspace with a repository: what is
answered, which workspace is left, and under which conditions. **Every call comes to one of these**
(`Workspace.answerIn_answers`), and later modules go through the list instead of through the functions.

Commits are said to bear what is asked for (`Commit.Bears`) when message and authorship are.
-/

namespace Chronicle

open Outcome

/-! ## Commits and their wording -/

/-- A commit has the message of `info`, ended by a line feed, and is made by the one that `info` names,
stray characters around the name and the address left out. -/
structure Commit.Bears (c : Commit) (info : CommitInfo) : Prop where
  message : c.message =
    if info.message.toList.getLast? = some '\n' then info.message else info.message ++ "\n"
  author : c.author = ⟨Signature.bare info.author, Signature.bare info.email⟩
  committer : c.committer = ⟨Signature.bare info.author, Signature.bare info.email⟩

theorem CommitInfo.signature?_eq {info : CommitInfo} {s : Signature} (h : info.signature? = some s) :
    s = ⟨Signature.bare info.author, Signature.bare info.email⟩ := by
  unfold CommitInfo.signature? Signature.make? at h
  dsimp only at h
  split at h
  · cases h
  · split at h
    · cases h
    · split at h
      · cases h
      · cases h
        rfl

theorem CommitInfo.stored?_eq {info : CommitInfo} {m : String} (h : info.stored? = some m) :
    m = if info.message.toList.getLast? = some '\n' then info.message else info.message ++ "\n" := by
  unfold CommitInfo.stored? CommitInfo.stored at h
  split at h
  · cases h
  · cases h
    simp only [beq_iff_eq]

namespace Workspace

theorem draft_eq_ok {info : CommitInfo} {parents : List CommitId} {tree : Tree} {c : Commit}
    (h : draft info parents tree = .ok c) : c.parents = parents ∧ c.tree = tree ∧ c.Bears info := by
  unfold draft at h
  split at h
  · rename_i s m hs hm
    cases h
    have hsig := CommitInfo.signature?_eq hs
    exact ⟨rfl, rfl, CommitInfo.stored?_eq hm, hsig, hsig⟩
  · cases h

/-! ## The list -/

/-- The files of the working tree that a call writes, and how. -/
def written? : Call → Option (String × (Option String → String))
  | .writeFile path content => some (path, FileTree.replaced content)
  | .appendFile path content => some (path, FileTree.extended content)
  | _ => none

/-- Where the head goes when `reference` is checked out, which leads to commit `id`. -/
def nextHead (r : Repository) (reference : String) (id : CommitId) : Head :=
  match r.branch? reference with
  | some (name, _) => .attached name
  | none => .detached id

/-- What can come of a call on a workspace `w` with the repository `r`. -/
inductive Answers (w : Workspace) (r : Repository) : Call → Outcome → Prop
  /-- Any call may be refused. -/
  | refused (c : Call) (e : RepositoryError) : Answers w r c (.error e, w)
  | reopened (branch : String) : Answers w r (.init branch) (.ok none, w.keep r.reopened)
  | told (name : Option String) : Answers w r .currentBranch (.ok name, w)
  | stagedAll {index : Tree} (hs : stageAll w.tree r.index = (.ok (), index)) :
      Answers w r (.stage .all) (.ok none, w.keep { r with index, saved := index })
  /-- Staging ended early; what was staged before is not written down. -/
  | stagedSome {index : Tree} {e : Fault} (hs : stageAll w.tree r.index = (.error e, index)) :
      Answers w r (.stage .all) (.error (.refused e), w.keep { r with index })
  | stagedFile {path : String} {index : Tree} (hs : stageFile w.tree path r.index = .ok index) :
      Answers w r (.stage (.file path)) (.ok none, w.keep { r with index, saved := index })
  | committed {info : CommitInfo} {parent : Option CommitId} {c : Commit} {r' : Repository}
      (hparent : r.headCommit = .ok parent) (hparents : c.parents = parent.toList)
      (htree : c.tree = r.index) (hbears : c.Bears info) (hrec : r.Recorded c r') :
      Answers w r (.commit info) (.ok none, w.keep r')
  | branched {name full : String} {id : CommitId} {r' : Repository}
      (hid : r.headCommit = .ok (some id))
      (hfull : RefName.within? RefName.branches name = some full) (ha : r.Added full ⟨id, none⟩ r') :
      Answers w r (.createBranch name) (.ok none, w.keep r')
  | tagged {name full : String} {id : CommitId} {r' : Repository}
      (hid : r.headCommit = .ok (some id))
      (hfull : RefName.within? RefName.tags name = some full) (ha : r.Added full ⟨id, none⟩ r') :
      Answers w r (.tag name) (.ok none, w.keep r')
  | annotated {name full : String} {info : CommitInfo} {id : CommitId} {note : TagNote}
      {r' : Repository} (hid : r.headCommit = .ok (some id))
      (hfull : RefName.within? RefName.tags name = some full) (hname : note.name = name)
      (hmessage : info.stored? = some note.message) (htagger : info.signature? = some note.tagger)
      (ha : r.Added full ⟨id, some note⟩ r') :
      Answers w r (.annotatedTag name info) (.ok none, w.keep r')
  | turned {reference : String} {id : CommitId} {c : Checkout} (hid : r.resolve reference = .ok id)
      (hc : Checkout.run ⟨w.tree, r.index⟩ (headTree r) (r.history.tree id) = (.ok (), c)) :
      Answers w r (.checkout reference) (.ok none, { w with tree := c.tree }.keep
        ({ r with index := c.index, saved := c.index }.turn (nextHead r reference id) id))
  /-- A file could not be written; the files before it were. -/
  | turnedPartly {reference : String} {id : CommitId} {c : Checkout} {e : Fault}
      (hid : r.resolve reference = .ok id)
      (hc : Checkout.run ⟨w.tree, r.index⟩ (headTree r) (r.history.tree id) = (.error e, c)) :
      Answers w r (.checkout reference) (.error (.refused e),
        { w with tree := c.tree }.keep { r with index := c.index })
  /-- There is nothing to merge. -/
  | contained {reference : String} {info : CommitInfo} {fastForward : Bool} {policy : Policy}
      {ours theirs : CommitId} (hours : r.headCommit = .ok (some ours))
      (htheirs : r.resolve reference = .ok theirs) (hin : r.history.isIn theirs ours = true) :
      Answers w r (.merge reference info fastForward policy) (.ok none, w)
  | forwarded {reference : String} {info : CommitInfo} {policy : Policy} {ours theirs : CommitId}
      {r' : Repository} {c : Checkout} (hours : r.headCommit = .ok (some ours))
      (htheirs : r.resolve reference = .ok theirs) (hin : r.history.isIn ours theirs = true)
      (hhist : r'.history = r.history) (hm : r.Moved theirs r')
      (hc : Checkout.run ⟨w.tree, r'.index⟩ (r'.history.tree theirs) (r'.history.tree theirs)
        = (.ok (), c)) :
      Answers w r (.merge reference info true policy) (.ok none,
        { w with tree := c.tree }.keep { r' with index := c.index, saved := c.index })
  /-- The head moved ahead, and then a file could not be written. -/
  | forwardedPartly {reference : String} {info : CommitInfo} {policy : Policy}
      {ours theirs : CommitId} {r' : Repository} {c : Checkout} {e : Fault}
      (hours : r.headCommit = .ok (some ours)) (htheirs : r.resolve reference = .ok theirs)
      (hin : r.history.isIn ours theirs = true) (hhist : r'.history = r.history)
      (hm : r.Moved theirs r')
      (hc : Checkout.run ⟨w.tree, r'.index⟩ (r'.history.tree theirs) (r'.history.tree theirs)
        = (.error e, c)) :
      Answers w r (.merge reference info true policy) (.error (.refused e),
        { w with tree := c.tree }.keep { r' with index := c.index })
  | merged {reference : String} {info : CommitInfo} {fastForward : Bool} {policy : Policy}
      {ours theirs : CommitId} {c : Commit} {r' : Repository}
      (hours : r.headCommit = .ok (some ours)) (htheirs : r.resolve reference = .ok theirs)
      (hin : r.history.isIn theirs ours = false)
      (hff : (fastForward && r.history.isIn ours theirs) = false)
      (hparents : c.parents = [ours, theirs])
      (htree : (mergeCommits r.history policy.favor ours theirs).resolve policy reference = .ok c.tree)
      (hbears : c.Bears info) (hrec : r.Recorded c r') :
      Answers w r (.merge reference info fastForward policy) (.ok none, w.keep r')
  | wrote {c : Call} {path : String} {new : Option String → String} {tree : FileTree}
      (hc : written? c = some (path, new)) (hin : FileTree.isInside path = true)
      (hw : w.tree.write path new = (.ok (), tree)) : Answers w r c (.ok none, { w with tree })
  /-- The file could not be written, but directories on the way to it may be new. -/
  | wroteNothing {c : Call} {path : String} {new : Option String → String} {tree : FileTree}
      {e : IoFault} (hc : written? c = some (path, new)) (hin : FileTree.isInside path = true)
      (hw : w.tree.write path new = (.error e, tree)) : Answers w r c (.error (.io e), { w with tree })

/-! ## Each call is on the list -/

section

variable {w : Workspace} {r : Repository}

theorem bornHead_eq_ok {action : String} {id : CommitId} (h : bornHead r action = .ok id) :
    r.headCommit = .ok (some id) := by
  unfold bornHead at h
  split at h
  · cases h
  · cases h
  · rename_i hid
    cases h
    exact hid

theorem init_answers (h : w.repository = some r) (branch : String) :
    Answers w r (.init branch) (w.init branch) := by
  unfold init
  split
  · exact .refused _ _
  · rw [h]
    exact .reopened branch

theorem stage_answers (paths : Pathspec) : Answers w r (.stage paths) (w.stage r paths) := by
  unfold stage
  split
  · split
    · rename_i index hs
      exact .stagedAll hs
    · rename_i e index hs
      exact .stagedSome hs
  · split
    · rename_i index hs
      exact .stagedFile hs
    · exact .refused _ _

theorem commit_answers (info : CommitInfo) : Answers w r (.commit info) (w.commit r info) := by
  unfold commit
  dsimp only
  split
  · rename_i r' hstep
    obtain ⟨c, hc, hstep⟩ := bind_eq_ok.mp hstep
    obtain ⟨parent, hparent, hstep⟩ := bind_eq_ok.mp hstep
    obtain ⟨⟨id, r''⟩, hrec, hstep⟩ := bind_eq_ok.mp hstep
    cases hstep
    obtain ⟨_, htree, hbears⟩ := draft_eq_ok hc
    -- the draft is made before it is known what it comes after
    have hbears' : Commit.Bears { c with parents := parent.toList } info :=
      ⟨hbears.message, hbears.author, hbears.committer⟩
    refine .committed hparent ?_ ?_ hbears' (Repository.Recorded.of_record hrec).2
    · rfl
    · exact htree
  · exact .refused _ _

theorem createBranch_answers (name : String) :
    Answers w r (.createBranch name) (w.createBranch r name) := by
  unfold createBranch
  split
  · exact .refused _ _
  · rename_i id hid
    split
    · rename_i r' ha
      obtain ⟨full, hfull, ha⟩ := Repository.Added.of_addBranch ha
      exact .branched (bornHead_eq_ok hid) hfull ha
    · exact .refused _ _

theorem tag_answers (name : String) : Answers w r (.tag name) (w.tag r name none) := by
  unfold tag
  split
  · exact .refused _ _
  · rename_i id hid
    dsimp only [Except.bind]
    split
    · rename_i r' ha
      obtain ⟨full, hfull, ha⟩ := Repository.Added.of_addTag ha
      exact .tagged (bornHead_eq_ok hid) hfull ha
    · exact .refused _ _

theorem annotatedTag_answers (name : String) (info : CommitInfo) :
    Answers w r (.annotatedTag name info) (w.tag r name (some info)) := by
  unfold tag
  split
  · exact .refused _ _
  · rename_i id hid
    dsimp only
    split
    · rename_i r' hbind
      obtain ⟨note, hnote, ha⟩ := bind_eq_ok.mp hbind
      split at hnote
      · rename_i s m hs hm
        cases hnote
        obtain ⟨full, hfull, ha⟩ := Repository.Added.of_addTag ha
        exact .annotated (bornHead_eq_ok hid) hfull rfl hm hs ha
      · cases hnote
    · exact .refused _ _

theorem checkout_answers (reference : String) :
    Answers w r (.checkout reference) (w.checkout r reference) := by
  unfold checkout
  split
  · exact .refused _ _
  · rename_i id hid
    dsimp only [checkOut]
    split
    · rename_i c hc
      exact .turned hid hc
    · rename_i e c hc
      exact .turnedPartly hid hc

theorem recordMerge_answers {reference : String} {info : CommitInfo} {fastForward : Bool}
    {policy : Policy} {ours theirs : CommitId} (hours : r.headCommit = .ok (some ours))
    (htheirs : r.resolve reference = .ok theirs) (hin : r.history.isIn theirs ours = false)
    (hff : (fastForward && r.history.isIn ours theirs) = false) :
    Answers w r (.merge reference info fastForward policy)
      (w.recordMerge r ours theirs reference info policy) := by
  unfold recordMerge
  split
  · exact .refused _ _
  · rename_i tree htree
    split
    · rename_i id r' hbind
      obtain ⟨c, hc, hrec⟩ := bind_eq_ok.mp hbind
      obtain ⟨hparents, hctree, hbears⟩ := draft_eq_ok hc
      exact .merged hours htheirs hin hff hparents (hctree ▸ htree) hbears
        (Repository.Recorded.of_record hrec).2
    · exact .refused _ _

theorem merge_answers (reference : String) (info : CommitInfo) (fastForward : Bool)
    (policy : Policy) : Answers w r (.merge reference info fastForward policy)
      (w.merge r reference info fastForward policy) := by
  unfold merge
  dsimp only
  split
  · exact .refused _ _
  · rename_i ours theirs hsides
    obtain ⟨o, ho, hsides⟩ := bind_eq_ok.mp hsides
    obtain ⟨t, ht, hsides⟩ := bind_eq_ok.mp hsides
    cases hsides
    have hours := bornHead_eq_ok ho
    split
    · rename_i hin
      exact .contained hours ht hin
    · rename_i hin
      split
      · -- the head may just move ahead, and then its files are checked out
        rename_i hff
        obtain ⟨hflag, hahead⟩ := Bool.and_eq_true_iff.mp hff
        subst hflag
        split
        · exact .refused _ _
        · rename_i r' ha
          obtain ⟨hhist, hm⟩ := Repository.Moved.of_advance ha
          dsimp only [checkOut]
          split
          · rename_i c hc
            exact .forwarded hours ht hahead hhist hm hc
          · rename_i e c hc
            exact .forwardedPartly hours ht hahead hhist hm hc
      · rename_i hff
        exact recordMerge_answers hours ht (Bool.eq_false_iff.mpr hin) (Bool.eq_false_iff.mpr hff)

theorem write_answers {c : Call} {path : String} {new : Option String → String}
    (hc : written? c = some (path, new)) : Answers w r c (w.write path new) := by
  unfold write
  split
  · exact .refused _ _
  · rename_i hin
    have hinside : FileTree.isInside path = true := by simpa using hin
    split
    · rename_i tree hw
      exact .wrote hc hinside hw
    · rename_i e tree hw
      exact .wroteNothing hc hinside hw

/-- **Every call comes to something on the list.** -/
theorem answerIn_answers (h : w.repository = some r) (c : Call) : Answers w r c (w.answerIn r c) := by
  cases c with
  | init branch => exact init_answers h branch
  | stage paths => exact stage_answers paths
  | commit info => exact commit_answers info
  | createBranch name => exact createBranch_answers name
  | checkout reference => exact checkout_answers reference
  | currentBranch =>
    unfold answerIn
    dsimp only
    split
    · exact .told _
    · exact .refused _ _
  | merge theirs info fastForward policy => exact merge_answers theirs info fastForward policy
  | tag name => exact tag_answers name
  | annotatedTag name info => exact annotatedTag_answers name info
  | writeFile path content => exact write_answers rfl
  | appendFile path content => exact write_answers rfl

theorem answer_of_some (dir : String) (h : w.repository = some r) (c : Call) :
    answer dir c w = w.answerIn r c := by
  cases c <;> simp [answer, answerIn, h]

theorem answer_answers (dir : String) (h : w.repository = some r) (c : Call) :
    Answers w r c (answer dir c w) := by
  rw [answer_of_some dir h]
  exact answerIn_answers h c

end

end Workspace

end Chronicle
