import Chronicle.Repository.Checkout
import Chronicle.Repository.Revision
import Chronicle.Merge.Trees

/-!
# Workspaces

A workspace is a working tree with the repository in it, which is there from the first `init` on.
`Workspace.backend` is the backend that replays commands on it. Only writing to files needs no
repository; a call that fails leaves at most new directories, entries in the index that are not written
down, or files that a checkout got to.
-/

namespace Chronicle

/-- A working tree and its repository. -/
structure Workspace where
  tree : FileTree := {}
  repository : Option Repository := none
  deriving DecidableEq

namespace Workspace

/-- What a call comes to, and the workspace it leaves. -/
abbrev Outcome := Except RepositoryError (Option String) × Workspace

/-- A call that is done and has nothing to say. -/
def done (w : Workspace) : Outcome := (.ok none, w)

/-- A call that fails and changes nothing. -/
def failed (w : Workspace) (e : RepositoryError) : Outcome := (.error e, w)

/-- Puts a repository into a workspace. -/
def keep (w : Workspace) (r : Repository) : Workspace := { w with repository := some r }

/-- The error of a call that needs a repository. -/
def noRepository (dir : String) : RepositoryError :=
  .notFound ("no repository in " ++ dir ++ " (the log must start with init)")

/-- The commit that the head is at, which there has to be to do what `action` says. -/
def bornHead (r : Repository) (action : String) : Except RepositoryError CommitId :=
  match r.headCommit with
  | .error e => .error (.refused e)
  | .ok none => .error (.unborn ("cannot " ++ action ++ " before the first commit"))
  | .ok (some id) => .ok id

/-! ## What there is to see -/

/-- Whether there is a repository. -/
def isInitialized (w : Workspace) : Bool := w.repository.isSome

/-- The commit that the head is at; none without a repository. -/
def headCommit (w : Workspace) : Except Fault (Option CommitId) :=
  match w.repository with
  | some r => r.headCommit
  | none => .ok none

/-! ## Calls -/

/-- Makes a repository, or opens the one that is there, which keeps its head. -/
def init (w : Workspace) (branch : String) : Outcome :=
  if FileTree.hasNul branch then w.failed (.refused .general)
  else
    match w.repository with
    | none => (w.keep (.empty branch)).done
    | some r => (w.keep r.reopened).done

/-- Stages paths. The index is only written down when all went well. -/
def stage (w : Workspace) (r : Repository) : Pathspec → Outcome
  | .all =>
    match stageAll w.tree r.index with
    | (.ok (), index) => (w.keep { r with index, saved := index }).done
    | (.error e, index) => (w.keep { r with index }).failed (.refused e)
  | .file path =>
    match stageFile w.tree path r.index with
    | .ok index => (w.keep { r with index, saved := index }).done
    | .error e => w.failed (.refused e)

/-- The commit that `info` makes of some files after some parents. -/
def draft (info : CommitInfo) (parents : List CommitId) (tree : Tree) : Except Fault Commit :=
  match info.signature?, info.stored? with
  | some s, some message => .ok ⟨parents, message, s, s, tree⟩
  | _, _ => .error .general

/-- Commits what is staged. -/
def commit (w : Workspace) (r : Repository) (info : CommitInfo) : Outcome :=
  let step : Except Fault Repository := do
    let c ← draft info [] r.index
    let parent ← r.headCommit
    let (_, r) ← r.record { c with parents := parent.toList }
    return r
  match step with
  | .ok r => (w.keep r).done
  | .error e => w.failed (.refused e)

/-- Adds a branch where the head is. -/
def createBranch (w : Workspace) (r : Repository) (name : String) : Outcome :=
  match bornHead r ("create branch " ++ name) with
  | .error e => w.failed e
  | .ok id =>
    match r.addBranch name id with
    | .ok r => (w.keep r).done
    | .error e => w.failed (.refused e)

/-- Adds a tag where the head is; with `info` it is annotated. -/
def tag (w : Workspace) (r : Repository) (name : String) (info : Option CommitInfo) : Outcome :=
  match bornHead r ("tag " ++ name) with
  | .error e => w.failed e
  | .ok id =>
    let note : Except Fault (Option TagNote) :=
      match info with
      | none => .ok none
      | some i =>
        match i.signature?, i.stored? with
        | some s, some message => .ok (some ⟨name, message, s⟩)
        | _, _ => .error .general
    match note.bind fun note => r.addTag name id note with
    | .ok r => (w.keep r).done
    | .error e => w.failed (.refused e)

/-- The files of the commit that the head is at. -/
def headTree (r : Repository) : Tree :=
  match r.headCommit with
  | .ok (some id) => r.history.tree id
  | _ => {}

/-- Brings the working tree and the index from some files to others, and then the repository to what
`after` makes of it. -/
def checkOut (w : Workspace) (r : Repository) (old new : Tree) (after : Repository → Repository) : Outcome :=
  match Checkout.run ⟨w.tree, r.index⟩ old new with
  | (.ok (), c) => (({ w with tree := c.tree }).keep (after { r with index := c.index, saved := c.index })).done
  | (.error e, c) => (({ w with tree := c.tree }).keep { r with index := c.index }).failed (.refused e)

/-- Goes to a branch, or to the commit of a revision, which detaches the head. -/
def checkout (w : Workspace) (r : Repository) (reference : String) : Outcome :=
  match r.resolve reference with
  | .error e => w.failed e
  | .ok id =>
    let head : Head :=
      match r.branch? reference with
      | some (name, _) => .attached name
      | none => .detached id
    w.checkOut r (headTree r) (r.history.tree id) fun r => r.turn head id

/-- Makes the commit of a merge. -/
def recordMerge (w : Workspace) (r : Repository) (ours theirs : CommitId) (reference : String)
    (info : CommitInfo) (policy : Policy) : Outcome :=
  match (mergeCommits r.history policy.favor ours theirs).resolve policy reference with
  | .error e => w.failed e
  | .ok tree =>
    match (draft info [ours, theirs] tree).bind r.record with
    | .ok (_, r) => (w.keep r).done
    | .error e => w.failed (.refused e)

/-- Merges a commit into the head's. What the head descends from is merged already; where the head is
behind it may just move ahead. -/
def merge (w : Workspace) (r : Repository) (reference : String) (info : CommitInfo) (fastForward : Bool)
    (policy : Policy) : Outcome :=
  let sides : Except RepositoryError (CommitId × CommitId) := do
    let ours ← bornHead r ("merge " ++ reference)
    let theirs ← r.resolve reference
    return (ours, theirs)
  match sides with
  | .error e => w.failed e
  | .ok (ours, theirs) =>
    if r.history.isIn theirs ours then w.done
    else if fastForward && r.history.isIn ours theirs then
      match r.advance theirs with
      | .error e => w.failed (.refused e)
      | .ok r => w.checkOut r (r.history.tree theirs) (r.history.tree theirs) id
    else w.recordMerge r ours theirs reference info policy

/-- Writes a file of the working tree. -/
def write (w : Workspace) (path : String) (new : Option String → String) : Outcome :=
  if !FileTree.isInside path then w.failed (.invalidPath path)
  else
    match w.tree.write path new with
    | (.ok (), tree) => { w with tree }.done
    | (.error e, tree) => { w with tree }.failed (.io e)

/-- Answers a call that needs a repository. -/
def answerIn (w : Workspace) (r : Repository) : Call → Outcome
  | .init branch => w.init branch
  | .stage paths => w.stage r paths
  | .commit info => w.commit r info
  | .createBranch name => w.createBranch r name
  | .checkout reference => w.checkout r reference
  | .currentBranch =>
    match r.currentBranch with
    | .ok name => (.ok name, w)
    | .error e => w.failed (.refused e)
  | .merge theirs info fastForward policy => w.merge r theirs info fastForward policy
  | .tag name => w.tag r name none
  | .annotatedTag name info => w.tag r name (some info)
  | .writeFile path content => w.write path (FileTree.replaced content)
  | .appendFile path content => w.write path (FileTree.extended content)

/-- Answers a call on the workspace of the directory `dir`. -/
def answer (dir : String) (c : Call) (w : Workspace) : Outcome :=
  match c with
  | .init branch => w.init branch
  | .writeFile path content => w.write path (FileTree.replaced content)
  | .appendFile path content => w.write path (FileTree.extended content)
  | c =>
    match w.repository with
    | some r => w.answerIn r c
    | none => w.failed (noRepository dir)

/-- The backend that works on the directory `dir`. -/
def backend (dir : String) : Backend Workspace RepositoryError where
  answer := answer dir

end Workspace

end Chronicle
