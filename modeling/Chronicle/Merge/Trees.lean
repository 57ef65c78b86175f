import Chronicle.Merge.Rename
import Chronicle.Replay.Basic
import Chronicle.Repository.Error

/-!
# Merging commits

`mergeTrees` merges the files of two commits that come from one base: each path by itself, its text line
by line where both sides changed it. A file that one side moved is merged with what it was. What does not
fit together is a conflict, which `MergeIndex.resolve` settles as the policy says. Where two commits have
several bases, `baseTree` merges those first.
-/

namespace Chronicle

/-- A path at which both sides made changes that do not fit together. -/
structure Conflict where
  path : Path
  base : Option String
  ours : Option String
  theirs : Option String
  deriving DecidableEq

/-- What comes of merging trees: the files that are settled, and the conflicts in the order of their
paths. -/
structure MergeIndex where
  files : Tree := {}
  conflicts : List Conflict := []
  deriving DecidableEq

namespace MergeIndex

/-- What a side has at the path of a conflict. -/
def kept (side : Side) (c : Conflict) : Option String :=
  match side with
  | .ours => c.ours
  | .theirs => c.theirs

/-- Settles a conflict in favour of a side: its file takes the place of all that could not stand beside
it, and where it has none nothing is put there. -/
def settle (side : Side) (files : Tree) (c : Conflict) : Tree :=
  match kept side c with
  | some content => files.displace c.path content
  | none => files

/-- Settles every conflict in favour of a side. -/
def settleAll (side : Side) (m : MergeIndex) : Tree := m.conflicts.foldl (settle side) m.files

/-- The files of the merge of `theirs`, under a policy. Where a file and a directory of one path are left,
the directory stays. -/
def resolve (policy : Policy) (theirs : String) (m : MergeIndex) : Except RepositoryError Tree :=
  match policy with
  | .theirs => .ok (m.settleAll .theirs).lowest
  | .ours => .ok (m.settleAll .ours).lowest
  | .fail =>
    if m.conflicts.isEmpty then .ok m.files.lowest
    else .error (.conflict theirs (m.conflicts.map fun c => c.path.render))

end MergeIndex

/-- The side that a policy lets win. -/
def Policy.favor : Policy → Option Side
  | theirs => some .theirs
  | ours => some .ours
  | fail => none

/-! ## Trees -/

/-- The conflicts of files that are not settled: each file is a conflict at all the places it has. -/
def Conflict.at (unsettled : List Versions) : List Conflict :=
  let places := unsettled.flatMap fun v =>
    (v.base.map fun _ => v.path).toList ++ (v.ours.map fun _ => v.oursAt).toList ++
      (v.theirs.map fun _ => v.theirsAt).toList
  (Path.sorted places).map fun p =>
    { path := p
      base := unsettled.findSome? fun v => if v.path = p then v.base else none
      ours := unsettled.findSome? fun v => if v.oursAt = p then v.ours else none
      theirs := unsettled.findSome? fun v => if v.theirsAt = p then v.theirs else none }

/-- Merges the files of two commits that come from one base. -/
def mergeTrees (favor : Option Side) (within : Bool) (base ours theirs : Tree) : MergeIndex :=
  let changed := differing base ours theirs
  let versions := followed changed
  let conflicts := Conflict.at (versions.filter fun v => (v.merge favor within).isNone)
  let kept := ours.restrict fun p => !changed.any (·.path == p)
  let files := versions.foldl
    (fun (files : Tree) v =>
      match v.merge favor within with
      | some (some content) => files.insert v.place content
      | _ => files)
    kept
  ⟨files.restrict fun p => !conflicts.any (·.path == p), conflicts⟩

/-! ## Bases -/

/-- The files that two lines of history started from: those of the one base, or of the merge of all
bases, one after the other. `fuel` bounds the depth of the bases of bases. -/
def baseTree (h : History) (favor : Option Side) : Nat → List CommitId → Tree
  | _, [] => {}
  | _, [b] => h.tree b
  | 0, b :: _ => h.tree b
  | fuel + 1, b :: rest =>
    (rest.foldl
      (fun (found : List CommitId × Tree) m =>
        let base := baseTree h favor fuel (h.mergeBases found.1 m)
        (found.1 ++ [m], (mergeTrees favor true base found.2 (h.tree m)).files))
      ([b], h.tree b)).2

/-- Merges the files of two commits. -/
def mergeCommits (h : History) (favor : Option Side) (ours theirs : CommitId) : MergeIndex :=
  mergeTrees favor false (baseTree h favor h.length (h.mergeBases [ours] theirs)) (h.tree ours) (h.tree theirs)

end Chronicle
