import Chronicle.Merge.Similarity
import Chronicle.Merge.Versions

/-!
# Moved files

A file of the base that a side has no more is taken for moved where that side has a new file with the
same text, or else with one that is much alike. `renames` pairs the files that are gone with the new ones,
each with one at most: a pair has to be better than those it takes the place of. `followed` gives the
new files to the versions of the old ones.
-/

namespace Chronicle

/-- A file that was moved. -/
structure Rename where
  source : Path
  target : Path
  /-- What the file holds at its new place. -/
  content : String
  /-- How much of the file stayed, in hundredths. -/
  score : Nat
  deriving DecidableEq

namespace Rename

/-- The score of a file that was moved as it was. -/
def unchanged : Nat := 100

/-- The least score of a file that is taken for moved. -/
def least : Nat := 50

/-- The most paths of a merge for which files are taken for moved that were changed as well. -/
def mostPaths : Nat := 1000

/-- The files of the base that a side has no more. -/
def gone (side : Side) (vs : List Versions) : List (Path × String) :=
  vs.filterMap fun v => if (v.on side).isNone then v.base.map (v.path, ·) else none

/-- The files of a side that the base does not have. -/
def fresh (side : Side) (vs : List Versions) : List (Path × String) :=
  vs.filterMap fun v => if v.base.isNone then (v.on side).map (v.path, ·) else none

/-- Pairs each new file with the first one left that held the same text; empty files say nothing. -/
def pairAlike : List (Path × String) → List (Path × String) → List Rename
  | _, [] => []
  | old, (target, content) :: rest =>
    match old.find? fun f => content != "" && f.2 == content with
    | some f => ⟨f.1, target, content, unchanged⟩ :: pairAlike (old.erase f) rest
    | none => pairAlike old rest

/-- All pairs of files that are alike enough. -/
def candidates (old new : List (Path × String)) : List Rename :=
  old.flatMap fun f => (new.map fun t => ⟨f.1, t.1, t.2, similarity f.2 t.2⟩).filter (least ≤ ·.score)

/-- Whether two pairs share a file. -/
def rivals (a b : Rename) : Bool := a.source == b.source || a.target == b.target

/-- Adds a pair if it is better than all those it shares a file with. -/
def propose (found : List Rename) (r : Rename) : List Rename :=
  if (found.filter (rivals r)).all (·.score < r.score) then found.filter (!rivals r ·) ++ [r] else found

end Rename

/-- The files that a side moved. -/
def renames (side : Side) (vs : List Versions) : List Rename :=
  let old := Rename.gone side vs
  let new := Rename.fresh side vs
  let alike := Rename.pairAlike old new
  if vs.length ≤ Rename.mostPaths then (Rename.candidates old new).foldl Rename.propose alike else alike

/-! ## Following moved files -/

/-- The paths that are hindered where only one side moved a file, to a path at which the other side has
`other`: the file's old one if the other side moved it as well, to a later path, and both its old and its
new one if the other side has a file at the new one. -/
def crossing (r : Rename) (others : List Rename) (other : Option String) : List Path :=
  if others.any fun q => q.source == r.source && q.target != r.target && Path.le r.target q.target then [r.source]
  else if other.isSome then [r.source, r.target]
  else []

/-- The paths at which both sides gave a place, or a file's place, away in different ways. -/
def crossings (ours theirs : List Rename) (vs : List Versions) : List Path :=
  vs.flatMap fun v =>
    match ours.find? (·.target == v.path), theirs.find? (·.target == v.path) with
    | none, none => []
    | some a, some b => if a.source = b.source then [] else [a.source, b.source]
    | some a, none => crossing a theirs v.theirs
    | none, some b => crossing b ours v.ours

/-- What a side has at a path, and where, once its moved files are followed. -/
def follow (moved : List Rename) (path : Path) (content : Option String) : Option String × Path :=
  match moved.find? (·.source == path) with
  | some r => (some r.content, r.target)
  | none => (if moved.any (·.target == path) then none else content, path)

/-- The versions with the files that both sides moved at the paths they came from. -/
def followed (vs : List Versions) : List Versions :=
  let ours := renames .ours vs
  let theirs := renames .theirs vs
  let crossed := crossings ours theirs vs
  vs.map fun v =>
    let mine := follow ours v.path v.ours
    let other := follow theirs v.path v.theirs
    { v with
      ours := mine.1
      oursAt := mine.2
      theirs := other.1
      theirsAt := other.2
      hindrance := if crossed.contains v.path then some .place else v.hindrance }

end Chronicle
