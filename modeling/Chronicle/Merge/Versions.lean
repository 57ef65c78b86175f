import Chronicle.Merge.Lines
import Chronicle.Repository.History

/-!
# Versions of a file

What a base and two sides have at a path, and what comes of merging it. The file of a side may have
moved from the path, in which case the merged file moves with it. `differing` lists the versions at all
the paths where three trees are not alike.
-/

namespace Chronicle

/-- What keeps a file from being settled. -/
inductive Hindrance
  /-- A directory would have to stand in its place. -/
  | directory
  /-- Both sides gave its place, or that of the file it came from, away in different ways. -/
  | place
  deriving DecidableEq

/-- What a base and two sides have of a file. -/
structure Versions where
  path : Path
  base : Option String
  ours : Option String
  theirs : Option String
  /-- Where our side has it. -/
  oursAt : Path := path
  /-- Where their side has it. -/
  theirsAt : Path := path
  hindrance : Option Hindrance := none
  deriving DecidableEq

namespace Versions

/-- What a side has of a file. -/
def on (v : Versions) : Side → Option String
  | .ours => v.ours
  | .theirs => v.theirs

/-- Whether a side has a file that the base does not have like this. -/
def isWritten (v : Versions) : Bool :=
  (v.ours.isSome && v.ours != v.base) || (v.theirs.isSome && v.theirs != v.base)

/-- Where the merged file stands. -/
def place (v : Versions) : Path := if v.oursAt = v.path then v.theirsAt else v.oursAt

/-- Whether a side moved the file. -/
def isMoved (v : Versions) : Bool := v.place != v.path

/-- Whether the file is a conflict whatever the sides have of it. A file that one side moved must not be
gone from the other. -/
def isBarred (v : Versions) : Bool :=
  if v.isMoved then v.hindrance == some .place || v.ours.isNone || v.theirs.isNone else v.hindrance.isSome

/-- Whether the texts of both sides cannot become one. -/
def isApart (v : Versions) : Bool := v.hindrance.isSome || (v.oursAt != v.path && v.theirsAt != v.path)

/-- What the merged file holds, unless it is a conflict. A conflict that is left open within a text is
settled in the text if `within` says so. -/
def merge (favor : Option Side) (within : Bool) (v : Versions) : Option (Option String) :=
  if v.isBarred then none
  else if v.ours = v.theirs || v.theirs = v.base then some v.ours
  else if v.ours = v.base then some v.theirs
  else
    match v.ours, v.theirs with
    | some a, some b =>
      if v.isApart then none
      else
        match mergeTexts favor (v.base.getD "") a b with
        | some m => if m.isOpen && !within then none else some (some m.text)
        | none => none
    | _, _ => none

end Versions

/-- The versions at paths where there would have to be a file and a directory are hindered: those with a
path below them right after them, where a side wrote to both. `under` is the last one found, as long as
paths below it follow. -/
def hindered (under : Option Path) : List Versions → List Versions
  | [] => []
  | [v] => [v]
  | v :: next :: rest =>
    match under with
    | some p => v :: hindered (if Path.above p next.path then some p else none) (next :: rest)
    | none =>
      if v.isWritten && next.isWritten && Path.above v.path next.path then
        { v with hindrance := some .directory } :: hindered (some v.path) (next :: rest)
      else v :: hindered none (next :: rest)

/-- The versions at the paths at which three trees are not all alike, in order. -/
def differing (base ours theirs : Tree) : List Versions :=
  hindered none <|
    ((Path.sorted (base.paths ++ ours.paths ++ theirs.paths)).map fun p =>
      ({ path := p, base := base.get? p, ours := ours.get? p, theirs := theirs.get? p } : Versions)).filter fun v =>
        v.base != v.ours || v.base != v.theirs

end Chronicle
