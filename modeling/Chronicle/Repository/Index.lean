import Chronicle.Repository.Basic
import Chronicle.Repository.Ignore

/-!
# Staging

The index is brought up to the working tree: as a whole, as far as files are not ignored, or at one
path, ignored or not. Entries that could not stand in one tree displace each other.
-/

namespace Chronicle

/-! ## Names that an index takes -/

/-- Whether a name could be taken for that of a repository's own directory. -/
def isReserved (name : String) : Bool :=
  [".git", "git~1"].any fun own =>
    let rest := name.toList.drop own.length
    own.toList.isPrefixOf (name.toList.map Char.toLower) &&
      (rest.all (fun c => c == ' ' || c == '.') || rest.head? == some '\\' || rest.head? == some ':')

/-- Whether an index takes a path. -/
def Path.isStageable (p : Path) : Bool :=
  p.all fun s => s != "" && s != "." && s != ".." && !isReserved s

/-- Whether a name is that of a repository's own directory, in whatever case. -/
def isOwnName (name : String) : Bool := name.toLower == ".git"

/-! ## The whole tree -/

namespace FileTree

/-- Whether all directories that a path leads through are looked into: those that are ignored are only
where the index has something in them. -/
def isReached (t : FileTree) (index : Tree) (p : Path) : Bool :=
  p.parents.all fun dir => !t.isIgnored dir true || index.hasBelow dir

/-- Whether a file is to be staged that was not before. -/
def isNew (t : FileTree) (index : Tree) (p : Path) : Bool :=
  !p.any isOwnName && t.isReached index p && !t.isIgnored p false

/-- The fault of a repository inside the tree, which cannot be staged. -/
def nestedFault (t : FileTree) (index : Tree) (dir : Path) : Option Fault :=
  if index.hasBelow dir || t.isIgnored dir true || !t.isReached index dir then none
  else if t.files.has (dir ++ [".git"]) then some .general
  else if t.isDir (dir ++ [".git"]) then some .notFound
  else none

/-- The first fault of a repository inside the tree. -/
def firstNested (t : FileTree) (index : Tree) : Option Fault :=
  (Path.sorted (t.dirs.filter fun d => !d.any isOwnName)).findSome? (t.nestedFault index)

/-- The paths at which an index differs from the tree, in order. -/
def changes (t : FileTree) (index : Tree) : List Path :=
  (Path.sorted (index.paths ++ t.files.paths)).filter fun p =>
    match index.get? p, t.files.get? p with
    | some old, some new => old != new
    | some _, none => true
    | none, some _ => t.isNew index p
    | none, none => false

end FileTree

/-- Brings an index up to the tree at one path. -/
def stagePath (t : FileTree) (p : Path) (index : Tree) : Except Fault Tree :=
  match t.files.get? p with
  | none => .ok (index.erase p)
  | some content => if p.isStageable then .ok (index.displace p content) else .error .general

/-- Brings an index up to the tree at some paths; what was staged before a fault stays so. -/
def stagePaths (t : FileTree) : List Path → Tree → Except Fault Unit × Tree
  | [], index => (.ok (), index)
  | p :: rest, index =>
    match stagePath t p index with
    | .error e => (.error e, index)
    | .ok next => stagePaths t rest next

/-- Brings an index up to the whole tree. -/
def stageAll (t : FileTree) (index : Tree) : Except Fault Unit × Tree :=
  match t.firstNested index with
  | some fault => (.error fault, index)
  | none => stagePaths t (t.changes index) index

/-! ## One path -/

/-- What a repository keeps in its own directory from the start. -/
def ownEntries : List Path :=
  [[".git"], [".git", "HEAD"], [".git", "config"], [".git", "objects"], [".git", "refs"],
    [".git", "refs", "heads"], [".git", "refs", "tags"]]

/-- What stands where the segments of a text lead, from `base` on. -/
def FileTree.walk (t : FileTree) : Path → List String → Place
  | base, [] => if base ∈ ownEntries then .directory else t.place base
  | base, s :: rest =>
    if s == "" || s == "." || s == ".." then
      match t.walk base [] with
      | .directory => t.walk (if s == ".." then base.dropLast else base) rest
      | _ => .missing
    else t.walk (base ++ [s]) rest
  termination_by _ names => names.length

/-- Whether a text does not begin like the path of something in a tree. -/
def isUnfitForIndex (text : String) : Bool :=
  FileTree.hasNul text || text.startsWith "/" || ["", ".", ".."].contains ((segments text).headD "")

/-- Brings an index up to the tree at the path that a text names. -/
def stageFile (t : FileTree) (text : String) (index : Tree) : Except Fault Tree :=
  if isUnfitForIndex text then .error .general
  else
    match t.walk [] (segments text) with
    | .missing | .blocked => .error .notFound
    | found =>
      if !(segments text).all fun s => Path.isStageable [s] then .error .general
      else
        match found with
        | .file content => .ok (index.displace (segments text) content)
        | _ => .error .isDirectory

end Chronicle
