import Chronicle.Repository.Workspace

/-!
# Generating a repository

A repository is generated in a directory of a file tree. `generate` goes through three phases, each of
which can end it: the directory must hold no repository, the log must compile, and the commands must
replay. Nothing is touched before the last phase.
-/

namespace Chronicle

/-- A file tree in which repositories are made. -/
structure Site where
  tree : FileTree := {}
  /-- The repository that was made. -/
  repository : Option Repository := none
  deriving DecidableEq

/-- What was generated. -/
structure Report where
  dir : String
  commands : Nat
  commits : Nat
  branch : Option String
  head : Option CommitId
  deriving DecidableEq

namespace FileTree

/-- What is below a directory, seen from there. -/
def inside (t : FileTree) (dir : Path) : FileTree where
  files := ⟨t.files.entries.filterMap fun e =>
    if Path.above dir e.1 then some (e.1.drop dir.length, e.2) else none⟩
  dirs := t.dirs.filterMap fun p => if Path.above dir p then some (p.drop dir.length) else none

/-- Replaces what is below a directory. -/
def withInside (t : FileTree) (dir : Path) (inner : FileTree) : FileTree where
  files := ⟨(inner.files.entries.map fun e => (dir ++ e.1, e.2)) ++ (t.files.restrict fun p => !Path.above dir p).entries⟩
  dirs := (t.dirs.filter fun p => !Path.above dir p) ++ inner.dirs.map (dir ++ ·)

/-- Whether there is a directory wherever the names of a way lead, one after the other. -/
def leadsOn (t : FileTree) (way : Path) : Bool :=
  (List.range (way.length + 1)).all fun n => t.isDir (Path.settled (way.take n))

/-- Whether a directory holds a repository, or something in its place. -/
def hasRepository (t : FileTree) (dir : Path) : Bool :=
  t.files.has (dir ++ [".git"]) || t.isDir (dir ++ [".git"])

end FileTree

namespace Site

/-- A directory to generate in: what it is called when it is spoken of, and the names on the way to it,
two dots leading back. -/
structure Target where
  name : String
  way : Path

/-- Where the directory is. -/
def Target.dir (place : Target) : Path := place.way.settled

/-- The directory that a text names for someone in the directory `here`. -/
def Target.ofText (here : Target) (text : String) : Target :=
  ⟨text, if Path.isAbsolute text then Path.normal text else here.way ++ Path.normal text⟩

/-- Whether someone who goes the way to the directory finds a repository there. -/
def holdsRepository (s : Site) (place : Target) : Bool :=
  s.tree.leadsOn place.way && s.tree.hasRepository place.dir

/-- Fails if the directory holds a repository. -/
def requireNone (s : Site) (place : Target) : Except RepositoryError Unit :=
  if s.holdsRepository place then .error (.repositoryExists place.name) else .ok ()

/-- What there is to say about a repository that `commands` were replayed on. -/
def report (name : String) (commands : List Command) (w : Workspace) : Except Fault Report := do
  let branch ← (w.repository.map Repository.currentBranch).getD (.ok none)
  let head ← (w.repository.map Repository.headCommit).getD (.ok none)
  return ⟨name, commands.length, (commands.filter Command.createsCommit).length, branch, head⟩

/-- Replays commands in a directory, which is made first. -/
def generateFrom (place : Target) (commands : List Command) (s : Site) : Except RepositoryError Report × Site :=
  match s.requireNone place with
  | .error e => (.error e, s)
  | .ok () =>
    match s.tree.makeDirs place.way with
    | (.error e, tree) => (.error (.io e), { s with tree })
    | (.ok (), tree) =>
      let (played, w) := (replay (Workspace.backend place.name) commands).runOn ⟨tree.inside place.dir, none⟩
      let after : Site := ⟨tree.withInside place.dir w.tree, w.repository⟩
      match played with
      | .error e => (.error e, after)
      | .ok () => ((report place.name commands w).mapError .refused, after)

/-- Generates in a directory what a request asks for. -/
def generate (place : Target) (request : Request) (s : Site) : Except RepositoryError Report × Site :=
  match s.requireNone place with
  | .error e => (.error e, s)
  | .ok () =>
    match request.toLog.compile with
    | .error e => (.error (.invalidLog e), s)
    | .ok commands => s.generateFrom place commands

end Site

end Chronicle
