import Chronicle.Repository.Index

/-!
# Checking files out

`checkOut` brings a working tree and an index from the files of one commit to those of another. What
is done at a path depends on how it differs between the two (`Change`) and on what stands there
(`deed`). First everything that is in the way goes, then the new files are written, path by path; a file
that cannot be written ends it, and what was done before stays done.
-/

namespace Chronicle

/-- How the files of two commits differ at a path. -/
inductive Change
  | same
  | modified
  | added
  | deleted
  /-- A directory gives way to a file. -/
  | toFile
  /-- A file gives way to a directory. -/
  | toDirectory
  deriving DecidableEq

/-- How two trees differ at a path that one of them has a file at. -/
def Change.at (old new : Tree) (p : Path) : Change :=
  match old.get? p, new.get? p with
  | some a, some b => if a = b then .same else .modified
  | none, _ => if old.hasBelow p then .toFile else .added
  | some _, none => if new.hasBelow p then .toDirectory else .deleted

/-- What is done at a path. -/
structure Deed where
  remove : Bool := false
  write : Bool := false
  deriving DecidableEq

/-- What is done at a path: files that are as they should be are left alone, others are written, and
what is in the way of a file goes first. -/
def Deed.at (t : FileTree) (old new : Tree) (p : Path) : Deed :=
  let empty := !t.files.hasBelow p
  match Change.at old new p, t.place p with
  | .same, .file content => ⟨false, some content != new.get? p⟩
  | .same, .directory => ⟨empty, true⟩
  | .same, _ => ⟨false, true⟩
  | .modified, .directory | .modified, .blocked => ⟨true, true⟩
  | .modified, _ => ⟨false, true⟩
  | .added, .directory | .added, .blocked => ⟨true, true⟩
  | .added, _ => ⟨false, true⟩
  | .deleted, .directory => ⟨empty, false⟩
  | .deleted, _ => ⟨true, false⟩
  | .toFile, .file _ => ⟨true, false⟩
  | .toFile, _ => ⟨false, true⟩
  | .toDirectory, .file _ | .toDirectory, .directory => ⟨true, false⟩
  | .toDirectory, _ => {}

/-- Removes what stands at a path, or else the file that stands in its way. -/
def FileTree.clear (t : FileTree) (p : Path) : FileTree :=
  match p.parents.find? t.files.has with
  | some blocker => t.remove blocker
  | none => t.remove p

/-- Writes a file where nothing stands in its way. -/
def FileTree.settle (t : FileTree) (p : Path) (content : String) : Option FileTree :=
  if t.isDir p || p.parents.any t.files.has then none else some (t.addFile p content)

/-- A working tree and the index that goes with it. -/
structure Checkout where
  tree : FileTree
  index : Tree
  deriving DecidableEq

namespace Checkout

/-- Removes what is at a path; the index forgets it unless it is written again. -/
def drop (c : Checkout) (p : Path) (keep : Bool) : Checkout where
  tree := c.tree.clear p
  index := if keep then c.index else c.index.erase p

/-- Writes a file and stages it. -/
def write (c : Checkout) (p : Path) (content : String) : Option Checkout :=
  (c.tree.settle p content).map fun t => ⟨t, c.index.displace p content⟩

/-- Writes files until one cannot be written. -/
def writeAll (new : Tree) : List Path → Checkout → Except Fault Unit × Checkout
  | [], c => (.ok (), c)
  | p :: rest, c =>
    match c.write p ((new.get? p).getD "") with
    | none => (.error .general, c)
    | some next => writeAll new rest next

/-- Files of the working tree that neither commit has, but the index. -/
def strays (c : Checkout) (old new : Tree) : List Path :=
  Path.sorted (c.tree.files.paths.filter fun p => !old.has p && !new.has p && c.index.has p)

/-- Goes from the files of one commit to those of another. -/
def run (c : Checkout) (old new : Tree) : Except Fault Unit × Checkout :=
  let deeds := (Path.sorted (old.paths ++ new.paths)).map fun p => (p, Deed.at c.tree old new p)
  let cleared := (deeds.filter (·.2.remove)).foldl (fun c d => c.drop d.1 d.2.write) c
  let cleared := (c.strays old new).foldl (fun c p => c.drop p false) cleared
  writeAll new ((deeds.filter (·.2.write)).map (·.1)) cleared

end Checkout

end Chronicle
