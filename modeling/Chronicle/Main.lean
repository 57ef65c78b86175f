import Chronicle.CommandLine.Output
import Chronicle.Storage.Layout

/-!
# The program

Reads from the disk what a run can look at, runs, and writes to the disk what the run has changed. The
repository of the run is kept in the directory `.git` of the directory that it was generated in.
-/

open Chronicle

namespace Chronicle.CommandLine

/-- The text that leads to a path from the root of the disk. -/
def diskName (p : Path) : String := "/" ++ p.render

/-- Adds to `t` what is on the disk at `p` and below it; nothing below `.git`. -/
partial def survey (t : FileTree) (p : Path) : IO FileTree := do
  let place := (← IO.currentDir) / diskName p
  if ← place.isDir then
    let mut t := p.parents.foldl FileTree.addDir t |>.addDir p
    if p.getLast? != some ".git" then
      for entry in ← place.readDir do
        t ← survey t (p ++ [entry.fileName])
    return t
  else if ← place.pathExists then
    if p.getLast? == some ".git" then return t.addFile p ""
    return t.addFile p (← IO.FS.readFile place)
  else return t

/-- Adds to `t` the directories on the disk that `names` lead through, and the file they lead to. -/
def surveyWay (t : FileTree) (names : List String) : IO FileTree := do
  let mut t := t
  for n in List.range (names.length + 1) do
    let p := Path.settled (names.take n)
    let place := (← IO.currentDir) / diskName p
    if ← place.isDir then t := p.parents.foldl FileTree.addDir t |>.addDir p
    else if n == names.length && (← place.pathExists) then t := t.addFile p (← IO.FS.readFile place)
  return t

/-- The part of the disk that a run with these options looks at. -/
def surveyFor (o : Options) (here : Site.Target) : IO FileTree := do
  let mut t ← surveyWay {} here.way
  if let some file := o.file then t ← surveyWay t (Site.Target.ofText here file).way
  unless o.dryRun do
    let place := o.target here
    t ← surveyWay t place.way
    t ← survey t place.dir
  return t

/-- Brings the disk from what `old` says of it to what `new` does. -/
def writeTree (old new : FileTree) : IO Unit := do
  let cwd ← IO.currentDir
  for (p, _) in old.files.entries do
    unless new.files.has p do IO.FS.removeFile (cwd / diskName p)
  for p in old.dirs.reverse do
    unless new.isDir p do IO.FS.removeDir (cwd / diskName p)
  for p in new.dirs do
    unless old.isDir p do IO.FS.createDirAll (cwd / diskName p)
  for (p, content) in new.files.entries do
    unless old.files.get? p == some content do IO.FS.writeFile (cwd / diskName p) content

/-- Keeps a repository in a directory. -/
def writeRepository (dir : Path) (r : Repository) : IO Unit := do
  let cwd ← IO.currentDir
  for p in Repository.storedDirs do IO.FS.createDirAll (cwd / diskName (dir ++ p))
  for (p, bytes) in r.storedFiles do
    IO.FS.createDirAll (cwd / diskName (dir ++ p.dropLast))
    IO.FS.writeBinFile (cwd / diskName (dir ++ p)) (ByteArray.mk bytes.toArray)

/-- Runs on the disk. -/
def runOnDisk (words : List String) : IO Output := do
  let here : Site.Target := ⟨(← IO.currentDir).toString, Path.normal (← IO.currentDir).toString⟩
  match Options.read words with
  | .ok (.generate o) =>
    try
      let before ← surveyFor o here
      let (output, after) := run Repository.storedName here words ⟨before, none⟩
      writeTree before after.tree
      if let some r := after.repository then writeRepository ((o.target here).dir ++ [".git"]) r
      return output
    catch e => return o.output CommitId.digits (.error (.io e.toString))
  | _ => return (run Repository.storedName here words {}).1

end Chronicle.CommandLine

/-- The program. -/
def main (words : List String) : IO UInt32 := do
  let output ← CommandLine.runOnDisk words
  IO.print output.out
  IO.eprint output.err
  return UInt32.ofNat output.exit
