import Chronicle.Storage.Object

/-!
# How a repository is kept

`Repository.storedFiles` lists the files that keep a repository in its own directory, with their bytes:
the head, the references, the index and the objects. Objects are kept as streams of stored blocks,
which means that nothing is done to shorten them.
-/

namespace Chronicle

/-! ## Streams -/

/-- Two sums over bytes that tell whether a stream came through unharmed. -/
def checksum (bytes : Bytes) : Nat :=
  let (low, high) := bytes.foldl
    (fun (low, high) b =>
      let low := (low + b.toNat) % 65521
      (low, (high + low) % 65521))
    (1, 0)
  high * 65536 + low

/-- The greatest number of bytes in a block of a stream. -/
def blockLimit : Nat := 65535

/-- A block of a stream; its head says whether it is the last one and, twice, how long it is. -/
def block (last : Bool) (bytes : Bytes) : Bytes :=
  let size := bytes.length
  (if last then 1 else 0) :: (Bytes.ofNat 2 size).reverse ++ (Bytes.ofNat 2 (blockLimit - size)).reverse ++ bytes

/-- Bytes as blocks: `full` full ones and a last one. -/
def blocks : Nat → Bytes → Bytes
  | 0, bytes => block true bytes
  | full + 1, bytes => block false (bytes.take blockLimit) ++ blocks full (bytes.drop blockLimit)

/-- Bytes as a stream. -/
def stream (bytes : Bytes) : Bytes :=
  0x78 :: 0x01 :: blocks (bytes.length / blockLimit) bytes ++ Bytes.ofNat 4 (checksum bytes)

/-! ## The index -/

/-- The mode of a file that everybody may read. -/
def fileMode : Nat := 0o100644

/-- A file in the index. Nothing is said about the file in the working tree. -/
def indexEntry (path : Path) (content : String) : Bytes :=
  let name := Bytes.ofText path.render
  let head := Bytes.ofNat 24 0 ++ Bytes.ofNat 4 fileMode ++ Bytes.ofNat 12 0
    ++ (StoredObject.ofFile content).name.toBytes ++ Bytes.ofNat 2 (min name.length 0xfff) ++ name
  head ++ List.replicate (8 - head.length % 8) 0

/-- The index as bytes. -/
def indexBytes (t : Tree) : Bytes :=
  let sorted := t.entries.mergeSort fun e f => Path.le e.1 f.1
  let body := Bytes.ofText "DIRC" ++ Bytes.ofNat 4 2 ++ Bytes.ofNat 4 sorted.length
    ++ sorted.flatMap fun e => indexEntry e.1 e.2
  body ++ (Digest.of body).toBytes

/-! ## Files -/

/-- Settings that a repository is made with. -/
def settingsText : String :=
  "[core]\n\trepositoryformatversion = 0\n\tfilemode = true\n\tbare = false\n\tlogallrefupdates = true\n"

/-- The file of an object. -/
def StoredObject.file (o : StoredObject) : Path × Bytes :=
  let name := o.name.toHex.toList
  (["objects", String.ofList (name.take 2), String.ofList (name.drop 2)], stream o.bytes)

namespace Repository

/-- The text of the head. -/
def headText (r : Repository) (a : Archive) : String :=
  match r.head with
  | .attached target => "ref: " ++ target ++ "\n"
  | .detached id => a.nameOf id ++ "\n"

/-- The object of an annotated tag. -/
def noteObject (a : Archive) (ref : Ref) : Option StoredObject := ref.note.map fun note => a.tagObject note ref.commit

/-- The text of a reference. -/
def refText (a : Archive) (ref : Ref) : String :=
  match noteObject a ref with
  | some o => o.name.toHex ++ "\n"
  | none => a.nameOf ref.commit ++ "\n"

/-- The directories that there always are. -/
def storedDirs : List Path := [["objects"], ["refs", "heads"], ["refs", "tags"]]

/-- The files that keep a repository, seen from its own directory. -/
def storedFiles (r : Repository) : List (Path × Bytes) :=
  let a := Archive.ofHistory r.history
  let staged := (Tree.objects r.saved).2
  let notes := r.refs.filterMap fun e => noteObject a e.2
  [([headName], Bytes.ofText (r.headText a)), (["config"], Bytes.ofText settingsText), (["index"], indexBytes r.saved)]
    ++ r.refs.map (fun e => (Path.normal e.1, Bytes.ofText (refText a e.2)))
    ++ (staged ++ notes ++ a.objects).map StoredObject.file

/-- The name that a commit is stored under. -/
def storedName (r : Repository) (id : CommitId) : String := (Archive.ofHistory r.history).nameOf id

end Repository

end Chronicle
