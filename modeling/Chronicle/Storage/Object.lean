import Chronicle.Repository.Revision
import Chronicle.Storage.Digest

/-!
# Objects

Files, directories, commits and annotated tags are kept as objects, each named by the digest of its
bytes. An `Archive` holds the objects of a history and the names of its commits.
-/

namespace Chronicle

/-- The word for a kind of object. -/
def ObjectKind.word : ObjectKind → String
  | blob => "blob"
  | tree => "tree"
  | commit => "commit"
  | tag => "tag"

/-- An object and its name. -/
structure StoredObject where
  name : Digest
  bytes : Bytes

/-- The object of a kind with some content. -/
def StoredObject.make (kind : ObjectKind) (content : Bytes) : StoredObject :=
  let bytes := Bytes.ofText (kind.word ++ " " ++ toString content.length) ++ 0 :: content
  ⟨Digest.of bytes, bytes⟩

/-- The object of a file. -/
def StoredObject.ofFile (content : String) : StoredObject := .make .blob (Bytes.ofText content)

/-! ## Directories -/

/-- An entry of a directory: its object, behind the objects that it refers to. -/
structure TreeEntry where
  isDir : Bool
  name : String
  object : StoredObject
  below : List StoredObject

namespace TreeEntry

/-- The text that entries are sorted by. -/
def key (e : TreeEntry) : String := if e.isDir then e.name ++ "/" else e.name

/-- An entry as bytes. -/
def toBytes (e : TreeEntry) : Bytes :=
  Bytes.ofText ((if e.isDir then "40000 " else "100644 ") ++ e.name) ++ 0 :: e.object.name.toBytes

/-- The directory that holds some entries, and all objects of it. -/
def pack (entries : List TreeEntry) : StoredObject × List StoredObject :=
  let sorted := entries.mergeSort fun e f => !decide (f.key < e.key)
  (.make .tree (sorted.flatMap toBytes), entries.flatMap fun e => e.object :: e.below)

end TreeEntry

/-- The directory of some files with paths of at most `depth` names, and the objects in it. -/
def treeObjects : Nat → List (Path × String) → StoredObject × List StoredObject
  | 0, _ => TreeEntry.pack []
  | depth + 1, files =>
    let names := (files.filterMap fun f => f.1.head?).eraseDups
    TreeEntry.pack <| names.map fun name =>
      match files.filter fun f => f.1.head? == some name with
      | [([_], content)] => ⟨false, name, .ofFile content, []⟩
      | inside =>
        let (object, below) := treeObjects depth (inside.map fun f => (f.1.drop 1, f.2))
        ⟨true, name, object, below⟩

/-- The directory of the files of a commit, and the objects in it. -/
def Tree.objects (t : Tree) : StoredObject × List StoredObject :=
  treeObjects ((t.entries.map (·.1.length)).foldl max 0) t.entries

/-! ## Commits and tags -/

/-- The second, counted from the beginning of 1970, at which the first commit of a history is made. -/
def firstSecond : Nat := 1700000000

/-- A signature given at a second. -/
def Signature.stamped (s : Signature) (second : Nat) : String :=
  s.name ++ " <" ++ s.email ++ "> " ++ toString second ++ " +0000"

/-- The objects of a history, and the names of its commits in the order of their numbers. -/
structure Archive where
  objects : List StoredObject := []
  names : List Digest := []

namespace Archive

/-- The name of a commit. -/
def nameOf (a : Archive) (id : CommitId) : String := ((a.names[id]?).map Digest.toHex).getD id.digits

/-- Adds a commit. Each is a second younger than the one before, so that no two have the same name. -/
def addCommit (a : Archive) (c : Commit) : Archive :=
  let (tree, files) := c.tree.objects
  let second := firstSecond + a.names.length
  let header := ("tree " ++ tree.name.toHex) :: c.parents.map (fun p => "parent " ++ a.nameOf p)
    ++ ["author " ++ c.author.stamped second, "committer " ++ c.committer.stamped second, ""]
  let commit := StoredObject.make .commit (Bytes.ofText ("\n".intercalate header ++ "\n" ++ c.message))
  ⟨commit :: tree :: files ++ a.objects, a.names ++ [commit.name]⟩

/-- The object of an annotated tag on a commit. -/
def tagObject (a : Archive) (note : TagNote) (commit : CommitId) : StoredObject :=
  let header :=
    ["object " ++ a.nameOf commit, "type " ++ ObjectKind.commit.word, "tag " ++ note.name,
      "tagger " ++ note.tagger.stamped (firstSecond + commit), ""]
  .make .tag (Bytes.ofText ("\n".intercalate header ++ "\n" ++ note.message))

/-- The archive of a history. -/
def ofHistory (h : History) : Archive := h.reverse.foldl addCommit {}

end Archive

end Chronicle
