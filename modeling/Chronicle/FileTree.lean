import Chronicle.PathMap

/-!
# Files and directories

A `FileTree` holds the texts of files and the directories around them. Writing goes by the text of a
path: the directories on the way are made one after the other, and stay when the file cannot be
written. `isInside` says which texts lead to a place in the tree that is no repository's own, and
`look` what there is to be read where names lead.
-/

namespace Chronicle

/-- Why the file system refuses. -/
inductive IoFault
  | notFound
  | alreadyExists
  | notADirectory
  | isADirectory
  | nameTooLong
  | nulInName
  | other (message : String)
  deriving DecidableEq

/-- The words of a refusal. -/
def IoFault.message : IoFault → String
  | notFound => "No such file or directory (os error 2)"
  | alreadyExists => "File exists (os error 17)"
  | notADirectory => "Not a directory (os error 20)"
  | isADirectory => "Is a directory (os error 21)"
  | nameTooLong => "File name too long (os error 36)"
  | nulInName => "file name contained an unexpected NUL byte"
  | other m => m

/-- Files with their texts, and directories. The directories on the way to a file are among them. -/
structure FileTree where
  files : PathMap String := {}
  dirs : List Path := []
  deriving DecidableEq

/-- What stands at a path. -/
inductive Place
  | file (content : String)
  | directory
  | missing
  /-- Nothing can: a file is in the way. -/
  | blocked
  deriving DecidableEq

namespace FileTree

/-- Whether a path is a directory; the tree itself is one. -/
def isDir (t : FileTree) (p : Path) : Bool := p.isEmpty || t.dirs.contains p

/-- What stands at a path. -/
def place (t : FileTree) (p : Path) : Place :=
  match t.files.get? p with
  | some content => .file content
  | none =>
    if t.isDir p then .directory
    else if p.parents.any t.files.has then .blocked
    else .missing

/-- Adds a directory. -/
def addDir (t : FileTree) (p : Path) : FileTree := if t.isDir p then t else { t with dirs := t.dirs ++ [p] }

/-- Adds a file and the directories around it, whatever stands there. -/
def addFile (t : FileTree) (p : Path) (content : String) : FileTree :=
  let around := p.parents.foldl addDir t
  { around with files := around.files.insert p content }

/-! ## Reading -/

/-- Where names lead from a place, when each has to be looked up in a directory. -/
def follow (t : FileTree) (here : Path) : List String → Option Path
  | [] => some here
  | s :: rest =>
    if !t.isDir here then none
    else if s == "" || s == "." then follow t here rest
    else if s == ".." then follow t here.dropLast rest
    else follow t (here ++ [s]) rest

/-- What stands where names lead from a place. -/
def look (t : FileTree) (here : Path) (names : List String) : Place :=
  match t.follow here names with
  | some p => t.place p
  | none => .missing

/-! ## Writing -/

/-- The length that a name may have, in bytes. -/
def longestName : Nat := 255

/-- Whether a name is longer than a file system takes. -/
def tooLong (name : String) : Bool := longestName < name.utf8ByteSize

/-- Whether a NUL stands in a name. -/
def hasNul (name : String) : Bool := name.toList.contains '\x00'

/-- Makes the directories `names` one inside the other, the first one inside `base`; two dots lead out
of the last one again. -/
def makeDirsFrom (base : Path) : List String → FileTree → Except IoFault Unit × FileTree
  | [], t => (.ok (), t)
  | s :: rest, t =>
    let here := base ++ [s]
    if s == ".." then makeDirsFrom base.dropLast rest t
    else if t.files.has here then (.error (if rest.isEmpty then .alreadyExists else .notADirectory), t)
    else if tooLong s then (.error .nameTooLong, t)
    else makeDirsFrom here rest (t.addDir here)

/-- Makes a directory and those around it. -/
def makeDirs (p : Path) (t : FileTree) : Except IoFault Unit × FileTree :=
  if p.any hasNul then (.error .nulInName, t) else makeDirsFrom [] p t

/-- How a text that names a path ends. -/
inductive Ending
  | name
  /-- With a slash, which only a directory may have. -/
  | slash
  /-- With a dot for the directory before it. -/
  | dot

/-- How a text that names a path ends. -/
def ending (text : String) : Ending :=
  match (segments text).reverse.dropWhile (· == "") with
  | "." :: _ => .dot
  | _ => if (segments text).getLast? == some "" then .slash else .name

/-- Why no file can be opened for writing at a path, once the directories around it are there. -/
def openFault (t : FileTree) (p : Path) (ends : Ending) : Option IoFault :=
  if p.any hasNul then some .nulInName
  else
    match ends with
    | .slash => some .isADirectory
    | .name =>
      if t.isDir p then some .isADirectory
      else if p.any tooLong then some .nameTooLong
      else none
    | .dot =>
      if p.any tooLong then some .nameTooLong
      else
        match t.place p with
        | .directory => some .isADirectory
        | .file _ => some .notADirectory
        | _ => some .notFound

/-- Whether a step leads neither out of the tree nor into a repository's own directory. -/
def staysInside : Path.Component → Bool
  | .name s => s != ".git"
  | .current => true
  | .root | .parent => false

/-- Whether a text leads to a place inside the tree and into no repository's own directory. -/
def isInside (text : String) : Bool := !text.isEmpty && (Path.components text).all staysInside

/-- Writes the file that a text names; `new` makes its text out of the one it has. -/
def write (text : String) (new : Option String → String) (t : FileTree) : Except IoFault Unit × FileTree :=
  let p := Path.normal text
  match makeDirs p.dropLast t with
  | (.error e, t) => (.error e, t)
  | (.ok (), t) =>
    match t.openFault p (ending text) with
    | some e => (.error e, t)
    | none => (.ok (), { t with files := t.files.insert p (new (t.files.get? p)) })

/-- The text that takes the place of any other. -/
def replaced (content : String) : Option String → String := fun _ => content

/-- The text that is added to what is there. -/
def extended (content : String) : Option String → String := fun old => old.getD "" ++ content

/-! ## Removing -/

/-- Whether nothing stands below a path. -/
def nothingBelow (t : FileTree) (p : Path) : Bool := !t.files.hasBelow p && !t.dirs.any (Path.above p)

/-- Removes the directories `up`, deepest first, as long as nothing stands in them. -/
def prune (t : FileTree) : List Path → FileTree
  | [] => t
  | d :: up => if t.nothingBelow d then prune { t with dirs := t.dirs.erase d } up else t

/-- Removes what stands at a path and below it. -/
def cut (t : FileTree) (p : Path) : FileTree where
  files := t.files.restrict fun q => !p.isPrefixOf q
  dirs := t.dirs.filter fun q => !p.isPrefixOf q

/-- Removes what stands at a path and below it, and the directories around it that are left empty. -/
def remove (t : FileTree) (p : Path) : FileTree := (t.cut p).prune p.parents.reverse

end FileTree

end Chronicle
