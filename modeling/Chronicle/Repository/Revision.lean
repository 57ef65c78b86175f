import Chronicle.Repository.Basic

/-!
# Revisions

A revision is a text that leads to an object of a repository: a name, followed by steps to parents
(`^2`, `~3`), to an earlier place (`@\x7b1\x7d`), to an object of another kind (`^\x7btree\x7d`) or to a
file (`:a/b`). `revision` reads one, and `resolve` finds the commit that a branch or a revision names.
-/

namespace Chronicle

/-- The kinds of object. -/
inductive ObjectKind
  | commit
  | tag
  | tree
  | blob
  deriving DecidableEq

/-- What a revision leads to. -/
inductive Object
  | commit (id : CommitId)
  /-- An annotated tag of a commit. -/
  | tag (commit : CommitId)
  | tree (files : Tree)
  | blob (content : String)

namespace Object

/-- The kind of an object. -/
def kind : Object → ObjectKind
  | commit _ => .commit
  | tag _ => .tag
  | tree _ => .tree
  | blob _ => .blob

/-- The object of a kind that an object leads to. -/
def peel (h : History) (want : ObjectKind) (o : Object) : Except Fault Object :=
  if o.kind = want then .ok o
  else
    match o, want with
    | commit id, .tree => .ok (tree (h.tree id))
    | tag id, .commit => .ok (commit id)
    | tag id, .tree => .ok (tree (h.tree id))
    | tag _, _ => .error .noSuchKind
    | _, _ => .error .invalidName

/-- The commit that an object leads to. -/
def peelCommit (h : History) (o : Object) : Except Fault CommitId :=
  match o.peel h .commit with
  | .ok (commit id) => .ok id
  | .ok _ => .error .noSuchKind
  | .error e => .error e

end Object

/-- The object that a reference names. -/
def Ref.object (ref : Ref) : Object := if ref.note.isSome then .tag ref.commit else .commit ref.commit

namespace Repository

/-! ## Names -/

/-- The reference of a full name or of the head. -/
def follow (r : Repository) (name : String) : Except Fault (String × Ref) :=
  if name == headName then
    match r.head with
    | .detached id => .ok (headName, ⟨id, none⟩)
    | .attached target =>
      match RefName.normal? target with
      | none => .error .invalidName
      | some full =>
        match r.ref? full with
        | some ref => .ok (full, ref)
        | none => .error .notFound
  else
    match r.ref? name with
    | some ref => .ok (name, ref)
    | none => .error .notFound

/-- The full names that a short one may stand for, those that win first. -/
def readings (name : String) : List String :=
  if name.isEmpty then [headName]
  else [name, "refs/" ++ name, RefName.tags ++ name, RefName.branches ++ name, "refs/remotes/" ++ name,
    "refs/remotes/" ++ name ++ "/" ++ headName]

/-- The first of some names that there is a reference of; `missing` is the fault if there is none. -/
def firstOf (r : Repository) (missing : Fault) : List String → Except Fault (String × Ref)
  | [] => .error missing
  | name :: others =>
    if RefName.isValid name then
      match r.follow name with
      | .error .notFound => firstOf r .notFound others
      | found => found
    else firstOf r .invalidName others

/-- The reference that a name stands for, with its full name. -/
def named (r : Repository) (name : String) : Except Fault (String × Ref) := r.firstOf .notFound (readings name)

/-- Whether a character is a hexadecimal digit. -/
def isHex (c : Char) : Bool := c.isDigit || ('a' ≤ c && c ≤ 'f') || ('A' ≤ c && c ≤ 'F')

/-- The fewest digits that a commit may be abbreviated to. -/
def fewestDigits : Nat := 4

/-- The commit whose digits begin with `digits`. -/
def abbreviated (r : Repository) (digits : String) : Except Fault Object :=
  if !digits.toList.all isHex then .error .notFound
  else if digits.length < fewestDigits then .error .ambiguous
  else
    match (List.range r.history.length).filter fun id => digits.toLower.toList.isPrefixOf (CommitId.digits id).toList with
    | [] => .error .notFound
    | [id] => .ok (.commit id)
    | _ => .error .ambiguous

/-- The text behind the first `-g` of a text. -/
def afterMark : List Char → Option (List Char)
  | '-' :: 'g' :: rest => some rest
  | _ :: rest => afterMark rest
  | [] => none

/-- Whether a text holds a description of a commit from `-` on: a number and abbreviated digits. -/
def describes : List Char → Bool
  | '-' :: rest =>
    let more := rest.dropWhile Char.isDigit
    let found :=
      match more with
      | '-' :: 'g' :: c :: _ => more.length < rest.length && isHex c
      | _ => false
    found || describes rest
  | _ :: rest => describes rest
  | [] => false

/-- The object that the name at the head of a revision stands for. -/
def nameObject (r : Repository) (name : String) : Except Fault Object :=
  let whole := if name.length == 40 then r.abbreviated name else .error .notFound
  match whole with
  | .ok o => .ok o
  | .error _ =>
    match r.named (if name == "@" then headName else name) with
    | .ok (_, ref) => .ok ref.object
    | .error .notFound =>
      let short := if name.length < 40 then r.abbreviated name else .error .notFound
      match short with
      | .error .notFound =>
        match afterMark name.toList with
        | some digits =>
          if describes (name.toList.drop 1) then r.abbreviated (String.ofList digits) else .error .notFound
        | none => .error .notFound
      | found => found
    | .error e => .error e

/-! ## Steps -/

/-- How far a revision has been read. -/
structure Reading where
  /-- The object that was reached. -/
  object : Option Object := none
  /-- The reference that was reached, if no object was looked at yet. -/
  ref : Option (String × Ref) := none
  /-- The name before the first step, last character first. -/
  name : List Char := []

/-- The name that was read. -/
def Reading.text (s : Reading) : String := String.ofList s.name.reverse

/-- The object that was reached, which is that of the name before the first step. -/
def reached (r : Repository) (s : Reading) : Except Fault Object :=
  match s.object, s.ref with
  | some o, _ => .ok o
  | none, some (_, ref) => .ok ref.object
  | none, none => if s.name.isEmpty then .error .invalidName else r.nameObject s.text

/-- The text in braces at the head of a text, and what follows. -/
def braced : List Char → Option (String × List Char)
  | '\x7b' :: rest =>
    match rest.dropWhile (· != '\x7d') with
    | _ :: after => some (String.ofList (rest.takeWhile (· != '\x7d')), after)
    | [] => none
  | _ => none

/-- The largest number that a step may give. -/
def largestStep : Nat := twoTo 31 - 1

/-- The number at the head of a text, 1 where there is none. -/
def stepCount (cs : List Char) : Option Nat :=
  match cs.takeWhile Char.isDigit with
  | [] => some 1
  | ds => (String.ofList ds).toNat?.filter (· ≤ largestStep)

/-- The generations that a run of tildes and numbers goes back, and what follows it. -/
def generations : Nat → List Char → Option (Nat × List Char)
  | fuel + 1, '~' :: rest => do
    let n ← stepCount rest
    let (more, after) ← generations fuel (rest.dropWhile Char.isDigit)
    return (n + more, after)
  | _, cs => some (0, cs)

/-- The `n`-th parent of a commit; the commit itself for 0. -/
def parentStep (r : Repository) (n : Nat) (o : Object) : Except Fault Object := do
  let id ← o.peelCommit r.history
  if n = 0 then return .commit id
  match (r.history.parents id)[n - 1]? with
  | some p => return .commit p
  | none => throw .notFound

/-- The first parent's first parent and so on, `n` steps. -/
def backStep (r : Repository) (n : Nat) (o : Object) : Except Fault Object := do
  let id ← o.peelCommit r.history
  match r.history.firstAncestor n id with
  | some a => return .commit a
  | none => throw .notFound

/-- The newest of some commits whose message holds a text. -/
def search (r : Repository) (text : String) (ids : List CommitId) : Except Fault Object :=
  if text.isEmpty then .error .invalidName
  else
    let holds id := ((r.history.get? id).map fun c => Failure.contains text.toList c.message.toList).getD false
    match (r.history.ancestry ids).find? holds with
    | some id => .ok (.commit id)
    | none => .error .notFound

/-- What the word in braces behind a caret asks for. -/
def kindStep (r : Repository) (word : String) (o : Object) : Except Fault Object :=
  match word.toList with
  | [] => match o with | .tag id => .ok (.commit id) | _ => .ok o
  | '/' :: text => do
    let id ← o.peelCommit r.history
    r.search (String.ofList text) [id]
  | _ =>
    match word with
    | "commit" => o.peel r.history .commit
    | "tree" => o.peel r.history .tree
    | "blob" => o.peel r.history .blob
    | "tag" => o.peel r.history .tag
    | _ => .error .invalidName

/-- The file or directory of a tree that a path leads to. -/
def fileStep (r : Repository) (path : String) (o : Object) : Except Fault Object := do
  match ← o.peel r.history .tree with
  | .tree files =>
    let names := segments path
    let p := if names.getLast? == some "" then names.dropLast else names
    if path.isEmpty then return .tree files
    match files.get? p with
    | some content => if p.length == names.length then return .blob content else throw .notFound
    | none =>
      if files.hasBelow p && !p.isEmpty then
        return .tree ⟨files.entries.filterMap fun e =>
          if Path.above p e.1 then some (e.1.drop p.length, e.2) else none⟩
      else throw .notFound
  | _ => throw .invalidName

/-- The place that the head or a branch was at `n` movements ago. -/
def earlier (r : Repository) (n : Nat) (s : Reading) : Except Fault Object := do
  let (name, ref) ←
    match s.ref with
    | some found => .ok found
    | none =>
      if 0 < n && s.text == headName then .ok (headName, ⟨0, none⟩) else r.named s.text
  if n = 0 then return ref.object
  match (r.journal.filter (·.name == name))[n]? with
  | some m => return .commit m.commit
  | none => throw .notFound

/-- What was left by the `n`-th last checkout. -/
def leftBehind (r : Repository) (n : Nat) (s : Reading) : Except Fault Reading := do
  if !s.name.isEmpty || s.ref.isSome then throw .invalidName
  match (r.journal.filterMap (·.left))[n - 1]? with
  | none => throw .notFound
  | some label =>
    match r.named label with
    | .ok found => return { s with ref := some found }
    | .error .notFound => return { s with object := some (← r.abbreviated label) }
    | .error e => throw e

/-- The number that a text of digits stands for. -/
def wholeNumber (cs : List Char) : Option Nat :=
  if cs.all Char.isDigit then (String.ofList cs).toNat? else none

/-- The sign and the number that a text is. -/
def signedNumber (cs : List Char) : Option (Bool × Nat) :=
  match cs with
  | '-' :: rest => (wholeNumber rest).map (true, ·)
  | '+' :: rest => (wholeNumber rest).map (false, ·)
  | _ => (wholeNumber cs).map (false, ·)

/-- What the word in braces behind an at sign asks for. -/
def placeStep (r : Repository) (word : String) (s : Reading) : Except Fault Reading :=
  match signedNumber word.toList with
  | some (true, 0) => .error .invalidName
  | some (true, n) => r.leftBehind n s
  | some (false, n) => (r.earlier n s).map fun o => { s with object := some o }
  | none => .error .invalidName

/-- Reads on from where a revision has been read to; `fuel` is as long as what is left. -/
def readOn (r : Repository) : Nat → List Char → Reading → Except Fault Reading
  | fuel + 1, c :: rest, s =>
    let name := do
      if s.object.isSome || s.ref.isSome then throw .invalidName
      readOn r fuel rest { s with name := c :: s.name }
    match c with
    | '^' => do
      let o ← r.reached s
      match rest with
      | '\x7b' :: _ =>
        match braced rest with
        | none => throw .invalidName
        | some (word, after) => readOn r fuel after { s with object := some (← r.kindStep word o) }
      | _ =>
        match stepCount rest with
        | none => throw .invalidName
        | some n => readOn r fuel (rest.dropWhile Char.isDigit) { s with object := some (← r.parentStep n o) }
    | '~' =>
      match generations (fuel + 1) (c :: rest) with
      | none => throw .invalidName
      | some (n, after) => do
        let o ← r.reached s
        readOn r fuel after { s with object := some (← r.backStep n o) }
    | ':' =>
      let path := String.ofList rest
      if s.object.isSome || s.ref.isSome || !s.name.isEmpty then do
        let o ← r.reached s
        return { s with object := some (← r.fileStep path o) }
      else
        match rest with
        | '/' :: text => do
          let o ← r.search (String.ofList text) (r.refs.map (·.2.commit))
          return { s with object := some o }
        | _ => throw .general
    | '@' =>
      match rest with
      | '\x7b' :: _ =>
        match braced rest with
        | none => throw .invalidName
        | some (word, after) => do
          if s.object.isSome then throw .invalidName
          readOn r fuel after (← r.placeStep word s)
      | _ => name
    | _ => name
  | _, _, s => .ok s

/-- The object that a revision leads to. -/
def revision (r : Repository) (text : String) : Except Fault Object := do
  let s ← r.readOn text.length text.toList {}
  r.reached s

/-- The commit that a branch or a revision names; a branch wins. -/
def resolve (r : Repository) (text : String) : Except RepositoryError CommitId :=
  if FileTree.hasNul text then .error (.refused .general)
  else
    match r.branch? text with
    | some (_, ref) => .ok ref.commit
    | none =>
      match r.revision text with
      | .ok o => (o.peelCommit r.history).mapError .refused
      | .error .notFound | .error .invalidName => .error (.notFound ("ref '" ++ text ++ "'"))
      | .error e => .error (.refused e)

end Repository

end Chronicle
