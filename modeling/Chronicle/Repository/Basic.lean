import Chronicle.Repository.History
import Chronicle.Repository.RefName
import Chronicle.Repository.Error

/-!
# Repositories

A repository is a history of commits, the references that name some of them, a head, and an index of
what the next commit will hold. References are only ever added, and only the one that the head is
attached to is moved (`advance`).
-/

namespace Chronicle

/-- What an annotated tag says beside the commit it names. -/
structure TagNote where
  name : String
  message : String
  tagger : Signature
  deriving DecidableEq

/-- A reference; with a note it is an annotated tag. -/
structure Ref where
  commit : CommitId
  note : Option TagNote := none
  deriving DecidableEq

/-- Where the next commit goes. -/
inductive Head
  /-- To the reference that this text names, which may not exist yet. -/
  | attached (target : String)
  /-- After this commit, and nowhere else. -/
  | detached (commit : CommitId)
  deriving DecidableEq

/-- The digits after the first eight of every commit's name. -/
def nameTail : String := "c41f7ad0936e582bd5e80b6f29a17c34"

/-- The forty hexadecimal digits that name a commit. -/
def CommitId.digits (id : CommitId) : String :=
  let front := Nat.toDigits 16 ((id + 1) * 2654435761 % twoTo 32)
  String.ofList (List.replicate (8 - front.length) '0' ++ front) ++ nameTail

/-- What a head is called when it is left: its branch, or the name of its commit. -/
def Head.label : Head → String
  | attached target => RefName.short target
  | detached id => id.digits

/-- That a reference came to a commit. -/
structure Movement where
  /-- The full name of the reference, or the head's. -/
  name : String
  commit : CommitId
  /-- What a checkout left behind. -/
  left : Option String := none
  deriving DecidableEq

/-- A repository. -/
structure Repository where
  history : History := []
  refs : List (String × Ref) := []
  head : Head
  /-- What the next commit will hold. -/
  index : Tree := {}
  /-- The index as it was last written. -/
  saved : Tree := {}
  /-- The movements of the head and of branches, the last one first. -/
  journal : List Movement := []
  deriving DecidableEq

/-- The name of the head. -/
def headName : String := "HEAD"

namespace Repository

/-! ## References -/

/-- The reference of a full name. -/
def ref? (r : Repository) (name : String) : Option Ref := r.refs.lookup name

/-- The branch that a text names, with its full name. -/
def branch? (r : Repository) (text : String) : Option (String × Ref) := do
  let name ← RefName.within? RefName.branches text
  return (name, ← r.ref? name)

/-- Points a name at a commit. -/
def setRef (r : Repository) (name : String) (ref : Ref) : Repository :=
  { r with refs := (name, ref) :: r.refs.filter fun e => e.1 != name }

/-- Writes down where a reference or the head came to. -/
def note (r : Repository) (m : Movement) : Repository := { r with journal := m :: r.journal }

/-- Writes down where a reference came to, if it is a branch. -/
def noteBranch (r : Repository) (name : String) (id : CommitId) : Repository :=
  if (RefName.without? RefName.branches name).isSome then r.note ⟨name, id, none⟩ else r

/-- The full name for a new branch or tag. -/
def freshName (r : Repository) (group text : String) : Except Fault String :=
  if FileTree.hasNul text || text == headName || text.startsWith "-" then .error .general
  else
    match RefName.within? group text with
    | none => .error .invalidName
    | some name =>
      if (r.ref? name).isSome then .error .alreadyThere
      else if r.refs.any fun e => RefName.above e.1 name then .error .general
      else if r.refs.any fun e => RefName.above name e.1 then .error .isDirectory
      else if RefName.tooLong name then .error .general
      else .ok name

/-- Adds a branch at a commit. -/
def addBranch (r : Repository) (text : String) (id : CommitId) : Except Fault Repository := do
  let name ← r.freshName RefName.branches text
  return (r.setRef name ⟨id, none⟩).noteBranch name id

/-- Adds a tag at a commit. -/
def addTag (r : Repository) (text : String) (id : CommitId) (note : Option TagNote) :
    Except Fault Repository := do
  let name ← r.freshName RefName.tags text
  return r.setRef name ⟨id, note⟩

/-! ## The head -/

/-- The commit that the head is at; none before the first one. -/
def headCommit (r : Repository) : Except Fault (Option CommitId) :=
  match r.head with
  | .detached id => .ok (some id)
  | .attached target =>
    match RefName.normal? target with
    | none => .error .invalidName
    | some name => .ok ((r.ref? name).map (·.commit))

/-- The branch that the head is attached to. -/
def currentBranch (r : Repository) : Except Fault (Option String) :=
  match r.head with
  | .detached _ => .ok none
  | .attached target =>
    match RefName.normal? target with
    | none => .error .invalidName
    | some name =>
      .ok (RefName.without? RefName.branches (if (r.ref? name).isSome then name else target))

/-- Moves the head to a commit, and with it the reference it is attached to. -/
def advance (r : Repository) (id : CommitId) : Except Fault Repository :=
  match r.head with
  | .detached _ => .ok ({ r with head := .detached id }.note ⟨headName, id, none⟩)
  | .attached target =>
    match RefName.normal? target with
    | none => .error .invalidName
    | some name =>
      if RefName.tooLong name then .error .general
      else .ok (((r.setRef name ⟨id, none⟩).noteBranch name id).note ⟨headName, id, none⟩)

/-- Adds a commit and moves the head to it. -/
def record (r : Repository) (c : Commit) : Except Fault (CommitId × Repository) := do
  let id := r.history.length
  let r ← { r with history := r.history.add c }.advance id
  return (id, r)

/-- Attaches or detaches the head. -/
def turn (r : Repository) (head : Head) (id : CommitId) : Repository :=
  { r with head }.note ⟨headName, id, some r.head.label⟩

/-- The text of a new head for the name of its branch. A full name is taken as it is. -/
def firstHead (branch : String) : Head :=
  let full := if branch.startsWith "refs/" then branch else RefName.branches ++ branch
  .attached (String.ofList (full.toList.reverse.dropWhile isTrailing).reverse)
where
  /-- The blanks that do not belong to the text when it is read back. -/
  isTrailing (c : Char) : Bool := c == ' ' || (9 ≤ c.toNat && c.toNat ≤ 13)

/-- A repository without a commit. -/
def empty (branch : String) : Repository := { head := firstHead branch }

/-- What is left of a repository when it is opened again. -/
def reopened (r : Repository) : Repository := { r with index := r.saved }

end Repository

end Chronicle
