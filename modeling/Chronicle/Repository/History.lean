import Chronicle.PathMap
import Chronicle.Repository.Signature

/-!
# Commits and their history

A history lists commits, the newest first, and never loses one: `get?_add` says that a commit keeps its
number. A commit is numbered by how many came before it, so its parents have smaller numbers and what
it descends from is found in one pass over the list (`ancestry`).
-/

namespace Chronicle

/-- The number of a commit in its history, counted from 0. -/
abbrev CommitId := Nat

/-- The files of a commit. -/
abbrev Tree := PathMap String

/-- A commit. -/
structure Commit where
  parents : List CommitId
  message : String
  author : Signature
  committer : Signature
  tree : Tree
  deriving DecidableEq

/-- Commits, the newest first. -/
abbrev History := List Commit

namespace History

/-- The commit with a number. -/
def get? (h : History) (id : CommitId) : Option Commit := h.reverse[id]?

/-- Adds a commit; its number is that of the commits before it. -/
def add (h : History) (c : Commit) : History := c :: h

/-- The parents of a commit. -/
def parents (h : History) (id : CommitId) : List CommitId := ((h.get? id).map (·.parents)).getD []

/-- The files of a commit. -/
def tree (h : History) (id : CommitId) : Tree := ((h.get? id).map (·.tree)).getD {}

theorem get?_add (h : History) (c : Commit) (id : CommitId) :
    (h.add c).get? id = if id = h.length then some c else h.get? id := by
  simp only [add, get?, List.reverse_cons, List.getElem?_append, List.length_reverse]
  by_cases hlt : id < h.length
  · simp [hlt, Nat.ne_of_lt hlt]
  · by_cases he : id = h.length
    · simp [he]
    · have hgt : h.length < id := Nat.lt_of_le_of_ne (Nat.le_of_not_lt hlt) (Ne.symm he)
      simp [hlt, he, Nat.sub_ne_zero_of_lt hgt]

/-! ## Descent -/

/-- The commits among `found` and everything they descend from, the newest first. -/
def ancestry : History → List CommitId → List CommitId
  | [], _ => []
  | c :: older, found =>
    if found.contains older.length then older.length :: ancestry older (c.parents ++ found)
    else ancestry older found

/-- Whether a commit is another one or one that it descends from. -/
def isIn (h : History) (old new : CommitId) : Bool := (h.ancestry [new]).contains old

/-- The commits that some commits and another one both descend from, without those that others of them
descend from, the oldest first. -/
def mergeBases (h : History) (ours : List CommitId) (theirs : CommitId) : List CommitId :=
  let mine := h.ancestry ours
  let common := (h.ancestry [theirs]).filter mine.contains
  (common.filter fun b => !common.any fun c => c != b && h.isIn b c).reverse

/-- The ancestor reached by going to the first parent `steps` times. -/
def firstAncestor (h : History) : Nat → CommitId → Option CommitId
  | 0, id => some id
  | steps + 1, id =>
    match h.parents id with
    | [] => none
    | p :: _ => firstAncestor h steps p

end History

end Chronicle
