import Chronicle.Merge.Diff

/-!
# Merging texts

Two texts that come from one base are merged line by line. Regions that only one side changed are taken
from it. Regions of both sides that overlap or touch are one region of conflict (`overlay`), which goes
to the favoured side as a whole, or stays a conflict.
-/

namespace Chronicle

/-- A side of a merge. -/
inductive Side
  /-- The side that is merged into. -/
  | ours
  /-- The side that is merged in. -/
  | theirs
  deriving DecidableEq

/-- A region of a merge: where it lies in both sides. Without a side to take it from it is a conflict. -/
structure MergeRegion where
  source : Option Side
  start1 : Int
  size1 : Int
  start2 : Int
  size2 : Int
  deriving DecidableEq

namespace MergeRegion

/-- The region that covers two regions, of which `next` comes later. -/
def cover (r next : MergeRegion) : MergeRegion :=
  { r with
    source := if r.source = next.source then r.source else none
    size1 := next.start1 + next.size1 - r.start1
    size2 := next.start2 + next.size2 - r.start2 }

/-- Adds a region after others, the last of which comes first; regions that touch become one. -/
def push (next : MergeRegion) : List MergeRegion → List MergeRegion
  | [] => [next]
  | r :: earlier =>
    if next.start1 ≤ r.start1 + r.size1 || next.start2 ≤ r.start2 + r.size2 then r.cover next :: earlier
    else next :: r :: earlier

/-- A region that our side alone changed; `shift` is how far the lines there lie in theirs. -/
def ofOurs (h : Diff.Hunk) (shift : Int) : MergeRegion :=
  ⟨some .ours, h.start2, h.size2, h.start1 + shift, h.size1⟩

/-- A region that their side alone changed. -/
def ofTheirs (h : Diff.Hunk) (shift : Int) : MergeRegion :=
  ⟨some .theirs, h.start1 + shift, h.size1, h.start2, h.size2⟩

/-- The region in which both sides changed the base. -/
def ofBoth (a b : Diff.Hunk) : MergeRegion :=
  let start : Int := min a.start1 b.start1
  let stop : Int := max (a.start1 + a.size1) (b.start1 + b.size1)
  let start1 : Int := a.start2 - (a.start1 - start)
  let start2 : Int := b.start2 - (b.start1 - start)
  ⟨none, start1, a.start2 + a.size2 + (stop - (a.start1 + a.size1)) - start1,
    start2, b.start2 + b.size2 + (stop - (b.start1 + b.size1)) - start2⟩

end MergeRegion

/-- How far the lines after a region lie from those of the base. -/
def Diff.Hunk.shiftAfter (h : Diff.Hunk) : Int := (h.start2 + h.size2 : Nat) - (h.start1 + h.size1 : Nat)

/-- How far the lines before a region lie from those of the base. -/
def Diff.Hunk.shiftBefore (h : Diff.Hunk) : Int := (h.start2 : Nat) - (h.start1 : Nat)

/-- Whether two regions replace the same lines by the same lines. -/
def sameHunk (ours theirs : Array String) (a b : Diff.Hunk) : Bool :=
  a.start1 == b.start1 && a.size1 == b.size1 && a.size2 == b.size2 &&
    (List.range a.size2).all fun i => Diff.lineAt ours (a.start2 + i) == Diff.lineAt theirs (b.start2 + i)

/-- Lays the regions of both sides over each other; `found` holds those before, the last one first, and
the shifts are those of the lines after the last region of each side. Regions that both sides changed
alike are no regions of the merge. -/
def overlay (ours theirs : Array String) :
    Nat → List Diff.Hunk → List Diff.Hunk → Int → Int → List MergeRegion → List MergeRegion
  | 0, _, _, _, _, found => found
  | fuel + 1, as, bs, shift1, shift2, found =>
    match as, bs with
    | [], [] => found
    | a :: as, [] => overlay ours theirs fuel as [] a.shiftAfter shift2 (MergeRegion.push (.ofOurs a shift2) found)
    | [], b :: bs => overlay ours theirs fuel [] bs shift1 b.shiftAfter (MergeRegion.push (.ofTheirs b shift1) found)
    | a :: as', b :: bs' =>
      let end1 := a.start1 + a.size1
      let end2 := b.start1 + b.size1
      if end1 < b.start1 then
        overlay ours theirs fuel as' bs a.shiftAfter shift2 (MergeRegion.push (.ofOurs a b.shiftBefore) found)
      else if end2 < a.start1 then
        overlay ours theirs fuel as bs' shift1 b.shiftAfter (MergeRegion.push (.ofTheirs b a.shiftBefore) found)
      else
        let found := if sameHunk ours theirs a b then found else MergeRegion.push (.ofBoth a b) found
        let (as2, shift1) := if end1 ≤ end2 then (as', a.shiftAfter) else (as, shift1)
        let (bs2, shift2) := if end2 ≤ end1 then (bs', b.shiftAfter) else (bs, shift2)
        overlay ours theirs fuel as2 bs2 shift1 shift2 found

/-- The lines of a text from `start` on, `size` of them. -/
def excerpt (a : Array String) (start size : Int) : List String := (a.extract start.toNat (start + size).toNat).toList

/-! ## Open conflicts -/

/-- What is left of a conflict when both sides are compared with each other. -/
def MergeRegion.narrow (ours theirs : Array String) (r : MergeRegion) : List MergeRegion :=
  if r.source.isSome || r.size1 = 0 || r.size2 = 0 then [r]
  else
    (Diff.hunks (excerpt ours r.start1 r.size1).toArray (excerpt theirs r.start2 r.size2).toArray).map fun h =>
      ⟨none, r.start1 + h.start1, h.size1, r.start2 + h.start2, h.size2⟩

/-- How many lines between two conflicts are too few to keep them apart. -/
def fewLines : Int := 3

/-- Makes one conflict of conflicts that lie close together. -/
def MergeRegion.gather : List MergeRegion → List MergeRegion
  | [] => []
  | r :: rest =>
    match gather rest with
    | next :: later =>
      if r.source.isNone && next.source.isNone && next.start1 - (r.start1 + r.size1) ≤ fewLines then
        r.cover next :: later
      else r :: next :: later
    | [] => [r]

/-- A line with its end. -/
def endLine (line : String) : String := if line.endsWith "\n" then line else line ++ "\n"

/-- The lines that frame a conflict which is left open. -/
def openConflict (ours theirs : List String) : List String :=
  ["<<<<<<<<< ours\n"] ++ ours.map endLine ++ ["=========\n"] ++ theirs.map endLine ++ [">>>>>>>>> theirs\n"]

/-- The lines of a region. -/
def MergeRegion.lines (favor : Option Side) (ours theirs : Array String) (r : MergeRegion) : List String :=
  let mine := excerpt ours r.start1 r.size1
  let other := excerpt theirs r.start2 r.size2
  match r.source, favor with
  | some .ours, _ => mine
  | some .theirs, _ => other
  | none, some .ours => mine
  | none, some .theirs => other
  | none, none => openConflict mine other

/-! ## Merging -/

/-- The lines from line `i` of our side on, with the regions of the merge put in. -/
def assemble (favor : Option Side) (ours theirs : Array String) : Int → List MergeRegion → List String
  | i, [] => excerpt ours i (ours.size - i)
  | i, r :: rest =>
    excerpt ours i (r.start1 - i) ++ r.lines favor ours theirs ++
      assemble favor ours theirs (r.start1 + r.size1) rest

/-- What comes of merging two texts. -/
structure MergedText where
  text : String
  /-- Whether a conflict was left open. -/
  isOpen : Bool

/-- How much of a text is looked at to tell whether it is one, in bytes. -/
def lookedAt : Nat := 8000

/-- Whether a NUL stands among the first `room` bytes of a text. -/
def nulWithin : Nat → List Char → Bool
  | _, [] => false
  | room, c :: rest => room != 0 && (c == '\x00' || nulWithin (room - c.utf8Size) rest)

/-- Whether a text is none, but a row of bytes. -/
def isBinary (text : String) : Bool := nulWithin lookedAt text.toList

/-- Merges the lines of two texts that come from one base. -/
def mergeLines (favor : Option Side) (base ours theirs : String) : MergedText :=
  let o := Diff.lines base
  let a := Diff.lines ours
  let b := Diff.lines theirs
  let as := Diff.hunks o a
  let bs := Diff.hunks o b
  let regions := (overlay a b (as.length + bs.length) as bs 0 0 []).reverse
  let regions := if favor.isSome then regions else MergeRegion.gather (regions.flatMap (·.narrow a b))
  ⟨String.join (assemble favor a b 0 regions), favor.isNone && regions.any (·.source.isNone)⟩

/-- Merges two texts that come from one base; rows of bytes are only taken as a whole. -/
def mergeTexts (favor : Option Side) (base ours theirs : String) : Option MergedText :=
  if isBinary base || isBinary ours || isBinary theirs then
    favor.map fun side => ⟨match side with | .ours => ours | .theirs => theirs, false⟩
  else some (mergeLines favor base ours theirs)

end Chronicle
