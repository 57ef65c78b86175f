/-!
# Differences between texts

`Diff.hunks` lists the regions in which two texts differ, line by line. The lines that both have in
common are those of a shortest edit, found by walking from both ends to a place in the middle (`split`);
of several such edits the one that this walk meets is taken, and each region is then moved down as far
as it goes, or to where it faces a region of the other text.
-/

namespace Chronicle.Diff

/-- The lines of a text, each with its end; the last one may have none. -/
def splitLines : List Char → List (List Char)
  | [] => []
  | '\n' :: rest => ['\n'] :: splitLines rest
  | c :: rest =>
    match splitLines rest with
    | [] => [[c]]
    | line :: others => (c :: line) :: others

/-- The lines of a text. -/
def lines (text : String) : Array String := ((splitLines text.toList).map String.ofList).toArray

/-- A line that is not there reads as an empty one. -/
def lineAt (a : Array String) (i : Nat) : String := a.getD i ""

/-- Which lines of a text are changed. -/
abbrev Marks := Array Bool

/-- Whether a line is changed; lines beyond the text are not. -/
def Marks.get (m : Marks) (i : Nat) : Bool := m.getD i false

/-! ## Lines that are looked at -/

/-- How many lines two texts share at their beginning, from `i` on. -/
def commonStart (a b : Array String) (i : Nat) : Nat :=
  if _h : i < a.size ∧ i < b.size then
    if lineAt a i == lineAt b i then commonStart a b (i + 1) else i
  else i
  termination_by a.size - i

/-- How many of the last `room` lines two texts share, counted from the end. -/
def commonEnd (a b : Array String) : Nat → Nat → Nat
  | 0, found => found
  | room + 1, found =>
    if lineAt a (a.size - 1 - found) == lineAt b (b.size - 1 - found) then commonEnd a b room (found + 1)
    else found

/-- A power of two near the square root of a number. -/
def roughRoot : Nat → Nat → Nat → Nat
  | 0, _, i => i
  | fuel + 1, n, i => if n = 0 then i else roughRoot fuel (n / 4) (i * 2)

/-- How often a line occurs in the other text. -/
inductive Frequency
  | never
  | some
  | often
  deriving DecidableEq

/-- How often a line occurs in a text, where `limit` times is often. -/
def frequency (other : Array String) (limit : Nat) (line : String) : Frequency :=
  let n := other.foldl (fun n l => if l == line then n + 1 else n) 0
  if n = 0 then .never else if limit ≤ n then .often else .some

/-- How many lines without a match and with many follow each other. -/
def run : List Frequency → Nat × Nat
  | .never :: rest => let (a, b) := run rest; (a + 1, b)
  | .often :: rest => let (a, b) := run rest; (a, b + 1)
  | _ => (0, 0)

/-- How far around a line others are looked at. -/
def window : Nat := 100

/-- Whether a line that occurs often stands among so many without a match that it says nothing. -/
def isNoise (before after : List Frequency) : Bool :=
  let (none1, many1) := run (before.take window)
  let (none2, many2) := run (after.take window)
  none1 != 0 && none2 != 0 && (many1 + many2 + 2) * 4 < (many1 + many2 + 2) + (none1 + none2)

/-- The places of the lines that are compared, among those from `i` on: lines without a match are not. -/
def compared : List Frequency → List Frequency → Nat → List Nat
  | _, [], _ => []
  | before, f :: after, i =>
    let rest := compared (f :: before) after (i + 1)
    match f with
    | .never => rest
    | .some => i :: rest
    | .often => if isNoise before after then rest else i :: rest

/-- The places of the lines of `a` from `start` to before `stop` that are compared with those of `b`. -/
def candidates (a b : Array String) (start stop : Nat) : Array Nat :=
  let limit := min (roughRoot a.size a.size 1) 1024
  let freqs := ((a.toList.drop start).take (stop - start)).map (frequency b limit)
  (compared [] freqs start).toArray

/-! ## The middle of an edit -/

/-- How far a walk got on each diagonal. -/
abbrev Reach := Array Int

/-- Two texts, reduced to the lines that are compared, and a box in the plane of their places. -/
structure Box where
  low1 : Nat
  high1 : Nat
  low2 : Nat
  high2 : Nat

/-- Walks from the lower end. -/
def slideForth (a b : Array String) (box : Box) : Nat → Int → Int → Int
  | 0, x, _ => x
  | fuel + 1, x, y =>
    if x < box.high1 && y < box.high2 && lineAt a x.toNat == lineAt b y.toNat then
      slideForth a b box fuel (x + 1) (y + 1)
    else x

/-- Walks from the upper end. -/
def slideBack (a b : Array String) (box : Box) : Nat → Int → Int → Int
  | 0, x, _ => x
  | fuel + 1, x, y =>
    if box.low1 < x && box.low2 < y && lineAt a (x - 1).toNat == lineAt b (y - 1).toNat then
      slideBack a b box fuel (x - 1) (y - 1)
    else x

/-- The diagonals that a walk has reached, and how far it got on each. -/
structure Front where
  low : Int
  high : Int
  reach : Reach

/-- Where diagonal `d` is kept. -/
def slot (zero d : Int) : Nat := (d + zero).toNat

/-- How far a front got on a diagonal. -/
def Front.at (f : Front) (zero d : Int) : Int := f.reach.getD (slot zero d) 0

/-- Sets how far a front got on a diagonal. -/
def Front.set (f : Front) (zero d x : Int) : Front := { f with reach := f.reach.setIfInBounds (slot zero d) x }

/-- Widens a front by one diagonal on each side, as far as the box has diagonals. -/
def Front.widen (f : Front) (zero low high edge : Int) : Front :=
  let f := if low < f.low then { f.set zero (f.low - 2) edge with low := f.low - 1 } else { f with low := f.low + 1 }
  if f.high < high then { f.set zero (f.high + 2) edge with high := f.high + 1 } else { f with high := f.high - 1 }

/-- One round of the walk from the lower end, over every second diagonal from `d` down. Ends where it
meets the other walk. -/
def roundForth (a b : Array String) (box : Box) (zero : Int) (odd : Bool) (back : Front) :
    Nat → Int → Front → Front × Option (Nat × Nat)
  | 0, _, f => (f, none)
  | fuel + 1, d, f =>
    if d < f.low then (f, none)
    else
      let below := f.at zero (d - 1)
      let above := f.at zero (d + 1)
      let start := if above ≤ below then below + 1 else above
      let x := slideForth a b box (box.high1 + 1) start (start - d)
      let f := f.set zero d x
      if odd && back.low ≤ d && d ≤ back.high && back.at zero d ≤ x then (f, some (x.toNat, (x - d).toNat))
      else roundForth a b box zero odd back fuel (d - 2) f

/-- One round of the walk from the upper end. -/
def roundBack (a b : Array String) (box : Box) (zero : Int) (odd : Bool) (forth : Front) :
    Nat → Int → Front → Front × Option (Nat × Nat)
  | 0, _, f => (f, none)
  | fuel + 1, d, f =>
    if d < f.low then (f, none)
    else
      let below := f.at zero (d - 1)
      let above := f.at zero (d + 1)
      let start := if below < above then below else above - 1
      let x := slideBack a b box (box.high1 + 1) start (start - d)
      let f := f.set zero d x
      if !odd && forth.low ≤ d && d ≤ forth.high && x ≤ forth.at zero d then
        (f, some (x.toNat, (x - d).toNat))
      else roundBack a b box zero odd forth fuel (d - 2) f

/-- Lets both walks take turns until they meet. -/
def meet (a b : Array String) (box : Box) (zero : Int) (odd : Bool) (low high far : Int) :
    Nat → Front → Front → Nat × Nat
  | 0, _, _ => (box.high1, box.low2)
  | fuel + 1, forth, back =>
    let rounds := box.high1 + box.high2 + 2
    let forth := forth.widen zero low high (-1)
    match roundForth a b box zero odd back rounds forth.high forth with
    | (_, some p) => p
    | (forth, none) =>
      let back := back.widen zero low high far
      match roundBack a b box zero odd forth rounds back.high back with
      | (_, some p) => p
      | (back, none) => meet a b box zero odd low high far fuel forth back

/-- A place in the middle of a shortest edit within a box. -/
def split (a b : Array String) (box : Box) : Nat × Nat :=
  let low : Int := box.low1 - box.high2
  let high : Int := box.high1 - box.low2
  let zero : Int := box.high2 + 2 - box.low1
  let blank : Reach := Array.replicate (box.high1 + box.high2 + 6) 0
  let first : Int := box.low1 - box.low2
  let last : Int := box.high1 - box.high2
  let forth := (⟨first, first, blank⟩ : Front).set zero first box.low1
  let back := (⟨last, last, blank⟩ : Front).set zero last box.high1
  meet a b box zero ((first - last) % 2 != 0) low high (box.high1 + 1) (box.high1 + box.high2 + 2) forth back

/-- A box without what both texts share at its lower end. -/
def Box.raise (a b : Array String) : Nat → Box → Box
  | 0, box => box
  | fuel + 1, box =>
    if box.low1 < box.high1 && box.low2 < box.high2 && lineAt a box.low1 == lineAt b box.low2 then
      Box.raise a b fuel { box with low1 := box.low1 + 1, low2 := box.low2 + 1 }
    else box

/-- A box without what both texts share at its upper end. -/
def Box.sink (a b : Array String) : Nat → Box → Box
  | 0, box => box
  | fuel + 1, box =>
    if box.low1 < box.high1 && box.low2 < box.high2 && lineAt a (box.high1 - 1) == lineAt b (box.high2 - 1) then
      Box.sink a b fuel { box with high1 := box.high1 - 1, high2 := box.high2 - 1 }
    else box

/-- The lines of each text within a box that the other has no counterpart of. -/
def unmatched (a b : Array String) : Nat → Box → List Nat × List Nat
  | 0, _ => ([], [])
  | fuel + 1, box =>
    let box := (Box.sink a b box.high1 (Box.raise a b box.high1 box))
    if box.low1 = box.high1 then ([], (List.range (box.high2 - box.low2)).map (· + box.low2))
    else if box.low2 = box.high2 then ((List.range (box.high1 - box.low1)).map (· + box.low1), [])
    else
      let (x, y) := split a b box
      let (a1, b1) := unmatched a b fuel { box with high1 := x, high2 := y }
      let (a2, b2) := unmatched a b fuel { box with low1 := x, low2 := y }
      (a1 ++ a2, b1 ++ b2)

/-- Marks every line from `start` to before `stop` that is not among `kept`. -/
def markMissing (size start stop : Nat) (kept : Array Nat) : Marks :=
  (Array.range size).map fun i => start ≤ i && i < stop && !kept.contains i

/-- Marks the lines of each text that the other has no counterpart of. -/
def marks (a b : Array String) : Marks × Marks :=
  let start := commonStart a b 0
  let tail := commonEnd a b (min a.size b.size - start) 0
  let rowsA := candidates a b start (a.size - tail)
  let rowsB := candidates b a start (b.size - tail)
  let linesA := rowsA.map (lineAt a)
  let linesB := rowsB.map (lineAt b)
  let (lostA, lostB) :=
    unmatched linesA linesB (linesA.size + linesB.size + 1) ⟨0, linesA.size, 0, linesB.size⟩
  let mark (rows : Array Nat) (m : Marks) (i : Nat) := m.setIfInBounds (rows.getD i 0) true
  (lostA.foldl (mark rowsA) (markMissing a.size start (a.size - tail) rowsA),
    lostB.foldl (mark rowsB) (markMissing b.size start (b.size - tail) rowsB))

/-! ## Where a region lies -/

/-- A region of changed lines, which may be empty. -/
structure Group where
  start : Nat
  stop : Nat

/-- Where the changed lines from `i` on end. -/
def endOfRun (m : Marks) (i : Nat) : Nat :=
  if _h : i < m.size then if m.get i then endOfRun m (i + 1) else i else i
  termination_by m.size - i

/-- Where the changed lines before `i` begin. -/
def startOfRun (m : Marks) : Nat → Nat
  | 0 => 0
  | i + 1 => if m.get i then startOfRun m i else i + 1

/-- The first region. -/
def Group.first (m : Marks) : Group := ⟨0, endOfRun m 0⟩

/-- The region after the next unchanged line. -/
def Group.next (m : Marks) (size : Nat) (g : Group) : Option Group :=
  if g.stop = size then none else some ⟨g.stop + 1, endOfRun m (g.stop + 1)⟩

/-- The region before the unchanged line above. -/
def Group.previous (m : Marks) (g : Group) : Group := ⟨startOfRun m (g.start - 1), g.start - 1⟩

/-- A region that is being moved, and the region of the other text that it faces. -/
structure Slide where
  marks : Marks
  own : Group
  facing : Group
  /-- Whether it faced a region that is not empty, since it was last at its highest. -/
  met : Bool := false

/-- Moves a region up by one line. -/
def Slide.up (a : Array String) (other : Marks) (s : Slide) : Option Slide :=
  let g := s.own
  if 0 < g.start && lineAt a (g.start - 1) == lineAt a (g.stop - 1) then
    let m := (s.marks.setIfInBounds (g.start - 1) true).setIfInBounds (g.stop - 1) false
    some { s with marks := m, own := ⟨startOfRun m (g.start - 1), g.stop - 1⟩, facing := s.facing.previous other }
  else none

/-- Moves a region down by one line. -/
def Slide.down (a : Array String) (other : Marks) (otherSize : Nat) (s : Slide) : Option Slide :=
  let g := s.own
  if g.stop < a.size && lineAt a g.start == lineAt a g.stop then
    let m := (s.marks.setIfInBounds g.start false).setIfInBounds g.stop true
    some { s with
      marks := m, own := ⟨g.start + 1, endOfRun m (g.stop + 1)⟩
      facing := (s.facing.next other otherSize).getD s.facing }
  else none

/-- Whether the region that is faced is not empty. -/
def Slide.faces (s : Slide) : Bool := s.facing.start < s.facing.stop

/-- Moves a region up as far as it goes. -/
def Slide.top (a : Array String) (other : Marks) : Nat → Slide → Slide
  | 0, s => s
  | fuel + 1, s =>
    match s.up a other with
    | none => { s with met := s.faces }
    | some next => top a other fuel next

/-- Moves a region down as far as it goes. -/
def Slide.bottom (a : Array String) (other : Marks) (otherSize : Nat) : Nat → Slide → Slide
  | 0, s => s
  | fuel + 1, s =>
    match s.down a other otherSize with
    | none => s
    | some next => bottom a other otherSize fuel { next with met := next.met || next.faces }

/-- Moves a region up until it faces a region that is not empty. -/
def Slide.align (a : Array String) (other : Marks) : Nat → Slide → Slide
  | 0, s => s
  | fuel + 1, s =>
    if s.faces then s
    else
      match s.up a other with
      | none => s
      | some next => align a other fuel next

/-- Moves a region, which may take in others on its way, to its place. -/
def Slide.place (a : Array String) (other : Marks) (otherSize : Nat) : Nat → Slide → Slide
  | 0, s => s
  | fuel + 1, s =>
    let size := s.own.stop - s.own.start
    let high := s.top a other (a.size + 1)
    let low := high.bottom a other otherSize (a.size + 1)
    if low.own.stop - low.own.start != size then place a other otherSize fuel low
    else if low.own.stop == high.own.stop || !low.met then low
    else low.align a other (a.size + 1)

/-- Moves every region of a text to its place, from `own` on. -/
def placeAll (a : Array String) (other : Marks) (otherSize : Nat) : Nat → Slide → Marks
  | 0, s => s.marks
  | fuel + 1, s =>
    let s := if s.own.start < s.own.stop then s.place a other otherSize (a.size + 1) else s
    match s.own.next s.marks a.size, s.facing.next other otherSize with
    | some own, some facing => placeAll a other otherSize fuel { s with own, facing }
    | _, _ => s.marks

/-- Moves every region of a text to its place. -/
def settle (a : Array String) (m : Marks) (b : Array String) (other : Marks) : Marks :=
  placeAll a other b.size (a.size + 1) { marks := m, own := .first m, facing := .first other }

/-! ## Regions -/

/-- A region of one text and what takes its place in the other. -/
structure Hunk where
  start1 : Nat
  size1 : Nat
  start2 : Nat
  size2 : Nat
  deriving DecidableEq

/-- The regions from two places on. -/
def hunksFrom (m n : Marks) : Nat → Nat → Nat → List Hunk
  | 0, _, _ => []
  | fuel + 1, i, j =>
    if m.size ≤ i && n.size ≤ j then []
    else if m.get i || n.get j then
      let i1 := endOfRun m i
      let j1 := endOfRun n j
      ⟨i, i1 - i, j, j1 - j⟩ :: hunksFrom m n fuel i1 j1
    else hunksFrom m n fuel (i + 1) (j + 1)

/-- The regions in which two texts differ. -/
def hunks (a b : Array String) : List Hunk :=
  let (m, n) := marks a b
  let m := settle a m b n
  let n := settle b n a m
  hunksFrom m n (a.size + b.size + 1) 0 0

end Chronicle.Diff
