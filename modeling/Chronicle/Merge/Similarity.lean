/-!
# How alike two texts are

Texts are compared by their runs: the bytes of a line, of a long line those of each stretch of it.
`similarity` says how many in a hundred of their runs two texts share. Short texts say too little to be
compared at all.
-/

namespace Chronicle

/-- The runs found in a text so far. -/
structure Runs where
  /-- The complete runs, the last one first. -/
  done : List (List UInt8) := []
  /-- The run at hand, its last byte first. -/
  current : List UInt8 := []
  /-- Whether a line begins here, so that blanks do not count. -/
  atStart : Bool := true
  /-- Whether a run has just been completed, so that ends of lines do not count. -/
  afterRun : Bool := false

namespace Runs

/-- The most bytes of a run. -/
def longest : Nat := 80

/-- Whether a byte ends a run. -/
def isEnd (b : UInt8) : Bool := b == 10 || b == 0

/-- Whether a byte is left out: a blank at the start of a line, and a carriage return anywhere. -/
def isSkipped (atStart : Bool) (b : UInt8) : Bool :=
  b == 13 || (atStart && (b == 32 || b == 9 || b == 11 || b == 12))

/-- Completes the run at hand if there is one. -/
def complete (r : Runs) : Runs :=
  if r.current.isEmpty then r else { r with done := r.current :: r.done, current := [], afterRun := true }

/-- Takes the next byte in. -/
def push (r : Runs) (b : UInt8) : Runs :=
  if r.afterRun && isEnd b then r
  else if isSkipped r.atStart b then { r with afterRun := false }
  else
    let r := { r with afterRun := false, atStart := b == 10 }
    if isEnd b then r.complete
    else
      let r := { r with current := b :: r.current }
      if r.current.length = longest then r.complete else r

end Runs

/-- The runs of a text. -/
def textRuns (text : String) : List (List UInt8) := (text.toUTF8.toList.foldl Runs.push {}).complete.done

/-- How many runs can be paired with equal ones. -/
def sharedRuns : List (List UInt8) → List (List UInt8) → Nat
  | [], _ => 0
  | r :: rest, others => if others.contains r then sharedRuns rest (others.erase r) + 1 else sharedRuns rest others

/-- The fewest runs of a text that can be compared. -/
def fewestRuns : Nat := 4

/-- How many in a hundred of their runs two texts share. -/
def similarity (a b : String) : Nat :=
  let as := textRuns a
  let bs := textRuns b
  if as.length < fewestRuns || bs.length < fewestRuns then 0
  else 100 * (2 * sharedRuns as bs) / (as.length + bs.length)

end Chronicle
