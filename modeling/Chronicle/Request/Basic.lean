import Chronicle.Event.Basic

/-!
# Requests

A request asks for the history that an event log describes, or for a number of commits in a line. A
number stands for a log too: `EventLog.linear` writes one file over and over.
-/

namespace Chronicle

/-- Who commits, where an event does not say so. -/
structure Authorship where
  author : Option String := none
  email : Option String := none
  deriving DecidableEq

/-- A log of events and the authorship they fall back on. -/
structure EventLog where
  events : List Event
  authorship : Option Authorship := none

/-- What to generate. -/
inductive Request
  | log (log : EventLog)
  | commits (count : UInt32)

/-- The file that a line of commits writes. -/
def linearFile : String := "test.txt"

/-- The `i`-th commit of a line of commits, with the change it records; `i` counts from 1. -/
def linearStep (i : Nat) : List Event :=
  let body : FileBody := ⟨some linearFile, some ("text " ++ toString i)⟩
  [.keyed (if i = 1 then .createFile body else .changeContent body), .shorthand "commit"]

/-- The log for `count` commits in a line. -/
def EventLog.linear (count : UInt32) : EventLog where
  events := .shorthand "init" :: (List.range count.toNat).flatMap fun i => linearStep (i + 1)

/-- The log that a request stands for. -/
def Request.toLog : Request → EventLog
  | log l => l
  | commits count => .linear count

end Chronicle
