import Chronicle.Replay.Basic

/-!
# A backend that only takes notes

The recorder lists the calls that are made on it, those that fail included. It knows which branch would
be checked out, and can be told to fail a call by its number or every call of a name.
-/

namespace Chronicle

/-- The name of an operation of a backend. -/
def Call.name : Call → String
  | init _ => "init"
  | stage _ => "stage"
  | commit _ => "commit"
  | createBranch _ => "create_branch"
  | checkout _ => "checkout"
  | currentBranch => "current_branch"
  | merge .. => "merge"
  | tag _ => "tag"
  | annotatedTag .. => "annotated_tag"
  | writeFile .. => "write_file"
  | appendFile .. => "append_file"

/-- What a recorder does beside taking notes. -/
structure Recorder where
  /-- References that lead away from every branch. -/
  detached : List String := []
  /-- The number of the call that fails; calls count from 1. -/
  failAt : Option Nat := none
  /-- The name of the calls that fail. -/
  failOn : Option String := none

/-- The notes of a recorder. -/
structure Recording where
  calls : List Call := []
  branch : Option String := none

namespace Recorder

/-- Whether a recorder fails its `number`-th call. -/
def fails (r : Recorder) (number : Nat) (c : Call) : Bool :=
  r.failAt == some number || r.failOn == some c.name

/-- The branch that is checked out after a call. -/
def branchAfter (r : Recorder) (failed : Bool) (branch : Option String) : Call → Option String
  | .init name => some name
  | .checkout reference =>
    if failed then branch else if r.detached.contains reference then none else some reference
  | _ => branch

/-- Notes a call. The error of a call that fails is its name. -/
def backend (r : Recorder) : Backend Recording String where
  answer c s :=
    let calls := s.calls ++ [c]
    let failed := r.fails calls.length c
    let next : Recording := ⟨calls, r.branchAfter failed s.branch c⟩
    if failed then (.error c.name, next)
    else (.ok (match c with | .currentBranch => s.branch | _ => none), next)

end Recorder

end Chronicle
