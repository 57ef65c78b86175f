import Chronicle.Command
import Chronicle.Steps

/-!
# Replaying commands on a backend

A backend is a state machine: it answers a call, or fails it, and goes to its next state either way.
`Command.replay` says which calls a command stands for and `replay` plays a list of commands, ending
at the first call that fails. The name of the current branch is the only answer that is looked at.
-/

namespace Chronicle

/-- What becomes of a path where both sides of a merge made changes that do not fit together. -/
inductive Policy
  /-- The side that is merged in wins. -/
  | theirs
  /-- The side that is merged into wins. -/
  | ours
  /-- There is no merge. -/
  | fail
  deriving DecidableEq

/-- A call on a backend. -/
inductive Call
  | init (defaultBranch : String)
  | stage (paths : Pathspec)
  | commit (info : CommitInfo)
  | createBranch (name : String)
  | checkout (reference : String)
  | currentBranch
  | merge (theirs : String) (info : CommitInfo) (fastForward : Bool) (policy : Policy)
  | tag (name : String)
  | annotatedTag (name : String) (info : CommitInfo)
  | writeFile (path content : String)
  | appendFile (path content : String)
  deriving DecidableEq

/-- A state machine that answers calls with a text, where there is something to say, or fails them
with an error. -/
structure Backend (σ ε : Type) where
  answer : Call → σ → Except ε (Option String) × σ

/-- One call on a backend. -/
def Backend.call {σ ε : Type} (b : Backend σ ε) (c : Call) : Steps σ ε (Option String) :=
  Steps.of (b.answer c)

/-- The policy of every merge that is replayed. -/
def mergePolicy : Policy := .theirs

/-- The text appended for a content that may have to start on a line of its own. -/
def appended (content : String) (newLine : Bool) : String := if newLine then "\n" ++ content else content

/-- Plays one command. A merge goes back to the branch it was on, which brings the working tree up to
the merge. -/
def Command.replay {σ ε : Type} (b : Backend σ ε) : Command → Steps σ ε Unit
  | init defaultBranch => discard (b.call (.init defaultBranch))
  | commit info => do
    discard (b.call (.stage .all))
    discard (b.call (.commit info))
  | branch name => discard (b.call (.createBranch name))
  | checkout reference => discard (b.call (.checkout reference))
  | merge theirs info => do
    let current ← b.call .currentBranch
    discard (b.call (.merge theirs info false mergePolicy))
    discard (b.call (.checkout (current.getD "HEAD")))
  | tag name none => discard (b.call (.tag name))
  | tag name (some info) => discard (b.call (.annotatedTag name info))
  | createFile file content => discard (b.call (.writeFile file content))
  | changeContent file content => discard (b.call (.writeFile file content))
  | add paths => discard (b.call (.stage paths))
  | appendContent file content newLine => discard (b.call (.appendFile file (appended content newLine)))

/-- Plays commands in order. -/
def replay {σ ε : Type} (b : Backend σ ε) : List Command → Steps σ ε Unit
  | [] => pure ()
  | c :: rest => do
    c.replay b
    replay b rest

end Chronicle
