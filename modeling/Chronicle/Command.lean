import Chronicle.Document.Basic

/-!
# Commands

A command is one change of a repository with nothing left open. `Command.toDocument` writes a command
in the shape of the keyed event that asks for it.
-/

namespace Chronicle

/-- Message and authorship of a commit, a merge or an annotated tag. -/
structure CommitInfo where
  message : String
  author : String
  email : String
  deriving DecidableEq

/-- What is staged. -/
inductive Pathspec
  /-- Everything that changed. -/
  | all
  /-- One path. -/
  | file (path : String)
  deriving DecidableEq

/-- One change of a repository. -/
inductive Command
  | init (defaultBranch : String)
  | commit (info : CommitInfo)
  | branch (name : String)
  | checkout (reference : String)
  | merge (theirs : String) (info : CommitInfo)
  /-- A tag; without a note it is lightweight. -/
  | tag (name : String) (note : Option CommitInfo)
  | createFile (file content : String)
  | changeContent (file content : String)
  | add (paths : Pathspec)
  | appendContent (file content : String) (newLine : Bool)
  deriving DecidableEq

/-- The fields of a message and its authorship. -/
def CommitInfo.toFields (info : CommitInfo) : List (String × Document) :=
  [("message", .text info.message), ("author", .text info.author), ("email", .text info.email)]

/-- What is staged, as a document. -/
def Pathspec.toDocument : Pathspec → Document
  | all => .text "all"
  | file path => .record [("file", .text path)]

namespace Command

/-- Commits and merges are the commands that make a commit. -/
def createsCommit : Command → Bool
  | commit _ | merge .. => true
  | _ => false

/-- The keyword of a command and what stands under it. -/
def toEntry : Command → String × Document
  | init defaultBranch => ("init", .record [("defaultBranch", .text defaultBranch)])
  | commit info => ("commit", .record info.toFields)
  | branch name => ("branch", .record [("name", .text name)])
  | checkout reference => ("checkout", .record [("ref", .text reference)])
  | merge theirs info => ("merge", .record (("theirs", .text theirs) :: info.toFields))
  | tag name note =>
    ("tag", .record (("name", .text name) :: (note.map CommitInfo.toFields).getD []))
  | createFile file content => ("create file", .record [("file", .text file), ("content", .text content)])
  | changeContent file content =>
    ("change content", .record [("file", .text file), ("content", .text content)])
  | add paths => ("add", paths.toDocument)
  | appendContent file content newLine =>
    ("append content",
      .record [("file", .text file), ("content", .text content), ("newLine", .bool newLine)])

/-- A command as a document. -/
def toDocument (c : Command) : Document := .record [c.toEntry]

end Command

end Chronicle
