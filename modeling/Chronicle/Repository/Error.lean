import Chronicle.Failure
import Chronicle.FileTree

/-!
# Errors of a repository

What ends a call on a repository. `toFailure` says what kind of failure of a whole run each one is.
-/

namespace Chronicle

/-- Why a repository cannot do what it is asked, where nothing more is said about it. -/
inductive Fault
  | general
  | notFound
  | alreadyThere
  | invalidName
  /-- There are references where one would have to be. -/
  | isDirectory
  /-- Too little to tell one object from others. -/
  | ambiguous
  /-- The object does not lead to one of the wanted kind. -/
  | noSuchKind
  deriving DecidableEq

/-- The words for a fault. -/
def Fault.message : Fault → String
  | general => "the request cannot be carried out"
  | notFound => "no such object"
  | alreadyThere => "a reference of that name exists"
  | invalidName => "the name is not valid"
  | isDirectory => "references are kept below that name"
  | ambiguous => "the abbreviation is too short"
  | noSuchKind => "the object is of another kind"

/-- Why a call on a repository fails. -/
inductive RepositoryError
  | invalidLog (error : LogError)
  /-- There is a repository in the directory already. -/
  | repositoryExists (dir : String)
  | notFound (what : String)
  /-- There is no commit yet. -/
  | unborn (what : String)
  /-- Both sides of a merge changed these paths. -/
  | conflict (theirs : String) (paths : List String)
  | invalidPath (path : String)
  | refused (fault : Fault)
  | io (fault : IoFault)
  deriving DecidableEq

namespace RepositoryError

/-- The message of an error. -/
def message : RepositoryError → String
  | invalidLog e => e.toString
  | repositoryExists dir => "A Git repository already exists in " ++ dir
  | notFound what => "Not found: " ++ what
  | unborn what => "Branch has no commits yet: " ++ what
  | conflict theirs paths => "Merge of " ++ theirs ++ " has conflicts in: " ++ ", ".intercalate paths
  | invalidPath path => "Invalid path: " ++ path
  | refused fault => "Git error: " ++ fault.message
  | io fault => "IO error: " ++ fault.message

/-- The failure of a run that an error ends. -/
def toFailure : RepositoryError → Failure
  | invalidLog e => .invalidLog e
  | repositoryExists dir => .repositoryExists dir
  | notFound what => .notFound what
  | unborn what => .repository (unborn what).message
  | conflict theirs paths => .conflict (conflict theirs paths).message
  | invalidPath path => .invalidArguments ("invalid path: " ++ path)
  | refused fault => .repository (refused fault).message
  | io fault => .io fault.message

end RepositoryError

end Chronicle
