import Chronicle.Compile

/-!
# Failures

A `Failure` is what ends a run without a result: `code` names its kind, `exitCode` is the status a
program leaves with, and `suggestions` says what may help.
-/

namespace Chronicle

/-- The formats that a request can be written in. -/
inductive Format
  | json
  | toml
  | yaml
  deriving DecidableEq

/-- Why the text of a request could not be read. -/
inductive ReadError
  /-- The text is no JSON. -/
  | json (message : String)
  /-- The text is a document, but no request. -/
  | noRequest (format : Format)
  /-- The text is no document of its format. -/
  | malformed (format : Format)
  deriving DecidableEq

/-- The words for a document that is no request; in a TOML message they make a line of their own. -/
def Format.noRequest : Format → String
  | json | yaml => "data did not match any variant of untagged enum GenerateRequest"
  | toml => "data did not match any variant of untagged enum GenerateRequest\n"

/-- What a format is called at the head of a message. -/
def Format.label : Format → String
  | json => "JSON error: "
  | toml => "TOML parse error: "
  | yaml => "YAML parse error: "

/-- Why a run ended without a result. -/
inductive Failure
  | invalidArguments (message : String)
  | invalidLog (error : LogError)
  /-- There is a repository in the directory already. -/
  | repositoryExists (dir : String)
  | notFound (message : String)
  | conflict (message : String)
  | repository (message : String)
  | io (message : String)
  | unreadable (error : ReadError)
  deriving DecidableEq

namespace Failure

/-- The message that is shown. -/
def message : Failure → String
  | invalidArguments m => "invalid arguments: " ++ m
  | invalidLog e => e.toString
  | repositoryExists dir => "A Git repository already exists in " ++ dir
  | notFound m => "not found: " ++ m
  | conflict m => "merge conflict: " ++ m
  | repository m => "git error: " ++ m
  | io m => "IO error: " ++ m
  | unreadable (.json m) => Format.json.label ++ m
  | unreadable (.noRequest f) => f.label ++ f.noRequest
  | unreadable (.malformed f) => f.label

/-- The name of the kind of failure. -/
def code : Failure → String
  | invalidArguments _ => "invalid_args"
  | invalidLog _ => "invalid_event_log"
  | repositoryExists _ => "repo_exists"
  | notFound _ => "not_found"
  | conflict _ => "conflict"
  | repository _ => "git_error"
  | io _ => "io_error"
  | unreadable _ => "invalid_config"

/-- The status that a program leaves with. -/
def exitCode : Failure → Nat
  | repository _ => 1
  | invalidArguments _ | invalidLog _ | unreadable _ => 2
  | notFound _ => 3
  | repositoryExists _ | conflict _ => 4
  | io _ => 5

/-- Whether `part` stands somewhere in `text`. -/
def contains (part : List Char) : List Char → Bool
  | [] => part.isEmpty
  | c :: rest => part.isPrefixOf (c :: rest) || contains part rest

/-- What may help. -/
def suggestions : Failure → List String
  | repositoryExists _ =>
    ["Pass --dir with an empty or missing directory", "Or remove the existing .git directory first"]
  | invalidLog _ => ["Run with --dry-run to check the log without touching the filesystem"]
  | notFound m =>
    if contains "branch".toList m.toList || contains "ref".toList m.toList then
      ["Create the branch with a \"branch <name>\" event before using it"]
    else []
  | _ => []

end Failure

end Chronicle
