import Chronicle.CommandLine.Answer

/-!
# Output

What a run of the command line writes, and the status that it ends with: results go to the output,
failures to the error output. `CommandLine.run` is a whole run, from the words of the command line on;
it is told what commits are called.
-/

namespace Chronicle

/-- What a run writes and the status it ends with. -/
structure Output where
  exit : Nat := 0
  out : String := ""
  err : String := ""
  deriving DecidableEq

/-- Texts one below the other, each ending its line. -/
def lines (texts : List String) : String := String.join (texts.map (· ++ "\n"))

/-- What commits are called. -/
abbrev Naming := CommitId → String

/-- A report as a document. -/
def Report.toDocument (naming : Naming) (r : Report) : Document :=
  .record ([("dir", .text r.dir), ("commands", .int r.commands), ("commits", .int r.commits)]
    ++ Document.textField "branch" r.branch ++ Document.textField "head" (r.head.map naming))

/-- How many digits of a commit's name tell it from others. -/
def shortName : Nat := 8

/-- The lines that say where a head is. -/
def Report.headLine (naming : Naming) (r : Report) : List String :=
  match r.head with
  | none => []
  | some id =>
    ["HEAD: " ++ r.branch.getD "detached" ++ " at " ++ String.ofList ((naming id).toList.take shortName)]

/-- What a report says to people. -/
def Report.summary (naming : Naming) (r : Report) : List String :=
  ("Generated " ++ toString r.commits ++ " commits (" ++ toString r.commands ++ " commands) in " ++ r.dir)
    :: r.headLine naming

namespace Answer

/-- What a run comes to, as a document. -/
def toDocument (naming : Naming) : Answer → Document
  | commands list => .list (list.map Command.toDocument)
  | report r => r.toDocument naming

/-- What a run says to people. -/
def summary (naming : Naming) : Answer → List String
  | commands list => [(toDocument naming (commands list)).pretty]
  | report r => r.summary naming

end Answer

namespace Failure

/-- What a failure says beside its code and message. -/
def details (f : Failure) : List (String × Document) :=
  (match f with
    | invalidLog e => [("line", .int e.line)]
    | _ => [])
  ++ if f.suggestions.isEmpty then [] else [("suggestions", .list (f.suggestions.map .text))]

/-- A failure as a document. -/
def toDocument (f : Failure) : Document :=
  .record ([("code", .text f.code), ("message", .text f.message)]
    ++ if f.details.isEmpty then [] else [("details", .record f.details)])

/-- What a failure says to people; an error in a log is told with the file that the log is in. -/
def summary (f : Failure) (file : Option String) : List String :=
  let place :=
    match f, file with
    | invalidLog _, some file => file ++ ": "
    | _, _ => ""
  ("error: " ++ place ++ f.message)
    :: if f.suggestions.isEmpty then [] else ["", "Suggestions:"] ++ f.suggestions.map ("  - " ++ ·)

end Failure

/-- The version of the shape that results and failures have as JSON. -/
def schemaVersion : Nat := 1

/-- A result or a failure with what tells it from the other. -/
def envelope (succeeded : Bool) (name : String) (content : Document) : Document :=
  .record [("schema_version", .int schemaVersion), ("ok", .bool succeeded), (name, content)]

/-- What is written about what a run comes to. -/
def Options.output (o : Options) (naming : Naming) : Except Failure Answer → Output
  | .ok a =>
    if o.json then { out := lines [(envelope true "data" (a.toDocument naming)).pretty] }
    else if o.quiet then {}
    else { out := lines (a.summary naming) }
  | .error f =>
    { exit := f.exitCode
      err := if o.json then lines [(envelope false "error" f.toDocument).pretty] else lines (f.summary o.file) }

namespace CommandLine

/-- What the program is called. -/
def programName : String := "gitgen"

/-- The version of the program. -/
def programVersion : String := "0.1.0"

/-- How the program is used. -/
def usageLine : String := "Usage: " ++ programName ++ " [OPTIONS]"

/-- The text that explains the options. -/
def helpText : String :=
  lines
    ["Generate a git repository with a known history",
      "",
      usageLine,
      "",
      "Options:",
      "      --json                   Output in JSON format",
      "      --quiet                  Suppress human-readable output",
      "  -d, --dir <DIR>              Directory to generate the repository in (default: current directory)",
      "  -c, --commits <COMMITS>      Number of linear commits to generate when no config file is given [default: 3]",
      "  -f, --file <FILE>            YAML, JSON or TOML file holding an event log",
      "      --dry-run                Print the normalized commands without touching the filesystem",
      "      --log-level <LOG_LEVEL>  Log level (trace, debug, info, warn, error) [default: warn]",
      "  -h, --help                   Print help",
      "  -V, --version                Print version"]

/-- The status that a command line which does not fit ends with. -/
def usageStatus : Nat := 2

/-- What is written about a command line that does not fit. -/
def refusal (e : UsageError) : Output where
  exit := usageStatus
  err := lines ["error: " ++ e.message, "", usageLine, "", "For more information, try '--help'."]

/-- What the commits of a site are called, if `naming` says so of each repository. -/
def namingIn (naming : Repository → Naming) (s : Site) : Naming :=
  match s.repository with
  | some r => naming r
  | none => CommitId.digits

/-- A run with the words of a command line, for someone in the directory `here`. -/
def run (naming : Repository → Naming) (here : Site.Target) (words : List String) (s : Site) : Output × Site :=
  match Options.read words with
  | .error e => (refusal e, s)
  | .ok .help => ({ out := helpText }, s)
  | .ok .version => ({ out := lines [programName ++ " " ++ programVersion] }, s)
  | .ok (.generate o) =>
    let (result, s) := o.answer here s
    (o.output (namingIn naming s) result, s)

end CommandLine

end Chronicle
