import Chronicle.Command
import Chronicle.Event.Decode
import Chronicle.Document.Json.Printer
import Chronicle.Event.Shorthand
import Chronicle.Request.Basic

/-!
# Compiling a log to commands

`EventLog.compile` turns each event into one command and stops at the first that cannot be turned into
one, reporting its line. The only thing that passes from event to event is the number of commits and
merges so far, which numbers the messages of commits without one. `Event.compile` is the compilation
of a single event.
-/

namespace Chronicle

/-- Why an event does not compile. -/
inductive EventError
  /-- A text that no kind's shorthand reads; it is shown without the blanks around it. -/
  | unknownLine (text : String)
  /-- A document that is no event of any kind. -/
  | unknownEntry (value : Document)
  | rejected (kind : EventKind) (cause : Event.Rejection)
  /-- Something the kind needs is absent or blank. -/
  | missing (kind : EventKind) (what : String)
  /-- An argument after a keyword that takes none. -/
  | unexpectedArgument (kind : EventKind) (arg : String)
  /-- Shorthand of a kind that has none. -/
  | recordNeeded (kind : EventKind)

/-- The words for an error, without its line. -/
def EventError.message : EventError → String
  | unknownLine text => "unrecognized event \"" ++ text ++ "\""
  | unknownEntry value => "unrecognized event " ++ value.compact
  | rejected kind cause => "\"" ++ kind.keyword ++ "\": " ++ cause.message
  | missing kind what => "\"" ++ kind.keyword ++ "\": missing " ++ what
  | unexpectedArgument kind arg =>
    "\"" ++ kind.keyword ++ "\": unexpected argument \"" ++ arg ++ "\""
  | recordNeeded kind => "\"" ++ kind.keyword ++ "\": object form required"

/-- An error and the line of the log it was found at; lines count from 1. -/
structure LogError where
  line : Nat
  message : String
  deriving DecidableEq

/-- An error with its line. -/
def LogError.toString (e : LogError) : String := "line " ++ ToString.toString e.line ++ ": " ++ e.message

/-! ## Defaults -/

/-- Who commits when nobody says so. -/
def defaultAuthor : String := "user-test"

/-- The address that goes with `defaultAuthor`. -/
def defaultEmail : String := "user-test@example.com"

/-- The branch that a repository starts on. -/
def defaultBranch : String := "main"

/-- The message and authorship of a command: the event's own, else the log's, else the default. -/
def Authorship.info (conf : Option Authorship) (message : String) (author email : Option String) :
    CommitInfo where
  message := message
  author := author.getD ((conf.bind (·.author)).getD defaultAuthor)
  email := email.getD ((conf.bind (·.email)).getD defaultEmail)

/-- The message of a commit without one, after `count` commits and merges. -/
def commitMessage (count : Nat) : String := "commit " ++ toString (count + 1)

/-- The message of a merge without one. -/
def mergeMessage (theirs : String) : String := "merge branch " ++ theirs

/-- The message of an annotated tag without one. -/
def tagMessage (name : String) : String := "create tag " ++ name

/-! ## One event -/

/-- A text that has to be given and not to be blank; it is kept as it is. -/
def required (kind : EventKind) (what : String) (value : Option String) : Except EventError String :=
  match value with
  | some v => if Text.allBlank v then .error (.missing kind what) else .ok v
  | none => .error (.missing kind what)

/-- No argument was given. -/
def noArgument (line : ShorthandLine) : Except EventError Unit :=
  if line.arg.isEmpty then .ok () else .error (.unexpectedArgument line.kind line.arg)

/-- The command that a line of shorthand asks for, after `count` commits and merges. -/
def ShorthandLine.compile (conf : Option Authorship) (count : Nat) (line : ShorthandLine) :
    Except EventError Command :=
  match line.kind with
  | .init => do
    noArgument line
    return .init defaultBranch
  | .commit => do
    noArgument line
    return .commit (Authorship.info conf (commitMessage count) none none)
  | .add => do
    noArgument line
    return .add .all
  | .branch => do
    let name ← required .branch "branch name" line.arg
    return .branch name
  | .checkout => do
    let reference ← required .checkout "ref" line.arg
    return .checkout reference
  | .merge => do
    let theirs ← required .merge "branch" line.arg
    return .merge theirs (Authorship.info conf (mergeMessage theirs) none none)
  | .tag => do
    let name ← required .tag "tag name" line.arg
    return .tag name none
  | .createFile => do
    let file ← required .createFile "file name" line.arg
    return .createFile file file
  | .changeContent => .error (.recordNeeded .changeContent)
  | .appendContent => .error (.recordNeeded .appendContent)

/-- The content that has to be given; it may be empty. -/
def requiredContent (kind : EventKind) (content : Option String) : Except EventError String :=
  match content with
  | some text => .ok text
  | none => .error (.missing kind "content")

/-- The command that a keyed event asks for, after `count` commits and merges. -/
def KeyedEvent.compile (conf : Option Authorship) (count : Nat) : KeyedEvent → Except EventError Command
  | .init b =>
    match b.defaultBranch with
    | none => .ok (.init Chronicle.defaultBranch)
    | some name => do
      let name ← required .init "default branch" name
      return .init name
  | .commit b =>
    .ok (.commit (Authorship.info conf (b.message.getD (commitMessage count)) b.author b.email))
  | .merge b => do
    let theirs ← required .merge "branch" b.theirs
    return .merge theirs (Authorship.info conf (b.message.getD (mergeMessage theirs)) b.author b.email)
  | .tag b => do
    let name ← required .tag "tag name" b.name
    let info := Authorship.info conf (b.message.getD (tagMessage name)) b.author b.email
    return .tag name (if b.annotated then some info else none)
  | .createFile b => do
    let file ← required .createFile "file name" b.file
    return .createFile file (b.content.getD file)
  | .changeContent b => do
    let file ← required .changeContent "file name" b.file
    let content ← requiredContent .changeContent b.content
    return .changeContent file content
  | .add b =>
    if b.all then .ok (.add .all)
    else do
      let file ← required .add "file name" b.file
      return .add (.file file)
  | .appendContent b => do
    let file ← required .appendContent "file name" b.file
    let content ← requiredContent .appendContent b.content
    return .appendContent file content b.newLine

/-- The command that an event asks for, after `count` commits and merges. -/
def Event.compile (conf : Option Authorship) (count : Nat) : Event → Except EventError Command
  | .shorthand text =>
    match ShorthandLine.read text with
    | some line => line.compile conf count
    | none => .error (.unknownLine (Text.trim text))
  | .keyed e => e.compile conf count
  | .unrecognized value =>
    match Event.rejection? value with
    | some (kind, cause) => .error (.rejected kind cause)
    | none => .error (.unknownEntry value)

/-! ## A log -/

/-- Compiles events from line `line` on, after `count` commits and merges. -/
def compileFrom (conf : Option Authorship) : Nat → Nat → List Event → Except LogError (List Command)
  | _, _, [] => .ok []
  | line, count, event :: rest =>
    match event.compile conf count with
    | .error e => .error ⟨line, e.message⟩
    | .ok command => do
      let commands ← compileFrom conf (line + 1) (if command.createsCommit then count + 1 else count) rest
      return command :: commands

/-- The commands that a log asks for, or its first error. -/
def EventLog.compile (log : EventLog) : Except LogError (List Command) :=
  compileFrom log.authorship 1 0 log.events

end Chronicle
