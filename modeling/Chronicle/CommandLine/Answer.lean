import Chronicle.CommandLine.Options
import Chronicle.Generate
import Chronicle.Request.Load

/-!
# Answers

What a run comes to when its options are known. `Options.request` finds out what to generate, and
`Options.answer` generates it; a dry run only compiles and leaves everything as it is.
-/

namespace Chronicle

/-- What a run comes to when it does not fail. -/
inductive Answer
  /-- A dry run lists the commands that it would carry out. -/
  | commands (list : List Command)
  | report (report : Report)
  deriving DecidableEq

/-- The number of commits where neither it nor a file is given. -/
def usualCommits : UInt32 := 3

namespace Options

/-- The request in the file that was given, or the one for a number of commits in a line. -/
def request (o : Options) (here : Path) (t : FileTree) : Except Failure Request :=
  match o.file with
  | some file => Request.load t here file file
  | none => .ok (.commits (o.commits.getD usualCommits))

/-- The directory to generate in; `here` if none was given. -/
def target (o : Options) (here : Site.Target) : Site.Target :=
  match o.dir with
  | some dir => .ofText here dir
  | none => here

/-- Does what a request asks for, or lists the commands for it in a dry run. -/
def carryOut (o : Options) (here : Site.Target) (request : Request) (s : Site) : Except Failure Answer × Site :=
  if o.dryRun then ((request.toLog.compile.mapError Failure.invalidLog).map .commands, s)
  else
    let (result, s) := s.generate (o.target here) request
    ((result.mapError RepositoryError.toFailure).map .report, s)

/-- Does what the options ask for, for someone in the directory `here`. -/
def answer (o : Options) (here : Site.Target) (s : Site) : Except Failure Answer × Site :=
  match o.request here.dir s.tree with
  | .error e => (.error e, s)
  | .ok request => o.carryOut here request s

end Options

end Chronicle
