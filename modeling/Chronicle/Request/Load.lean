import Chronicle.FileTree
import Chronicle.Request.Read

/-!
# Requests from files

`Request.load` reads the request in a file of a file tree. It fails with `Failure.notFound` if nothing
is there, and otherwise in the way that reading a directory or an unreadable text does.
-/

namespace Chronicle

/-- The request in the file that `path` names for someone in the directory `here`; `shown` is what the
file is called when it is spoken of. -/
def Request.load (t : FileTree) (here : Path) (shown path : String) : Except Failure Request :=
  match t.look (if Path.isAbsolute path then [] else here) (segments path) with
  | .file text => (Request.read (Format.ofPath path) text).mapError .unreadable
  | .directory => .error (.io IoFault.isADirectory.message)
  | .missing | .blocked => .error (.notFound ("Config file not found: " ++ shown))

end Chronicle
