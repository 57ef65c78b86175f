import Chronicle.Document.Json.Reader
import Chronicle.Document.Toml.Reader
import Chronicle.Document.Yaml.Reader
import Chronicle.Failure
import Chronicle.Path
import Chronicle.Request.Decode

/-!
# Requests from text

`Format.ofPath` chooses the format of a file by the extension of its name, and `Request.read` reads a
request in a format: first the text as a document, then the document as a request.
-/

namespace Chronicle

/-- What follows the last dot of a name; the dot must not be the name's first character. -/
def extensionOf (name : List Char) : Option (List Char) :=
  if name = ['.', '.'] then none
  else
    let behind := name.reverse.takeWhile (· != '.')
    let before := name.length - behind.length
    if 2 ≤ before then some behind.reverse else none

/-- The format of the file at a path. -/
def Format.ofPath (path : String) : Format :=
  match (Path.normal path).getLast?.bind fun name => extensionOf name.toList with
  | some ['j', 's', 'o', 'n'] => .json
  | some ['t', 'o', 'm', 'l'] => .toml
  | _ => .yaml

/-- The request in a JSON text. A text that starts with a value that is no request is reported as
such, whatever follows the value. -/
def Request.readJson (text : String) : Except ReadError Request :=
  match Json.readLeading text with
  | .error e => .error (.json (e.message text))
  | .ok (doc, rest) =>
    match Request.ofDocument? doc, rest with
    | none, _ => .error (.noRequest .json)
    | some _, some e => .error (.json (e.message text))
    | some r, none => .ok r

/-- The request in a YAML text. A document that is no request is reported as such, whatever follows it. -/
def Request.readYaml (text : String) : Except ReadError Request :=
  match Yaml.read text with
  | none => .error (.malformed .yaml)
  | some result =>
    match Request.ofDocument? result.document with
    | none => .error (.noRequest .yaml)
    | some r => if result.goesOn then .error (.malformed .yaml) else .ok r

/-- The request in a TOML text. -/
def Request.readToml (text : String) : Except ReadError Request :=
  match Toml.read text with
  | none => .error (.malformed .toml)
  | some d =>
    match Request.ofDocument? d with
    | none => .error (.noRequest .toml)
    | some r => .ok r

/-- The request in a text. -/
def Request.read (format : Format) (text : String) : Except ReadError Request :=
  match format with
  | .json => readJson text
  | .yaml => readYaml text
  | .toml => readToml text

end Chronicle
