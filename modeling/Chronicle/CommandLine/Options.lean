import Chronicle.Number.Numeral

/-!
# Options

The words of a command line are options and the values that some of them take. `Options.read` reads
them from left to right: the first word that does not fit ends the reading with a `UsageError`, and so
does, with the text it asks for, a word that asks for help. Each option is given once at most, and a
number of commits not beside a file.
-/

namespace Chronicle

/-- What the words of a command line choose. -/
structure Options where
  /-- Results and failures are shown as JSON. -/
  json : Bool := false
  /-- Results are not shown, unless as JSON. -/
  quiet : Bool := false
  /-- Commands are shown and not carried out. -/
  dryRun : Bool := false
  dir : Option String := none
  commits : Option UInt32 := none
  file : Option String := none
  logLevel : Option String := none
  deriving DecidableEq

/-- What a command line asks for. -/
inductive Invocation
  | help
  | version
  | generate (options : Options)
  deriving DecidableEq

/-- Why the words of a command line do not fit. -/
inductive UsageError
  | unexpected (word : String)
  | valueMissing (option : String)
  | valueUnexpected (option value : String)
  | invalidValue (option value : String)
  | repeated (option : String)
  /-- These two are not given together. -/
  | together (option other : String)
  deriving DecidableEq

/-- The words for an error. -/
def UsageError.message : UsageError → String
  | unexpected word => "unexpected argument '" ++ word ++ "' found"
  | valueMissing option => "a value is required for '" ++ option ++ "' but none was supplied"
  | valueUnexpected option value => "unexpected value '" ++ value ++ "' for '" ++ option ++ "' found"
  | invalidValue option value => "invalid value '" ++ value ++ "' for '" ++ option ++ "'"
  | repeated option => "the argument '" ++ option ++ "' cannot be used multiple times"
  | together option other => "the argument '" ++ option ++ "' cannot be used with '" ++ other ++ "'"

/-! ## Kinds of options -/

/-- An option that stands for itself. -/
inductive Switch
  | json
  | quiet
  | dryRun
  | help
  | version

/-- An option that takes a value. -/
inductive Setting
  | dir
  | commits
  | file
  | logLevel

/-- An option. -/
inductive OptionName
  | switch (s : Switch)
  | setting (s : Setting)

namespace OptionName

/-- The option of a long name, written behind two dashes. -/
def ofLong? : String → Option OptionName
  | "json" => some (.switch .json)
  | "quiet" => some (.switch .quiet)
  | "dry-run" => some (.switch .dryRun)
  | "help" => some (.switch .help)
  | "version" => some (.switch .version)
  | "dir" => some (.setting .dir)
  | "commits" => some (.setting .commits)
  | "file" => some (.setting .file)
  | "log-level" => some (.setting .logLevel)
  | _ => none

/-- The option of a letter, written behind one dash. -/
def ofLetter? : Char → Option OptionName
  | 'h' => some (.switch .help)
  | 'V' => some (.switch .version)
  | 'd' => some (.setting .dir)
  | 'c' => some (.setting .commits)
  | 'f' => some (.setting .file)
  | _ => none

end OptionName

/-- How a setting is spoken of. -/
def Setting.shown : Setting → String
  | dir => "--dir <DIR>"
  | commits => "--commits <COMMITS>"
  | file => "--file <FILE>"
  | logLevel => "--log-level <LOG_LEVEL>"

/-- How a switch is spoken of. -/
def Switch.shown : Switch → String
  | json => "--json"
  | quiet => "--quiet"
  | dryRun => "--dry-run"
  | help => "--help"
  | version => "--version"

/-! ## Words -/

/-- What a word is. -/
inductive Word
  | switch (s : Switch)
  /-- A setting, and its value if that is part of the word. -/
  | setting (s : Setting) (value : Option String)
  /-- Two dashes, behind which there are no options any more. -/
  | dashes

/-- The word that the characters behind two dashes make; an equals sign goes before a value. -/
def Word.ofLong (body : List Char) : Except UsageError Word :=
  let name := String.ofList (body.takeWhile (· != '='))
  let value : Option String :=
    match body.dropWhile (· != '=') with
    | _ :: value => some (String.ofList value)
    | [] => none
  match OptionName.ofLong? name, value with
  | some (.switch s), none => .ok (.switch s)
  | some (.switch s), some value => .error (.valueUnexpected s.shown value)
  | some (.setting s), value => .ok (.setting s value)
  | none, _ => .error (.unexpected ("--" ++ name))

/-- The word that the characters behind one dash make. A setting takes what follows its letter for its
value, with or without an equals sign between them. -/
def Word.ofLetters (letter : Char) (rest : List Char) : Except UsageError Word :=
  match OptionName.ofLetter? letter with
  | some (.switch s) => .ok (.switch s)
  | some (.setting s) =>
    .ok (.setting s (match rest with
      | [] => none
      | '=' :: value => some (String.ofList value)
      | value => some (String.ofList value)))
  | none => .error (.unexpected (String.ofList ['-', letter]))

/-- The word that a text makes. There are no words but options. -/
def Word.read (text : String) : Except UsageError Word :=
  match text.toList with
  | ['-', '-'] => .ok .dashes
  | '-' :: '-' :: body => ofLong body
  | '-' :: letter :: rest => ofLetters letter rest
  | _ => .error (.unexpected text)

/-- Whether a text is an option by its looks, so that it is no value of the option before it. -/
def Word.looksLikeOption (text : String) : Bool :=
  match text.toList with
  | '-' :: _ :: _ => true
  | _ => false

/-! ## Values -/

/-- The count that a numeral stands for, if it is in range. -/
def countOf? (text : String) : Option UInt32 :=
  match Numeral.integer? 10 text.toList with
  | some (.ofNat n) => if n < twoTo 32 then some (UInt32.ofNat n) else none
  | _ => none

namespace Options

/-- The value of a setting that has not been given before. -/
def once {α : Type} (s : Setting) (given : Option α) (value : String) (read : String → Option α) :
    Except UsageError (Option α) :=
  match read value, given with
  | none, _ => .error (.invalidValue s.shown value)
  | some _, some _ => .error (.repeated s.shown)
  | some v, none => .ok (some v)

/-- A path, which is not empty. -/
def path? (text : String) : Option String := if text.isEmpty then none else some text

/-- Gives a setting its value. -/
def set (o : Options) (s : Setting) (value : String) : Except UsageError Options :=
  match s with
  | .dir => return { o with dir := ← once s o.dir value path? }
  | .commits => return { o with commits := ← once s o.commits value countOf? }
  | .file => return { o with file := ← once s o.file value path? }
  | .logLevel => return { o with logLevel := ← once s o.logLevel value some }

/-- Turns a switch on that has not been turned on before. -/
def turnOn (s : Switch) (given : Bool) : Except UsageError Bool :=
  if given then .error (.repeated s.shown) else .ok true

/-- The number of commits is not given beside a file. -/
def check (o : Options) : Except UsageError Invocation :=
  if o.commits.isSome && o.file.isSome then .error (.together Setting.commits.shown Setting.file.shown)
  else .ok (.generate o)

/-- What the words of a command line ask for, behind words that chose the options `o`. -/
def readFrom (o : Options) : List String → Except UsageError Invocation
  | [] => o.check
  | word :: rest => do
    match ← Word.read word with
    | .switch .help => return .help
    | .switch .version => return .version
    | .switch .json => readFrom { o with json := ← turnOn .json o.json } rest
    | .switch .quiet => readFrom { o with quiet := ← turnOn .quiet o.quiet } rest
    | .switch .dryRun => readFrom { o with dryRun := ← turnOn .dryRun o.dryRun } rest
    | .setting s (some value) => readFrom (← o.set s value) rest
    | .setting s none =>
      match rest with
      | [] => .error (.valueMissing s.shown)
      | value :: rest =>
        if Word.looksLikeOption value then .error (.valueMissing s.shown)
        else readFrom (← o.set s value) rest
    | .dashes =>
      match rest with
      | [] => o.check
      | word :: _ => .error (.unexpected word)

/-- What the words of a command line ask for. -/
def read (words : List String) : Except UsageError Invocation := readFrom {} words

end Options

end Chronicle
