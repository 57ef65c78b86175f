import Chronicle.FileTree
import Chronicle.Text.Wildcard

/-!
# Ignored files

A file `.gitignore` lists patterns for the paths around it. The last pattern of the nearest file that
fits decides (`verdict`); where none does, a path shares the lot of the directory it is in (`isIgnored`).
-/

namespace Chronicle

/-- A pattern of a list of ignored paths. -/
structure IgnoreRule where
  pattern : List Char
  /-- What it fits is not ignored. -/
  negative : Bool
  /-- It is for directories. -/
  forDirs : Bool
  /-- It is for paths and not for names. -/
  forPaths : Bool
  /-- A wildcard stands in it. -/
  wild : Bool

namespace IgnoreRule

/-- The name of the files that list patterns. -/
def fileName : String := ".gitignore"

/-- Whether a wildcard stands in a pattern. -/
def hasWildcard : List Char → Bool
  | '\\' :: _ :: rest => hasWildcard rest
  | c :: rest => c == '*' || c == '?' || c == '[' || hasWildcard rest
  | [] => false

/-- A pattern without the spaces at its end that no backslash keeps, the last character first. -/
def dropSpaces : List Char → List Char
  | ' ' :: '\\' :: rest => ' ' :: '\\' :: rest
  | ' ' :: rest => dropSpaces rest
  | '\t' :: '\\' :: rest => '\t' :: '\\' :: rest
  | '\t' :: rest => dropSpaces rest
  | cs => cs

/-- The pattern of a line, if there is one. -/
def ofLine (line : List Char) : Option IgnoreRule :=
  let line := if line.getLast? == some '\r' then line.dropLast else line
  if line.isEmpty || line.head? == some '#' then none
  else
    let negative := line.head? == some '!'
    let body := if negative then line.drop 1 else line
    let rooted := body.head? == some '/'
    let body := (dropSpaces (if rooted then body.drop 1 else body).reverse).reverse
    let forDirs := body.getLast? == some '/'
    let pattern := if forDirs then body.dropLast else body
    if pattern.isEmpty then none
    else some ⟨pattern, negative, forDirs, rooted || pattern.contains '/', hasWildcard pattern⟩

/-- The last name of a path. -/
def lastName (text : List Char) : List Char := (text.reverse.takeWhile (· != '/')).reverse

/-- Whether a rule fits a path, which is given from the place of its list on. -/
def fits (rule : IgnoreRule) (isDir : Bool) (path : List Char) : Bool :=
  if rule.forDirs && !isDir then
    path.contains '/' && rule.pattern != path && Wildcard.fits rule.forPaths rule.pattern path
  else Wildcard.fits rule.forPaths rule.pattern (if rule.forPaths then path else lastName path)

/-- Whether one pattern is the other or the last name of it. -/
def sameEnd (a b : List Char) : Bool :=
  let (short, long) := if a.length ≤ b.length then (a, b) else (b, a)
  short == long ||
    (!short.contains '/' && ('/' :: short).reverse.isPrefixOf long.reverse)

/-- Whether a negative rule takes something back that an earlier rule of its list says. -/
def takesBack (earlier : List IgnoreRule) (rule : IgnoreRule) : Bool :=
  earlier.any fun e =>
    if e.wild then Wildcard.fits e.forPaths e.pattern rule.pattern
    else !e.negative && sameEnd e.pattern rule.pattern

/-- The rules of a list. A negative rule that takes nothing back is left out. -/
def ofText (text : String) : List IgnoreRule :=
  (text.splitOn "\n").foldl
    (fun rules line =>
      match ofLine line.toList with
      | none => rules
      | some rule => if rule.negative && !rule.wild && !takesBack rules rule then rules else rules ++ [rule])
    []

end IgnoreRule

namespace FileTree

/-- What the list of a directory says about a path below it. -/
def verdictOf (t : FileTree) (dir p : Path) (isDir : Bool) : Option Bool :=
  match t.files.get? (dir ++ [IgnoreRule.fileName]) with
  | none => none
  | some text =>
    let below := (Path.render (p.drop dir.length)).toList
    ((IgnoreRule.ofText text).reverse.find? (·.fits isDir below)).map fun rule => !rule.negative

/-- What the nearest list that has something to say about a path says. -/
def verdict (t : FileTree) (p : Path) (isDir : Bool) : Option Bool :=
  (([] :: p.parents).reverse).findSome? fun dir => t.verdictOf dir p isDir

/-- Whether a path is ignored. -/
def isIgnored (t : FileTree) (p : Path) (isDir : Bool) : Bool :=
  let around := p.parents.foldl (fun lot dir => (t.verdict dir true).getD lot) false
  (t.verdict p isDir).getD around

end FileTree

end Chronicle
