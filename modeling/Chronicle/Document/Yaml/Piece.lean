import Chronicle.Document.Yaml.Token

/-!
# Pieces of a YAML document

The tokens of a text are put together to pieces: scalars, aliases, and the beginnings and ends of
collections. `Page.ofTokens` reads the first document of a text; an `Expect` says what has to come next,
and the stack of them holds what is still open.
-/

namespace Chronicle.Yaml

/-- A scalar; without a tag its meaning goes by how it is written. -/
structure Scalar where
  text : List Char
  plain : Bool
  tag : Option (List Char)
  deriving DecidableEq

/-- A piece of a document. -/
inductive Piece
  | alias (name : List Char)
  | scalar (value : Scalar) (anchor : Option (List Char))
  | sequence (tag anchor : Option (List Char))
  | mapping (tag anchor : Option (List Char))
  /-- The end of a sequence or of a mapping. -/
  | close
  deriving DecidableEq

/-- What has to come next. -/
inductive Expect
  | node (block indentless : Bool)
  | blockItem
  | indentlessItem
  | blockKey
  | blockValue
  | flowItem (first : Bool)
  /-- The key of a mapping of one entry, which a list may have without braces. -/
  | pairKey
  | pairValue
  | pairEnd
  | flowKey (first : Bool)
  /-- The value of a key; `absent` if there can be none. -/
  | flowValue (absent : Bool)

/-- What handles of tags stand for. -/
abbrev Handles := List (List Char × List Char)

/-- The handles that every document has. -/
def standardHandles : Handles := [(['!'], ['!']), (['!', '!'], "tag:yaml.org,2002:".toList)]

/-- A tag in full. -/
def TagText.resolve (handles : Handles) (t : TagText) : Option (List Char) :=
  if t.handle.isEmpty then some t.rest else (handles.lookup t.handle).map (· ++ t.rest)

/-- A scalar that is not written. -/
def absentScalar : Piece := .scalar ⟨[], true, none⟩ none

/-- What a step came to: the pieces it found, what has to come next, and the tokens that are left. -/
abbrev Progress := List Piece × List Expect × List Token

/-- The anchor and the tag before a node, in either order. -/
def properties (handles : Handles) : List Token → Option (Option (List Char) × Option (List Char) × List Token)
  | .anchor name :: .tag t :: rest => (t.resolve handles).map fun t => (some name, some t, rest)
  | .tag t :: .anchor name :: rest => (t.resolve handles).map fun t => (some name, some t, rest)
  | .anchor name :: rest => some (some name, none, rest)
  | .tag t :: rest => (t.resolve handles).map fun t => (none, some t, rest)
  | tokens => some (none, none, tokens)

/-- Reads a node, or its beginning. -/
def stepNode (handles : Handles) (block indentless : Bool) (tokens : List Token) : Option Progress :=
  match tokens with
  | .alias name :: rest => some ([.alias name], [], rest)
  | _ => do
    let (anchor, tag, tokens) ← properties handles tokens
    match tokens with
    | .blockEntry :: _ =>
      if indentless then return ([.sequence tag anchor], [.indentlessItem], tokens)
      if anchor.isSome || tag.isSome then return ([.scalar ⟨[], true, tag⟩ anchor], [], tokens)
      none
    | .scalar text plain :: rest => return ([.scalar ⟨text, plain, tag⟩ anchor], [], rest)
    | .flowSequence :: rest => return ([.sequence tag anchor], [.flowItem true], rest)
    | .flowMapping :: rest => return ([.mapping tag anchor], [.flowKey true], rest)
    | .blockSequence :: rest =>
      if block then return ([.sequence tag anchor], [.blockItem], rest)
      if anchor.isSome || tag.isSome then return ([.scalar ⟨[], true, tag⟩ anchor], [], tokens)
      none
    | .blockMapping :: rest =>
      if block then return ([.mapping tag anchor], [.blockKey], rest)
      if anchor.isSome || tag.isSome then return ([.scalar ⟨[], true, tag⟩ anchor], [], tokens)
      none
    | [] => none
    | _ =>
      if anchor.isSome || tag.isSome then return ([.scalar ⟨[], true, tag⟩ anchor], [], tokens)
      none

/-- Goes on with a node, unless a token follows that says there is none. -/
def nodeUnless (ends : Token → Bool) (block indentless : Bool) (next : Expect) (tokens : List Token) :
    Option Progress :=
  match tokens with
  | [] => none
  | t :: _ =>
    if ends t then some ([absentScalar], [next], tokens) else some ([], [.node block indentless, next], tokens)

/-- Tokens after which an item of a block has nothing in it. -/
def endsItem : Token → Bool
  | .blockEntry | .blockEnd => true
  | _ => false

/-- Tokens after which an item that is not indented has nothing in it. -/
def endsLooseItem : Token → Bool
  | .blockEntry | .key | .value | .blockEnd => true
  | _ => false

/-- Tokens after which a key or a value in a block has nothing in it. -/
def endsEntry : Token → Bool
  | .key | .value | .blockEnd => true
  | _ => false

/-- Tokens after which a key of a list has nothing in it. -/
def endsPairKey : Token → Bool
  | .value | .flowEntry | .flowSequenceEnd => true
  | _ => false

/-- Tokens after which a value in a list has nothing in it. -/
def endsPairValue : Token → Bool
  | .flowEntry | .flowSequenceEnd => true
  | _ => false

/-- Tokens after which a key within braces has nothing in it. -/
def endsFlowKey : Token → Bool
  | .value | .flowEntry | .flowMappingEnd => true
  | _ => false

/-- Tokens after which a value within braces has nothing in it. -/
def endsFlowValue : Token → Bool
  | .flowEntry | .flowMappingEnd => true
  | _ => false

/-- Reads an item of a list within brackets, whose comma was passed. -/
def stepFlowItem : List Token → Option Progress
  | .flowSequenceEnd :: rest => some ([.close], [], rest)
  | .key :: rest => some ([.mapping none none], [.pairKey, .flowItem false], rest)
  | [] => none
  | tokens => some ([], [.node false false, .flowItem false], tokens)

/-- Reads an entry within braces, whose comma was passed. -/
def stepFlowKey : List Token → Option Progress
  | .flowMappingEnd :: rest => some ([.close], [], rest)
  | .key :: rest => nodeUnless endsFlowKey false false (.flowValue false) rest
  | [] => none
  | tokens => some ([], [.node false false, .flowValue true], tokens)

/-- Reads what has to come next, or a part of it. -/
def step (handles : Handles) (tokens : List Token) : Expect → Option Progress
  | .node block indentless => stepNode handles block indentless tokens
  | .blockItem =>
    match tokens with
    | .blockEntry :: rest => nodeUnless endsItem true false .blockItem rest
    | .blockEnd :: rest => some ([.close], [], rest)
    | _ => none
  | .indentlessItem =>
    match tokens with
    | .blockEntry :: rest => nodeUnless endsLooseItem true false .indentlessItem rest
    | [] => none
    | _ => some ([.close], [], tokens)
  | .blockKey =>
    match tokens with
    | .key :: rest => nodeUnless endsEntry true true .blockValue rest
    | .blockEnd :: rest => some ([.close], [], rest)
    | _ => none
  | .blockValue =>
    match tokens with
    | .value :: rest => nodeUnless endsEntry true true .blockKey rest
    | [] => none
    | _ => some ([absentScalar], [.blockKey], tokens)
  | .flowItem first =>
    match first, tokens with
    | true, _ => stepFlowItem tokens
    | false, .flowEntry :: rest => stepFlowItem rest
    | false, .flowSequenceEnd :: rest => some ([.close], [], rest)
    | _, _ => none
  | .pairKey =>
    match tokens with
    | [] => none
    | t :: rest =>
      -- A token that leaves the key empty is passed, even if it is the colon of the value.
      if endsPairKey t then some ([absentScalar], [.pairValue], rest)
      else some ([], [.node false false, .pairValue], tokens)
  | .pairValue =>
    match tokens with
    | .value :: rest => nodeUnless endsPairValue false false .pairEnd rest
    | [] => none
    | _ => some ([absentScalar], [.pairEnd], tokens)
  | .pairEnd => some ([.close], [], tokens)
  | .flowKey first =>
    match first, tokens with
    | true, _ => stepFlowKey tokens
    | false, .flowEntry :: rest => stepFlowKey rest
    | false, .flowMappingEnd :: rest => some ([.close], [], rest)
    | _, _ => none
  | .flowValue absent =>
    match absent, tokens with
    | _, [] => none
    | false, .value :: rest => nodeUnless endsFlowValue false false (.flowKey false) rest
    | _, _ => some ([absentScalar], [.flowKey false], tokens)

/-- The pieces of a node and the tokens behind it; none if something else comes than has to. -/
def readPieces (handles : Handles) : Nat → List Expect → List Token → Option (List Piece × List Token)
  | _, [], tokens => some ([], tokens)
  | 0, _, _ => none
  | fuel + 1, expected :: stack, tokens => do
    let (found, next, tokens) ← step handles tokens expected
    let (more, tokens) ← readPieces handles fuel (next ++ stack) tokens
    return (found ++ more, tokens)

/-- The first document of a text. -/
inductive Page
  /-- There is none. -/
  | blank
  /-- It is not well formed. -/
  | broken
  /-- Its pieces, and whether nothing comes after it. -/
  | whole (pieces : List Piece) (alone : Bool)
  deriving DecidableEq

/-- Whether nothing but ends of documents is left. -/
def isOver (tokens : List Token) : Bool :=
  match tokens.dropWhile fun | .documentEnd => true | _ => false with
  | .streamEnd :: _ => true
  | _ => false

/-- Whether a token may follow the start of a document that holds nothing. -/
def endsDocument : Token → Bool
  | .version .. | .handle .. | .documentStart | .documentEnd | .streamEnd => true
  | _ => false

/-- Reads the directives before a document. -/
def readDirectives (hasVersion : Bool) (named : Handles) : List Token → Option (Handles × List Token)
  | .version major minor :: rest =>
    if hasVersion || major != 1 || !(minor == 1 || minor == 2) then none else readDirectives true named rest
  | .handle name meaning :: rest =>
    if (named.lookup name).isSome then none else readDirectives hasVersion ((name, meaning) :: named) rest
  | tokens => some (named ++ standardHandles, tokens)

/-- Reads the root of a document. -/
def Page.ofRoot (handles : Handles) (tokens : List Token) : Page :=
  match readPieces handles (4 * tokens.length + 4) [.node true false] tokens with
  | none => .broken
  | some (pieces, rest) => .whole pieces (isOver rest)

/-- The first document that tokens make. -/
def Page.ofTokens (tokens : List Token) : Page :=
  match tokens with
  | .streamEnd :: _ => .blank
  | .version .. :: _ | .handle .. :: _ | .documentStart :: _ =>
    match readDirectives false [] tokens with
    | some (handles, .documentStart :: t :: rest) =>
      if endsDocument t then .whole [absentScalar] (isOver (t :: rest)) else .ofRoot handles (t :: rest)
    | _ => .broken
  | _ => .ofRoot standardHandles tokens

end Chronicle.Yaml
