import Chronicle.Command

/-!
# Signatures and messages

Who made a commit or a tag, and the message it is stored with. Names lose the blanks and the stray
punctuation around them; `Signature.make?` refuses those of which nothing is left.
-/

namespace Chronicle

/-- Who made a commit or a tag. -/
structure Signature where
  name : String
  email : String
  deriving DecidableEq

namespace Signature

/-- Blanks, control characters and the punctuation that a name does not begin or end with. -/
def isStray (c : Char) : Bool := c.toNat ≤ 32 || [',', ':', ';', '<', '>', '"', '\\', '\''].contains c

/-- A text without the stray characters around it. -/
def bare (text : String) : String :=
  String.ofList ((text.toList.dropWhile isStray).reverse.dropWhile isStray).reverse

/-- Whether a text can never be part of a signature. -/
def isUnfit (text : String) : Bool := text.toList.any fun c => c == '<' || c == '>' || c == '\x00'

/-- The signature for a name and an address, where they make one. -/
def make? (name email : String) : Option Signature :=
  let s : Signature := ⟨bare name, bare email⟩
  if isUnfit name || isUnfit email then none
  else if s.name.isEmpty || s.email.isEmpty then none
  else if s.name.toList.contains '\n' || s.email.toList.contains '\n' then none
  else some s

end Signature

/-- The signature of a commit, a merge or a tag. -/
def CommitInfo.signature? (info : CommitInfo) : Option Signature := Signature.make? info.author info.email

/-- A message as it is stored: it ends its last line. -/
def CommitInfo.stored (info : CommitInfo) : String :=
  if info.message.toList.getLast? == some '\n' then info.message else info.message ++ "\n"

/-- The message as it is stored, where it can be. -/
def CommitInfo.stored? (info : CommitInfo) : Option String :=
  if info.message.toList.contains '\x00' then none else some info.stored

end Chronicle
