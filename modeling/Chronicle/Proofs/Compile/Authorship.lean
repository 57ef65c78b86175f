import Chronicle.Proofs.Compile.Log

/-!
# Who signs

The authorship that is given for a whole log goes into the commands that bear a signature, commits, merges
and annotated tags, and nowhere else. Name and address are the event's own where it gives them, each by
itself, else the log's, else the default (`Event.author`, `Event.email`). All of it follows from one
equation: an event compiles under one authorship to what it compiles to under another, signed anew
(`Event.compile_signed`). **So the authorship of a log decides who signs its commands, and nothing else**
(`EventLog.authorship_signs_only`).
-/

namespace Chronicle

open Outcome

/-! ## Signatures -/

/-- A message under the name and the address of someone. -/
def CommitInfo.signedBy (author email : String) (info : CommitInfo) : CommitInfo := { info with author, email }

namespace Command

/-- The message and the signature that a command bears. -/
def info? : Command → Option CommitInfo
  | commit info | merge _ info => some info
  | tag _ note => note
  | _ => none

/-- A command that someone signs, if it bears a signature. -/
def signedBy (author email : String) : Command → Command
  | commit info => commit (info.signedBy author email)
  | merge theirs info => merge theirs (info.signedBy author email)
  | tag name note => tag name (note.map (CommitInfo.signedBy author email))
  | c => c

/-- A command with the signature left out. -/
def unsigned (c : Command) : Command := c.signedBy "" ""

/-- The last one to sign is the one whose signature stays. -/
theorem signedBy_signedBy (author email author' email' : String) (c : Command) :
    (c.signedBy author' email').signedBy author email = c.signedBy author email := by
  cases c with
  | tag name note => cases note <;> rfl
  | _ => rfl

theorem unsigned_signedBy (author email : String) (c : Command) : (c.signedBy author email).unsigned = c.unsigned :=
  signedBy_signedBy "" "" author email c

/-- A signed command bears the signature, or none. -/
theorem signature_of_signedBy {author email : String} {c : Command} {info : CommitInfo}
    (h : (c.signedBy author email).info? = some info) : info.author = author ∧ info.email = email := by
  cases c with
  | commit _ | merge _ _ =>
    cases h
    exact ⟨rfl, rfl⟩
  | tag name note =>
    obtain ⟨_, _, rfl⟩ := Option.map_eq_some_iff.mp h
    exact ⟨rfl, rfl⟩
  | _ => cases h

end Command

/-! ## One event -/

/-- The name that an event gives for its author. -/
def Event.givenAuthor? : Event → Option String
  | keyed (.commit body) => body.author
  | keyed (.merge body) => body.author
  | keyed (.tag body) => body.author
  | _ => none

/-- The address that an event gives for its author. -/
def Event.givenEmail? : Event → Option String
  | keyed (.commit body) => body.email
  | keyed (.merge body) => body.email
  | keyed (.tag body) => body.email
  | _ => none

/-- A tag, in either form, that is not annotated. -/
def Event.isLightTag : Event → Bool
  | shorthand text => (ShorthandLine.read text).map (·.kind) == some .tag
  | keyed (.tag body) => !body.annotated
  | _ => false

/-- The name of the one who signs the command of an event: the event's, else the log's, else the default. -/
def Event.author (conf : Option Authorship) (e : Event) : String :=
  e.givenAuthor?.getD ((conf.bind (·.author)).getD "user-test")

/-- The address that goes with the name, by the same rule and apart from it. -/
def Event.email (conf : Option Authorship) (e : Event) : String :=
  e.givenEmail?.getD ((conf.bind (·.email)).getD "user-test@example.com")

section

variable {conf : Option Authorship} {count : Nat} {e : Event} {c : Command}

theorem ShorthandLine.compile_signed (conf conf' : Option Authorship) (count : Nat) (line : ShorthandLine)
    (text : String) : line.compile conf count = (line.compile conf' count).map
      (Command.signedBy ((Event.shorthand text).author conf) ((Event.shorthand text).email conf)) := by
  unfold compile
  cases line.kind with
  | init | commit | add => cases noArgument line <;> rfl
  | branch => cases required .branch "branch name" line.arg <;> rfl
  | checkout => cases required .checkout "ref" line.arg <;> rfl
  | merge => cases required .merge "branch" line.arg <;> rfl
  | tag => cases required .tag "tag name" line.arg <;> rfl
  | createFile => cases required .createFile "file name" line.arg <;> rfl
  | changeContent | appendContent => rfl

theorem KeyedEvent.compile_signed (conf conf' : Option Authorship) (count : Nat) (k : KeyedEvent) :
    k.compile conf count = (k.compile conf' count).map
      (Command.signedBy ((Event.keyed k).author conf) ((Event.keyed k).email conf)) := by
  cases k with
  | init body =>
    obtain ⟨_ | name⟩ := body
    · rfl
    · simp only [compile]
      cases required .init "default branch" (some name) <;> rfl
  | commit body => rfl
  | merge body =>
    simp only [compile]
    cases required .merge "branch" body.theirs <;> rfl
  | tag body =>
    obtain ⟨name, annotated, message, author, email⟩ := body
    simp only [compile]
    cases required .tag "tag name" name <;> cases annotated <;> rfl
  | createFile body =>
    simp only [compile]
    cases required .createFile "file name" body.file <;> rfl
  | changeContent body =>
    simp only [compile]
    cases required .changeContent "file name" body.file with
    | error x => rfl
    | ok file => cases requiredContent .changeContent body.content <;> rfl
  | add body =>
    obtain ⟨file, _ | _⟩ := body
    · simp only [compile]
      cases required .add "file name" file <;> rfl
    · rfl
  | appendContent body =>
    simp only [compile]
    cases required .appendContent "file name" body.file with
    | error x => rfl
    | ok file => cases requiredContent .appendContent body.content <;> rfl

/-- **The signature is all that depends on the log's authorship**: an event compiles to what it compiles to
under any other one, signed by whom it says. -/
theorem Event.compile_signed (conf conf' : Option Authorship) (count : Nat) (e : Event) :
    e.compile conf count = (e.compile conf' count).map (Command.signedBy (e.author conf) (e.email conf)) := by
  cases e with
  | shorthand text =>
    simp only [compile]
    cases ShorthandLine.read text with
    | none => rfl
    | some line => exact line.compile_signed conf conf' count text
  | keyed k => exact k.compile_signed conf conf' count
  | unrecognized value =>
    simp only [compile]
    cases rejection? value <;> rfl

theorem Event.signedBy_of_compile (h : e.compile conf count = .ok c) :
    c.signedBy (e.author conf) (e.email conf) = c := by
  have hsigned := e.compile_signed conf conf count
  rw [h] at hsigned
  exact (Except.ok.inj hsigned).symm

theorem Event.signature_of_compile (h : e.compile conf count = .ok c) {info : CommitInfo}
    (hinfo : c.info? = some info) : info.author = e.author conf ∧ info.email = e.email conf := by
  rw [← signedBy_of_compile h] at hinfo
  exact Command.signature_of_signedBy hinfo

theorem Event.light_of_compile (h : e.compile conf count = .ok c) (hlight : e.isLightTag = true) :
    ∃ name, c = .tag name none := by
  cases e with
  | shorthand text =>
    simp only [isLightTag, beq_iff_eq, Option.map_eq_some_iff] at hlight
    obtain ⟨line, hread, hkind⟩ := hlight
    simp only [compile, hread, ShorthandLine.compile, hkind, bind_eq_ok, pure_eq] at h
    obtain ⟨name, _, h⟩ := h
    cases h
    exact ⟨name, rfl⟩
  | keyed k =>
    cases k with
    | tag body =>
      have hnot : body.annotated = false := by simpa [isLightTag] using hlight
      simp only [compile, KeyedEvent.compile, hnot, bind_eq_ok, pure_eq] at h
      obtain ⟨name, _, h⟩ := h
      cases h
      exact ⟨name, rfl⟩
    | init _ | commit _ | merge _ | createFile _ | changeContent _ | add _ | appendContent _ => cases hlight
  | unrecognized value => cases hlight

end

/-! ## Logs -/

namespace EventLog

variable {events : List Event} {conf conf' : Option Authorship} {commands commands' : List Command}

/-- The same event has the same command under both authorships, signed by whom each of them says. -/
theorem signed_of_compile (h : compile ⟨events, conf⟩ = .ok commands) (h' : compile ⟨events, conf'⟩ = .ok commands')
    {i : Nat} {e : Event} {c : Command} (he : events[i]? = some e) (hc : commands[i]? = some c) :
    commands'[i]? = some (c.signedBy (e.author conf') (e.email conf')) := by
  obtain ⟨c', hc', hcomp', _⟩ := (IsCompiled.of_compile h').command i e he
  obtain ⟨c₁, hc₁, hcomp, _⟩ := (IsCompiled.of_compile h).command i e he
  obtain rfl : c₁ = c := Option.some.inj (hc₁.symm.trans hc)
  have hsigned := e.compile_signed conf' conf (numbered (events.take i))
  simp only at hcomp hcomp'
  rw [hcomp, hcomp'] at hsigned
  rw [hc', Except.ok.inj hsigned]

theorem length_of_compile (h : compile ⟨events, conf⟩ = .ok commands) (h' : compile ⟨events, conf'⟩ = .ok commands') :
    commands'.length = commands.length :=
  (IsCompiled.of_compile h').length.trans (IsCompiled.of_compile h).length.symm

/-- Lists of commands are compared entry by entry. -/
theorem unsigned_of_compile (h : compile ⟨events, conf⟩ = .ok commands)
    (h' : compile ⟨events, conf'⟩ = .ok commands') :
    commands'.map Command.unsigned = commands.map Command.unsigned := by
  apply List.ext_getElem?
  intro i
  rw [List.getElem?_map, List.getElem?_map]
  cases hc : commands[i]? with
  | none =>
    rw [List.getElem?_eq_none_iff.mpr (length_of_compile h h' ▸ List.getElem?_eq_none_iff.mp hc)]
  | some c =>
    obtain ⟨e, he, _⟩ := exists_event h hc
    rw [signed_of_compile h h' he hc, Option.map_some, Option.map_some, Command.unsigned_signedBy]

/-- **The authorship of a log signs its commands and does nothing else.** Two runs over the same events
fail with the same errors, or compile to commands that are the same but for their signatures, and the same
altogether where an event gives name and address itself. A signature is the event's, else the log's, else the
default, in name and in address; and a tag that is not annotated bears none. -/
theorem authorship_signs_only (events : List Event) (conf conf' : Option Authorship) :
    (∀ fault, compile ⟨events, conf⟩ = .error fault ↔ compile ⟨events, conf'⟩ = .error fault) ∧
    ∀ commands, compile ⟨events, conf⟩ = .ok commands →
      (∃ commands', compile ⟨events, conf'⟩ = .ok commands' ∧
        commands'.map Command.unsigned = commands.map Command.unsigned ∧
        ∀ (i : Nat) (e : Event), events[i]? = some e → e.givenAuthor?.isSome = true → e.givenEmail?.isSome = true →
          commands'[i]? = commands[i]?) ∧
      ∀ (i : Nat) (e : Event) (c : Command), events[i]? = some e → commands[i]? = some c →
        (∀ info, c.info? = some info →
          info.author = e.givenAuthor?.getD ((conf.bind (·.author)).getD "user-test") ∧
          info.email = e.givenEmail?.getD ((conf.bind (·.email)).getD "user-test@example.com")) ∧
        (e.isLightTag = true → ∃ name, c = .tag name none) := by
  have hcomp {i : Nat} {e : Event} {c : Command} {commands : List Command}
      (h : compile ⟨events, conf⟩ = .ok commands) (he : events[i]? = some e) (hc : commands[i]? = some c) :
      e.compile conf (numbered (events.take i)) = .ok c := by
    obtain ⟨e', he', hcomp⟩ := exists_event h hc
    obtain rfl : e' = e := Option.some.inj (he'.symm.trans he)
    exact hcomp
  refine ⟨fun fault => ?_, fun commands h => ⟨?_, fun i e c he hc => ⟨fun info hinfo => ?_, fun hlight => ?_⟩⟩⟩
  · -- a first fault is one of the events, whoever signs
    rw [compile_error_iff, compile_error_iff]
    rfl
  · obtain ⟨commands', h'⟩ := (compile_isOk_iff ⟨events, conf'⟩).mpr ((compile_isOk_iff ⟨events, conf⟩).mp ⟨_, h⟩)
    refine ⟨commands', h', unsigned_of_compile h h', fun i e he hauthor hemail => ?_⟩
    cases hc : commands[i]? with
    | none => exact List.getElem?_eq_none_iff.mpr (length_of_compile h h' ▸ List.getElem?_eq_none_iff.mp hc)
    | some c =>
      obtain ⟨author, hauthor⟩ := Option.isSome_iff_exists.mp hauthor
      obtain ⟨email, hemail⟩ := Option.isSome_iff_exists.mp hemail
      have hsame : e.author conf' = e.author conf ∧ e.email conf' = e.email conf := by
        simp [Event.author, Event.email, hauthor, hemail]
      rw [signed_of_compile h h' he hc, hsame.1, hsame.2, Event.signedBy_of_compile (hcomp h he hc)]
  · exact Event.signature_of_compile (hcomp h he hc) hinfo
  · exact Event.light_of_compile (hcomp h he hc) hlight

/-- A log of a commit that gives no name, a merge that gives all, and a tag that gives an author for nothing. -/
def signing : List Event :=
  [.keyed (.commit { email := some "b@x" }), .keyed (.merge ⟨some "side", none, some "Ann", some "ann@x"⟩),
    .keyed (.tag { name := some "v1", author := some "Ann" })]

/-- Without authorship of its own the log compiles to another commit and to the same merge and tag. -/
theorem authorship_signs_only_mixed :
    ∃ commands', compile ⟨signing, none⟩ = .ok commands' ∧
      commands'.map Command.unsigned =
        [Command.commit ⟨"commit 1", "Bob", "b@x"⟩, .merge "side" ⟨"merge branch side", "Ann", "ann@x"⟩,
          .tag "v1" none].map Command.unsigned ∧
      commands'[1]? = some (.merge "side" ⟨"merge branch side", "Ann", "ann@x"⟩) := by
  have h : compile ⟨signing, some ⟨some "Bob", some "bob@x"⟩⟩ = .ok
      [.commit ⟨"commit 1", "Bob", "b@x"⟩, .merge "side" ⟨"merge branch side", "Ann", "ann@x"⟩, .tag "v1" none] :=
    rfl
  obtain ⟨⟨commands', h', hsame, hboth⟩, _⟩ :=
    (authorship_signs_only signing (some ⟨some "Bob", some "bob@x"⟩) none).2 _ h
  exact ⟨commands', h', hsame, hboth 1 _ rfl rfl rfl⟩

end EventLog

end Chronicle
