import Chronicle.CommandLine.Output
import Chronicle.Proofs.Compile.Log
import Chronicle.Proofs.Document.Json

/-!
# Commands read back as events

A command is written in the shape of the event that asks for it. `Command.entry` is the entry of a log
that this text is, and `Command.reread` is what that entry compiles to, under any authorship and after
any number of commits (`Command.compile_entry`): every default is filled in by then, so nothing is left
for them to say. The only fact about a compiled command that this takes is that the texts which must not
be blank are not (`Event.compile_fulfils`).

A command comes back as itself unless it is one of four (`Command.reread_eq_ok_iff`). Events for `branch`
and `checkout` have no keyed form; **the command that stages everything is written as a text where the
event has a record, and an annotated tag without the flag that the event has**, so that the former is
read as no event at all and the latter as a lightweight tag.
-/

namespace Chronicle

open Outcome

namespace Command

/-- The keyed event with the message and authorship of a tag that is not said to be annotated. -/
def tagEntry (name : String) (note : Option CommitInfo) : KeyedEvent :=
  .tag ⟨some name, false, note.map (·.message), note.map (·.author), note.map (·.email)⟩

/-- The entry of a log that a command is written as. -/
def entry : Command → Event
  | init name => .keyed (.init ⟨some name⟩)
  | commit info => .keyed (.commit ⟨some info.message, some info.author, some info.email⟩)
  | merge theirs info =>
    .keyed (.merge ⟨some theirs, some info.message, some info.author, some info.email⟩)
  | tag name note => .keyed (tagEntry name note)
  | createFile file content => .keyed (.createFile ⟨some file, some content⟩)
  | changeContent file content => .keyed (.changeContent ⟨some file, some content⟩)
  | add (.file path) => .keyed (.add ⟨some path, false⟩)
  | appendContent file content newLine => .keyed (.appendContent ⟨some file, some content, newLine⟩)
  | c => .unrecognized c.toDocument

/-- What the entry that a command is written as compiles to. -/
def reread : Command → Except EventError Command
  | branch _ => .error (.rejected .branch .shorthandOnly)
  | checkout _ => .error (.rejected .checkout .shorthandOnly)
  | add .all => .error (.rejected .add (.misfit (.notRecord .add (.text "all"))))
  | tag name _ => .ok (.tag name none)
  | c => .ok c

/-- A command is written under the keyword of its kind. -/
theorem toEntry_fst (c : Command) : c.toEntry.1 = c.kind.keyword := by cases c <;> rfl

/-- The commands that come back as themselves. -/
theorem reread_eq_ok_iff (c : Command) : c.reread = .ok c ↔
    c.kind.keyed = true ∧ c ≠ .add .all ∧ ∀ name info, c ≠ .tag name (some info) := by
  cases c with
  | add paths => cases paths <;> simp [reread, kind, EventKind.keyed]
  | tag name note => cases note <;> simp [reread, kind, EventKind.keyed]
  | _ => simp [reread, kind, EventKind.keyed]

end Command

/-! ## From the text to the entry -/

namespace Command

theorem ofDocument?_toDocument (c : Command) : Event.ofDocument? c.toDocument = some c.entry := by
  cases c with
  | add paths => cases paths <;> rfl
  | tag name note => cases note <;> rfl
  | _ => rfl

/-- A command is written with texts and truth values, in records at most two deep. -/
theorem textual_toDocument (c : Command) : c.toDocument.Textual 2 := by
  have hfields (info : CommitInfo) : ∀ f ∈ info.toFields, f.2.Textual 0 := by
    simp only [CommitInfo.toFields, List.forall_mem_cons]
    exact ⟨.text _, .text _, .text _, by simp⟩
  have hentry : c.toEntry.2.Textual 1 := by
    cases c with
    | init name | branch name | checkout name =>
      refine .record ?_
      simp only [List.forall_mem_cons]
      exact ⟨.text _, by simp⟩
    | commit info => exact .record (hfields info)
    | merge theirs info => exact .record (List.forall_mem_cons.mpr ⟨.text _, hfields info⟩)
    | tag name note =>
      refine .record (List.forall_mem_cons.mpr ⟨.text _, ?_⟩)
      cases note with
      | none => simp
      | some info => exact hfields info
    | createFile file content | changeContent file content =>
      refine .record ?_
      simp only [List.forall_mem_cons]
      exact ⟨.text _, .text _, by simp⟩
    | add paths =>
      cases paths with
      | all => exact .text _
      | file path =>
        refine .record ?_
        simp only [List.forall_mem_cons]
        exact ⟨.text _, by simp⟩
    | appendContent file content newLine =>
      refine .record ?_
      simp only [List.forall_mem_cons]
      exact ⟨.text _, .text _, .bool _, by simp⟩
  exact .record (by simpa using hentry)

end Command

/-! ## From the entry to the command -/

theorem required_some {name : String} (h : Text.allBlank name = false) (kind : EventKind) (what : String) :
    required kind what (some name) = .ok name :=
  required_eq_ok.mpr ⟨rfl, h⟩

/-- Where every text is given, there is nothing for the authorship of a log to say. -/
theorem Authorship.info_given (conf : Option Authorship) (info : CommitInfo) :
    Authorship.info conf info.message (some info.author) (some info.email) = info := rfl

namespace Command

/-- What a command is written as compiles to the same under every authorship and after any number of
commits. -/
theorem compile_entry {c : Command} (hc : c.Filled) (conf : Option Authorship) (count : Nat) :
    c.entry.compile conf count = c.reread := by
  cases c with
  | init name => simp [entry, reread, Event.compile, KeyedEvent.compile, required_some hc]
  | commit info => rfl
  | branch name => rfl
  | checkout name => rfl
  | merge theirs info =>
    simp [entry, reread, Event.compile, KeyedEvent.compile, required_some hc, Authorship.info_given]
  | tag name note => simp [entry, reread, tagEntry, Event.compile, KeyedEvent.compile, required_some hc]
  | createFile file content | changeContent file content | appendContent file content newLine =>
    simp [entry, reread, Event.compile, KeyedEvent.compile, required_some hc, requiredContent]
  | add paths =>
    cases paths with
    | all => rfl
    | file path => simp [entry, reread, Event.compile, KeyedEvent.compile, required_some hc]

end Command

/-! ## Whole logs -/

namespace Command

/-- What a dry run prints for people is the list of the commands' documents. -/
theorem read_output {o : Options} (hjson : o.json = false) (hquiet : o.quiet = false) (naming : Naming)
    (commands : List Command) : Json.read (o.output naming (.ok (.commands commands))).out =
      .ok (.list (commands.map toDocument)) := by
  have hlist : (Document.list (commands.map toDocument)).Textual Json.maxDepth := by
    refine .list fun d hd => ?_
    obtain ⟨c, _, rfl⟩ := List.mem_map.mp hd
    exact (textual_toDocument c).mono (by decide)
  have hout : (o.output naming (.ok (.commands commands))).out =
      (Document.list (commands.map toDocument)).pretty ++ String.ofList ['\n'] := by
    simp [Options.output, hjson, hquiet, lines, Answer.summary, Answer.toDocument, String.join]
  rw [hout]
  exact Json.read_pretty hlist (by simp [Json.Blank, Json.isSpace])

/-- A command written by itself. -/
theorem read_pretty_toDocument (c : Command) : Json.read c.toDocument.pretty = .ok c.toDocument := by
  have hread := Json.read_pretty ((textual_toDocument c).mono (by decide)) Json.Blank.nil
  rwa [String.ofList_nil, String.append_empty] at hread

/-- By induction on the log; what one command is written as says nothing to the next. -/
theorem compileFrom_entries {commands : List Command} (hfilled : ∀ c ∈ commands, c.Filled)
    (hself : ∀ c ∈ commands, c.reread = .ok c) (conf : Option Authorship) (line count : Nat) :
    compileFrom conf line count (commands.map entry) = .ok commands := by
  induction commands generalizing line count with
  | nil => rfl
  | cons c rest ih =>
    obtain ⟨hc, hrest⟩ := List.forall_mem_cons.mp hfilled
    obtain ⟨hcself, hrestself⟩ := List.forall_mem_cons.mp hself
    have hhead : c.entry.compile conf count = .ok c := (compile_entry hc conf count).trans hcself
    rw [List.map_cons, compileFrom_cons_ok hhead, ih hrest hrestself]
    rfl

/-- What the commands of a log are written as makes a log that compiles to the same commands, if each of
them comes back as itself. -/
theorem compile_entries {log : EventLog} {commands : List Command} (h : log.compile = .ok commands)
    (hself : ∀ c ∈ commands, c.reread = .ok c) (conf : Option Authorship) :
    EventLog.compile ⟨commands.map entry, conf⟩ = .ok commands :=
  compileFrom_entries (fun _ hc => EventLog.compile_filled h hc) hself conf 1 0

/-- **Commands read back.** What a dry run prints for a log that compiles is the list of its commands as
they are written, and each of them is an entry of a log. Under every authorship and after any number of
commits that entry compiles to the command itself, unless the kind of the command has no keyed event, or
the command stages everything, or it makes an annotated tag. The entry of the one that stages everything
is refused for holding a text where the event has a record, and that of an annotated tag compiles to the
lightweight tag of the same name. -/
theorem read_back {log : EventLog} {commands : List Command} (h : log.compile = .ok commands) :
    (∀ (o : Options) (naming : Naming), o.json = false → o.quiet = false →
      Json.read (o.output naming (.ok (.commands commands))).out = .ok (.list (commands.map toDocument))) ∧
    ∀ c ∈ commands, c.toEntry.1 = c.kind.keyword ∧ Json.read c.toDocument.pretty = .ok c.toDocument ∧
      ∃ e, Event.ofDocument? c.toDocument = some e ∧ ∀ conf count,
        (e.compile conf count = .ok c ↔
          c.kind.keyed = true ∧ c ≠ .add .all ∧ ∀ name info, c ≠ .tag name (some info)) ∧
        (c = .add .all →
          e.compile conf count = .error (.rejected .add (.misfit (.notRecord .add (.text "all"))))) ∧
        (∀ name info, c = .tag name (some info) → e.compile conf count = .ok (.tag name none)) := by
  refine ⟨fun o naming hjson hquiet => read_output hjson hquiet naming commands, fun c hc => ?_⟩
  refine ⟨toEntry_fst c, read_pretty_toDocument c, c.entry, ofDocument?_toDocument c, fun conf count => ?_⟩
  rw [compile_entry (EventLog.compile_filled h hc)]
  refine ⟨reread_eq_ok_iff c, ?_, ?_⟩
  · rintro rfl
    rfl
  · rintro name info rfl
    rfl

/-- A log that stages everything, commits, and makes an annotated tag and a lightweight one. -/
def tagged : EventLog where
  events := [.shorthand "add", .keyed (.commit {}), .keyed (.tag { name := some "v1", annotated := true }),
    .shorthand "tag v2"]

/-- The commands of `tagged`. -/
def taggedCommands : List Command :=
  [.add .all, .commit ⟨"commit 1", "user-test", "user-test@example.com"⟩,
    .tag "v1" (some ⟨"create tag v1", "user-test", "user-test@example.com"⟩), .tag "v2" none]

/-- The commit comes back as it was, whatever the log that it is put into says of authors. -/
theorem read_back_tagged : ∃ e,
    Event.ofDocument? (toDocument (.commit ⟨"commit 1", "user-test", "user-test@example.com"⟩)) = some e ∧
    ∀ conf count,
      e.compile conf count = .ok (.commit ⟨"commit 1", "user-test", "user-test@example.com"⟩) := by
  have hcompile : tagged.compile = .ok taggedCommands := rfl
  obtain ⟨_, _, e, he, hall⟩ := (read_back hcompile).2 (.commit ⟨"commit 1", "user-test", "user-test@example.com"⟩)
    (by simp [taggedCommands])
  exact ⟨e, he, fun conf count => (hall conf count).1.mpr ⟨rfl, by simp, by simp⟩⟩

/-- Not every command of a log whose kind has a keyed event comes back as itself: that which stages
everything does not, and neither does an annotated tag. -/
theorem not_all_read_back :
    ¬ (∀ (log : EventLog) (commands : List Command), log.compile = .ok commands →
      ∀ c ∈ commands, c.kind.keyed = true → ∃ e, Event.ofDocument? c.toDocument = some e ∧
        ∀ conf count, e.compile conf count = .ok c) ∧
    ¬ (∀ (log : EventLog) (commands : List Command), log.compile = .ok commands →
      ∀ c ∈ commands, c.kind.keyed = true → c ≠ .add .all → ∃ e, Event.ofDocument? c.toDocument = some e ∧
        ∀ conf count, e.compile conf count = .ok c) := by
  have hcompile : tagged.compile = .ok taggedCommands := rfl
  constructor
  · intro hall
    obtain ⟨e, he, hcomp⟩ := hall tagged taggedCommands hcompile (.add .all) (by simp [taggedCommands]) rfl
    cases he
    cases hcomp none 0
  · intro hall
    obtain ⟨e, he, hcomp⟩ := hall tagged taggedCommands hcompile
      (.tag "v1" (some ⟨"create tag v1", "user-test", "user-test@example.com"⟩)) (by simp [taggedCommands])
      rfl (by simp)
    cases he
    cases hcomp none 0

end Command

end Chronicle
