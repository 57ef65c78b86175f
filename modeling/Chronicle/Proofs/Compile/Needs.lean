import Chronicle.Proofs.Compile.Log
import Chronicle.Proofs.Event.Shorthand

/-!
# What an event needs

Which events compile is told by what they give. The record of an event has a list of needs
(`KeyedEvent.needs`), texts that have to be given and mostly not to be blank, and a line of shorthand needs
an argument or none, by its kind (`Event.Acceptable`). An event that compiles says in its command what it
was given, in the very words (`Event.Says`); one that does not is reported by its first need that is not met
(`Event.Objection`). **Together the three say what comes of any event** (`Event.acceptance_exact`).
-/

namespace Chronicle

open Outcome Text

/-! ## Needs -/

/-- A text that the record of an event has to give. -/
structure Need where
  what : String
  given : Option String
  /-- Whether a text will do that has nothing but blanks in it. -/
  mayBeBlank : Bool
  deriving DecidableEq

/-- The text is given and, unless it may be, not blank. -/
def Need.Met (n : Need) : Prop := ∃ text, n.given = some text ∧ (n.mayBeBlank = false → ¬ Blanks text.toList)

/-- What the record of an event has to give, in the order in which it is asked for. -/
def KeyedEvent.needs : KeyedEvent → List Need
  | init body => body.defaultBranch.toList.map fun name => ⟨"default branch", some name, false⟩
  | commit _ => []
  | merge body => [⟨"branch", body.theirs, false⟩]
  | tag body => [⟨"tag name", body.name, false⟩]
  | createFile body => [⟨"file name", body.file, false⟩]
  | changeContent body => [⟨"file name", body.file, false⟩, ⟨"content", body.content, true⟩]
  | add body => if body.all then [] else [⟨"file name", body.file, false⟩]
  | appendContent body => [⟨"file name", body.file, false⟩, ⟨"content", body.content, true⟩]

/-- What the argument of a line of shorthand is called. -/
def EventKind.argument : EventKind → String
  | branch => "branch name"
  | checkout => "ref"
  | merge => "branch"
  | tag => "tag name"
  | createFile => "file name"
  | _ => ""

namespace Need

theorem met_iff (n : Need) :
    (n.given.any fun text => n.mayBeBlank || !allBlank text) = true ↔ n.Met := by
  obtain ⟨what, given, mayBeBlank⟩ := n
  rw [Option.any_eq_true]
  refine exists_congr fun text => and_congr Iff.rfl ?_
  rw [Bool.or_eq_true, Bool.not_eq_true', ← allBlank_iff, Bool.not_eq_true]
  cases mayBeBlank <;> simp

instance (n : Need) : Decidable n.Met := decidable_of_iff _ n.met_iff

/-- The first of some needs that is not met. -/
def firstUnmet? (needs : List Need) : Option Need := needs.find? fun n => !decide n.Met

theorem firstUnmet?_eq_none_iff {needs : List Need} : firstUnmet? needs = none ↔ ∀ n ∈ needs, n.Met := by
  simp [firstUnmet?]

theorem firstUnmet?_cons_met {n : Need} {needs : List Need} (h : n.Met) :
    firstUnmet? (n :: needs) = firstUnmet? needs := by
  simp [firstUnmet?, h]

theorem firstUnmet?_cons_unmet {n : Need} {needs : List Need} (h : ¬ n.Met) :
    firstUnmet? (n :: needs) = some n := by
  simp [firstUnmet?, h]

end Need

section

variable {kind : EventKind} {what : String} {value : Option String} {x : EventError}

theorem met_of_required {text : String} (h : required kind what value = .ok text) :
    value = some text ∧ Need.Met ⟨what, value, false⟩ := by
  obtain ⟨hvalue, hblank⟩ := required_eq_ok.mp h
  refine ⟨hvalue, text, hvalue, fun _ => ?_⟩
  rw [← allBlank_iff, hblank]
  exact Bool.false_ne_true

theorem unmet_of_required (h : required kind what value = .error x) :
    ¬ Need.Met ⟨what, value, false⟩ ∧ x = .missing kind what := by
  unfold required at h
  split at h
  · split at h
    · rename_i text hblank
      cases h
      refine ⟨?_, rfl⟩
      rintro ⟨text', htext, hnot⟩
      cases htext
      exact hnot rfl ((allBlank_iff text).mp hblank)
    · cases h
  · cases h
    refine ⟨?_, rfl⟩
    rintro ⟨text, htext, _⟩
    cases htext

theorem met_of_requiredContent {text : String} (h : requiredContent kind value = .ok text) :
    value = some text ∧ Need.Met ⟨"content", value, true⟩ := by
  unfold requiredContent at h
  split at h
  · cases h
    exact ⟨rfl, _, rfl, fun hfalse => by cases hfalse⟩
  · cases h

theorem unmet_of_requiredContent (h : requiredContent kind value = .error x) :
    ¬ Need.Met ⟨"content", value, true⟩ ∧ x = .missing kind "content" := by
  unfold requiredContent at h
  split at h
  · cases h
  · cases h
    refine ⟨?_, rfl⟩
    rintro ⟨text, htext, _⟩
    cases htext

end

/-! ## What a command says -/

/-- A command says what a line of shorthand says. -/
inductive ShorthandLine.Says : ShorthandLine → Command → Prop
  | init : Says ⟨.init, ""⟩ (.init "main")
  | commit (info : CommitInfo) : Says ⟨.commit, ""⟩ (.commit info)
  | add : Says ⟨.add, ""⟩ (.add .all)
  | branch (arg : String) : Says ⟨.branch, arg⟩ (.branch arg)
  | checkout (arg : String) : Says ⟨.checkout, arg⟩ (.checkout arg)
  | merge (arg : String) (info : CommitInfo) : Says ⟨.merge, arg⟩ (.merge arg info)
  | tag (arg : String) : Says ⟨.tag, arg⟩ (.tag arg none)
  | createFile (arg : String) : Says ⟨.createFile, arg⟩ (.createFile arg arg)

/-- A command says what a record says, and has defaults for what the record may leave out. -/
inductive KeyedEvent.Says : KeyedEvent → Command → Prop
  | initDefault : Says (.init ⟨none⟩) (.init "main")
  | init (name : String) : Says (.init ⟨some name⟩) (.init name)
  | commit (body : CommitBody) (info : CommitInfo) : Says (.commit body) (.commit info)
  | merge {body : MergeBody} {theirs : String} (htheirs : body.theirs = some theirs) (info : CommitInfo) :
      Says (.merge body) (.merge theirs info)
  | tag {body : TagBody} {name : String} (hname : body.name = some name) (note : Option CommitInfo) :
      Says (.tag body) (.tag name note)
  | createFile {body : FileBody} {file : String} (hfile : body.file = some file) :
      Says (.createFile body) (.createFile file (body.content.getD file))
  | changeContent (file content : String) :
      Says (.changeContent ⟨some file, some content⟩) (.changeContent file content)
  | addAll {body : AddBody} (hall : body.all = true) : Says (.add body) (.add .all)
  | addFile (file : String) : Says (.add ⟨some file, false⟩) (.add (.file file))
  | appendContent (file content : String) (newLine : Bool) :
      Says (.appendContent ⟨some file, some content, newLine⟩) (.appendContent file content newLine)

namespace Event

/-- A command says what an event says. -/
inductive Says : Event → Command → Prop
  | line {text : String} {line : ShorthandLine} {c : Command} (hread : ShorthandLine.read text = some line)
      (hline : line.Says c) : Says (.shorthand text) c
  | record {e : KeyedEvent} {c : Command} (he : e.Says c) : Says (.keyed e) c

/-- An event gives what it needs. -/
def Acceptable : Event → Prop
  | shorthand text => ∃ line, ShorthandLine.read text = some line ∧
      (line.arg = "" ↔ line.kind = .init ∨ line.kind = .commit ∨ line.kind = .add)
  | keyed e => ∀ n ∈ e.needs, n.Met
  | unrecognized _ => False

/-- What is wrong with an event. -/
inductive Objection : Event → EventError → Prop
  | unread {text : String} (hread : ShorthandLine.read text = none) :
      Objection (.shorthand text) (.unknownLine (trim text))
  /-- The line has an argument, and its kind takes none. -/
  | surplus {text : String} {line : ShorthandLine} (hread : ShorthandLine.read text = some line)
      (hbare : line.kind.shorthand = .bare) (hne : line.arg ≠ "") :
      Objection (.shorthand text) (.unexpectedArgument line.kind line.arg)
  /-- The line has no argument, and its kind takes one. -/
  | noArgument {text : String} {line : ShorthandLine} (hread : ShorthandLine.read text = some line)
      (harg : line.kind.shorthand = .withArg) (hempty : line.arg = "") :
      Objection (.shorthand text) (.missing line.kind line.kind.argument)
  | unmet {e : KeyedEvent} {n : Need} (hfirst : Need.firstUnmet? e.needs = some n) :
      Objection (.keyed e) (.missing e.kind n.what)
  | rejected {value : Document} {kind : EventKind} {cause : Rejection}
      (hcause : rejection? value = some (kind, cause)) : Objection (.unrecognized value) (.rejected kind cause)
  | unknown {value : Document} (hcause : rejection? value = none) :
      Objection (.unrecognized value) (.unknownEntry value)

end Event

/-! ## Lines of shorthand -/

namespace ShorthandLine

variable {conf : Option Authorship} {count : Nat} {text : String} {line : ShorthandLine} {c : Command}
  {x : EventError}

/-- A line that was read is of a kind that is written in a line. -/
theorem shorthand_of_read (h : read text = some line) : line.kind.shorthand ≠ .none := (read_iff_spells.mp h).1

/-- The argument that was read is blank only where there is none. -/
theorem arg_of_read (h : read text = some line) : Blanks line.arg.toList ↔ line.arg = "" := by
  have htrimmed : Trimmed line.arg.toList := (read_iff_spells.mp h).2.trimmed
  rw [← allBlank_iff, ← String.isEmpty_iff]
  have harg : trim line.arg = line.arg := by
    rw [trim, htrimmed.trimChars_eq, String.ofList_toList]
  rw [← harg, allBlank_trim]

theorem met_iff_of_read (h : read text = some line) (what : String) :
    Need.Met ⟨what, some line.arg, false⟩ ↔ line.arg ≠ "" := by
  rw [ne_eq, ← arg_of_read h]
  constructor
  · rintro ⟨arg, harg, hnot⟩
    cases harg
    exact hnot rfl
  · exact fun hnot => ⟨line.arg, rfl, fun _ => hnot⟩

theorem says_of_compile (h : line.compile conf count = .ok c) : line.Says c := by
  obtain ⟨kind, arg⟩ := line
  cases kind with
  | init | commit | add =>
    obtain ⟨_, hnone, h⟩ := bind_eq_ok.mp h
    have harg : arg = "" := by
      unfold noArgument at hnone
      split at hnone
      · rename_i hempty
        exact String.isEmpty_iff.mp hempty
      · cases hnone
    subst harg
    cases h
    constructor
  | branch | checkout | merge | tag | createFile =>
    obtain ⟨name, hname, h⟩ := bind_eq_ok.mp h
    obtain ⟨hgiven, _⟩ := met_of_required hname
    cases hgiven
    cases h
    constructor
  | changeContent | appendContent => cases h

/-- A line is refused for its argument: there is one or there is none, whichever its kind does not want. -/
theorem objection_of_compile (hread : read text = some line) (h : line.compile conf count = .error x) :
    Event.Objection (.shorthand text) x := by
  have hkind := shorthand_of_read hread
  have hmet := met_iff_of_read hread
  obtain ⟨kind, arg⟩ := line
  cases kind with
  | init | commit | add =>
    obtain hnone | ⟨_, _, h⟩ := bind_eq_error.mp h
    · unfold noArgument at hnone
      split at hnone
      · cases hnone
      · rename_i hne
        cases hnone
        exact .surplus hread rfl fun hempty => hne (String.isEmpty_iff.mpr hempty)
    · cases h
  | branch | checkout | merge | tag | createFile =>
    obtain hmissing | ⟨_, _, h⟩ := bind_eq_error.mp h
    · obtain ⟨hunmet, rfl⟩ := unmet_of_required hmissing
      have hempty : arg = "" := by
        rw [hmet] at hunmet
        exact not_not.mp hunmet
      exact .noArgument hread rfl hempty
    · cases h
  | changeContent | appendContent => exact absurd rfl hkind

end ShorthandLine

/-! ## Records -/

namespace KeyedEvent

variable {conf : Option Authorship} {count : Nat} {e : KeyedEvent} {c : Command} {x : EventError}

/-- A record that compiles gives what it needs, and the command says it. -/
theorem met_of_compile (h : e.compile conf count = .ok c) : (∀ n ∈ e.needs, n.Met) ∧ e.Says c := by
  cases e with
  | init body =>
    obtain ⟨_ | name⟩ := body
    · cases h
      exact ⟨by simp [needs], .initDefault⟩
    · obtain ⟨name', hname, h⟩ := bind_eq_ok.mp h
      obtain ⟨hgiven, hmet⟩ := met_of_required hname
      cases hgiven
      cases h
      exact ⟨List.forall_mem_singleton.mpr hmet, .init name⟩
  | commit body =>
    cases h
    exact ⟨by simp [needs], .commit body _⟩
  | merge body | tag body | createFile body =>
    obtain ⟨name, hname, h⟩ := bind_eq_ok.mp h
    obtain ⟨hgiven, hmet⟩ := met_of_required hname
    cases h
    exact ⟨List.forall_mem_singleton.mpr hmet, by constructor; exact hgiven⟩
  | add body =>
    obtain ⟨file, _ | _⟩ := body
    · obtain ⟨file', hfile, h'⟩ := bind_eq_ok.mp h
      obtain ⟨hgiven, hmet⟩ := met_of_required hfile
      cases h'
      cases hgiven
      exact ⟨List.forall_mem_singleton.mpr hmet, .addFile file'⟩
    · cases h
      exact ⟨by simp [needs], .addAll rfl⟩
  | changeContent body | appendContent body =>
    obtain ⟨file, hfile, h⟩ := bind_eq_ok.mp h
    obtain ⟨content, hcontent, h⟩ := bind_eq_ok.mp h
    obtain ⟨hfileGiven, hfileMet⟩ := met_of_required hfile
    obtain ⟨hcontentGiven, hcontentMet⟩ := met_of_requiredContent hcontent
    cases h
    refine ⟨List.forall_mem_cons.mpr ⟨hfileMet, List.forall_mem_singleton.mpr hcontentMet⟩, ?_⟩
    cases body
    cases hfileGiven
    cases hcontentGiven
    constructor

/-- A record that does not compile is reported by its first need that is not met. -/
theorem unmet_of_compile (h : e.compile conf count = .error x) :
    ∃ n, Need.firstUnmet? e.needs = some n ∧ x = .missing e.kind n.what := by
  cases e with
  | init body =>
    obtain ⟨_ | name⟩ := body
    · cases h
    · obtain hmissing | ⟨_, _, h⟩ := bind_eq_error.mp h
      · obtain ⟨hunmet, rfl⟩ := unmet_of_required hmissing
        exact ⟨_, Need.firstUnmet?_cons_unmet hunmet, rfl⟩
      · cases h
  | commit body => cases h
  | merge body | tag body | createFile body =>
    obtain hmissing | ⟨_, _, h⟩ := bind_eq_error.mp h
    · obtain ⟨hunmet, rfl⟩ := unmet_of_required hmissing
      exact ⟨_, Need.firstUnmet?_cons_unmet hunmet, rfl⟩
    · cases h
  | add body =>
    obtain ⟨file, _ | _⟩ := body
    · obtain hmissing | ⟨_, _, h⟩ := bind_eq_error.mp h
      · obtain ⟨hunmet, rfl⟩ := unmet_of_required hmissing
        exact ⟨_, Need.firstUnmet?_cons_unmet hunmet, rfl⟩
      · cases h
    · cases h
  | changeContent body | appendContent body =>
    obtain hmissing | ⟨file, hfile, h⟩ := bind_eq_error.mp h
    · obtain ⟨hunmet, rfl⟩ := unmet_of_required hmissing
      exact ⟨_, Need.firstUnmet?_cons_unmet hunmet, rfl⟩
    · -- the file is there, so that the content is what is asked for first
      obtain hmissing | ⟨_, _, h⟩ := bind_eq_error.mp h
      · obtain ⟨hunmet, rfl⟩ := unmet_of_requiredContent hmissing
        have hmet := (met_of_required hfile).2
        exact ⟨_, (Need.firstUnmet?_cons_met hmet).trans (Need.firstUnmet?_cons_unmet hunmet), rfl⟩
      · cases h

end KeyedEvent

/-! ## Events -/

namespace Event

variable {conf : Option Authorship} {count : Nat} {e : Event} {c : Command} {x x' : EventError}

/-- There is one thing wrong with an event. -/
theorem Objection.unique (h : e.Objection x) (h' : e.Objection x') : x = x' := by
  cases h <;> cases h' <;> simp_all

theorem says_of_compile (h : e.compile conf count = .ok c) : e.Says c := by
  cases e with
  | shorthand text =>
    cases hread : ShorthandLine.read text with
    | none =>
      simp only [compile, hread] at h
      cases h
    | some line =>
      simp only [compile, hread] at h
      exact .line hread (ShorthandLine.says_of_compile h)
  | keyed k => exact .record (KeyedEvent.met_of_compile h).2
  | unrecognized value =>
    simp only [compile] at h
    split at h <;> cases h

theorem objection_of_compile (h : e.compile conf count = .error x) : e.Objection x := by
  cases e with
  | shorthand text =>
    cases hread : ShorthandLine.read text with
    | none =>
      simp only [compile, hread] at h
      cases h
      exact .unread hread
    | some line =>
      simp only [compile, hread] at h
      exact ShorthandLine.objection_of_compile hread h
  | keyed k =>
    obtain ⟨n, hfirst, rfl⟩ := KeyedEvent.unmet_of_compile h
    exact .unmet hfirst
  | unrecognized value =>
    simp only [compile] at h
    split at h <;> cases h
    · exact .rejected ‹_›
    · exact .unknown ‹_›

theorem Objection.not_acceptable (h : e.Objection x) : ¬ e.Acceptable := by
  cases h with
  | unread hread =>
    rintro ⟨line, hline, _⟩
    rw [hread] at hline
    cases hline
  | @surplus text line hread hbare hne =>
    rintro ⟨line', hline, harg⟩
    rw [hread] at hline
    cases hline
    apply hne
    rw [harg]
    cases hkind : line.kind <;> simp_all [EventKind.shorthand]
  | @noArgument text line hread hwith hempty =>
    rintro ⟨line', hline, harg⟩
    rw [hread] at hline
    cases hline
    rcases harg.mp hempty with hkind | hkind | hkind <;> rw [hkind] at hwith <;> cases hwith
  | unmet hfirst =>
    intro hmet
    rw [Need.firstUnmet?_eq_none_iff.mpr hmet] at hfirst
    cases hfirst
  | rejected | unknown => exact id

theorem acceptable_of_compile (h : e.compile conf count = .ok c) : e.Acceptable := by
  have hfilled : c.Filled := (compile_fulfils h).2
  cases e with
  | shorthand text =>
    cases says_of_compile h with
    | @line _ line _ hread hline =>
      -- an argument that has to be there is not blank, and so it is not empty
      have hempty : allBlank "" = true := rfl
      refine ⟨line, hread, ?_⟩
      cases hline with
      | init | commit | add => simp
      | branch arg | checkout arg | merge arg | tag arg | createFile arg =>
        simp only [reduceCtorEq, or_self, iff_false]
        rintro rfl
        rw [Command.Filled, hempty] at hfilled
        cases hfilled
  | keyed k => exact (KeyedEvent.met_of_compile h).1
  | unrecognized value => cases says_of_compile h

/-- An event compiles if it gives what it needs, and else there is an objection to it. -/
theorem compile_ok_iff : (∃ c, e.compile conf count = .ok c) ↔ e.Acceptable := by
  refine ⟨fun ⟨_, hc⟩ => acceptable_of_compile hc, fun hacceptable => ?_⟩
  cases hc : e.compile conf count with
  | ok c => exact ⟨c, rfl⟩
  | error x => exact absurd hacceptable (objection_of_compile hc).not_acceptable

theorem compile_error_iff : e.compile conf count = .error x ↔ e.Objection x := by
  refine ⟨objection_of_compile, fun hx => ?_⟩
  cases hc : e.compile conf count with
  | ok c => exact absurd (acceptable_of_compile hc) hx.not_acceptable
  | error x' => rw [hx.unique (objection_of_compile hc)]

/-- **What comes of an event.** At any line, under every authorship and after any number of commits, an event
compiles exactly if it gives what it needs. Its command then says what the event says, in the very words; and
it fails exactly with the objection to it, at its line, where a record is reported by the first of its needs
that is not met. So no command of a log has a blank text where one must be given. -/
theorem acceptance_exact (conf : Option Authorship) (line count : Nat) (e : Event) :
    ((∃ commands, compileFrom conf line count [e] = .ok commands) ↔ e.Acceptable) ∧
    (∀ commands, compileFrom conf line count [e] = .ok commands →
      ∃ c, commands = [c] ∧ e.Says c ∧ c.Filled) ∧
    (∀ fault, compileFrom conf line count [e] = .error fault ↔
      ∃ x, e.Objection x ∧ fault = ⟨line, x.message⟩) ∧
    (∀ kind what, (EventError.missing kind what).message = "\"" ++ kind.keyword ++ "\": missing " ++ what) ∧
    ∀ (log : EventLog) (commands : List Command), log.compile = .ok commands → ∀ c ∈ commands, c.Filled := by
  refine ⟨?_, fun commands h => ?_, fun fault => ?_, fun _ _ => rfl, fun log commands h c hc => ?_⟩
  · rw [← @compile_ok_iff conf count e]
    constructor
    · rintro ⟨commands, h⟩
      obtain ⟨c, hc, _⟩ := compileFrom_single_ok.mp h
      exact ⟨c, hc⟩
    · rintro ⟨c, hc⟩
      exact ⟨[c], compileFrom_single_ok.mpr ⟨c, hc, rfl⟩⟩
  · obtain ⟨c, hc, hcommands⟩ := compileFrom_single_ok.mp h
    exact ⟨c, hcommands, says_of_compile hc, (compile_fulfils hc).2⟩
  · rw [compileFrom_single_error]
    exact exists_congr fun x => and_congr compile_error_iff Iff.rfl
  · exact EventLog.compile_filled h hc

/-- A file whose name is blank is missed before its content is, which is not given either; a file with blanks
around its name keeps them. -/
theorem acceptance_exact_blank :
    compileFrom none 4 2 [.keyed (.changeContent ⟨some "\u2003", none⟩)] =
      .error ⟨4, "\"change content\": missing file name"⟩ ∧
    ∃ c, compileFrom none 1 0 [.keyed (.createFile ⟨some " a ", some ""⟩)] = .ok [c] ∧
      Says (.keyed (.createFile ⟨some " a ", some ""⟩)) c := by
  constructor
  · refine ((acceptance_exact none 4 2 _).2.2.1 _).mpr ⟨.missing .changeContent "file name", ?_, rfl⟩
    exact .unmet (n := ⟨"file name", some "\u2003", false⟩) (by decide)
  · obtain ⟨haccepted, hsays, _⟩ := acceptance_exact none 1 0 (.keyed (.createFile ⟨some " a ", some ""⟩))
    have hmet : Need.Met ⟨"file name", some " a ", false⟩ := by decide
    obtain ⟨commands, hcommands⟩ := haccepted.mpr (List.forall_mem_singleton.mpr hmet)
    obtain ⟨c, rfl, hc, _⟩ := hsays commands hcommands
    exact ⟨c, hcommands, hc⟩

end Event

end Chronicle
