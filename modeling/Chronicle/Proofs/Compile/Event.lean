import Chronicle.Compile
import Chronicle.Proofs.Outcome

/-!
# What an event compiles to

A single event, looked at apart from its log. Whether it compiles, and the error if it does not,
depend on the event alone (`Event.compile_error`): neither the authorship that the log falls back on
nor the number of commits so far has a part in it. The number is read by the messages of untitled
commits only (`Event.compile_untitled`). The command is of the kind the event is written in, and has
no blank text where the kind requires one (`Event.compile_fulfils`); so that kind says whether the
command makes a commit (`Event.compile_createsCommit`).
-/

namespace Chronicle

open Outcome

namespace Event

/-- The kind that an entry of a log is written in, whether it compiles or not. -/
def kind? : Event → Option EventKind
  | shorthand text => (ShorthandLine.read text).map (·.kind)
  | keyed e => some e.kind
  | unrecognized _ => none

/-- Commits and merges are numbered; events of the other kinds take no number. -/
def isNumbered (e : Event) : Bool := e.kind? == some .commit || e.kind? == some .merge

/-- A commit, in either form, that gives no message. -/
def isUntitled : Event → Bool
  | shorthand text => (ShorthandLine.read text).map (·.kind) == some .commit
  | keyed (.commit body) => body.message.isNone
  | _ => false

end Event

namespace Command

/-- The kind of the event that asks for a command. -/
def kind : Command → EventKind
  | init _ => .init
  | commit _ => .commit
  | branch _ => .branch
  | checkout _ => .checkout
  | merge .. => .merge
  | tag .. => .tag
  | createFile .. => .createFile
  | changeContent .. => .changeContent
  | add _ => .add
  | appendContent .. => .appendContent

/-- The texts of a command that must be given are not blank. -/
def Filled : Command → Prop
  | init name | branch name | checkout name | merge name _ | tag name _ | createFile name _
  | changeContent name _ | add (.file name) | appendContent name _ _ => Text.allBlank name = false
  | commit _ | add .all => True

/-- Commits and merges make a commit. -/
theorem createsCommit_eq (c : Command) : c.createsCommit = (c.kind == .commit || c.kind == .merge) := by
  cases c <;> rfl

end Command

/-! ## Errors -/

theorem ShorthandLine.compile_error {conf : Option Authorship} {count : Nat} {line : ShorthandLine}
    {x : EventError} (h : line.compile conf count = .error x) (conf' : Option Authorship)
    (count' : Nat) : line.compile conf' count' = .error x := by
  unfold compile at h ⊢
  cases hk : line.kind <;> simp_all [bind_eq_error]

theorem KeyedEvent.compile_error {conf : Option Authorship} {count : Nat} {k : KeyedEvent}
    {x : EventError} (h : k.compile conf count = .error x) (conf' : Option Authorship)
    (count' : Nat) : k.compile conf' count' = .error x := by
  cases k with
  | init body =>
    unfold compile at h ⊢
    cases hb : body.defaultBranch <;> simp_all [bind_eq_error]
  | add body =>
    unfold compile at h ⊢
    cases hb : body.all <;> simp_all [bind_eq_error]
  | commit body => cases h
  | merge body | tag body | createFile body | changeContent body | appendContent body =>
    simpa [compile, bind_eq_error] using h

namespace Event

/-- An event that does not compile fails with one error under every authorship and after any number
of commits. -/
theorem compile_error {conf : Option Authorship} {count : Nat} {e : Event} {x : EventError}
    (h : e.compile conf count = .error x) (conf' : Option Authorship) (count' : Nat) :
    e.compile conf' count' = .error x := by
  cases e with
  | shorthand text =>
    cases hr : ShorthandLine.read text with
    | none =>
      simp only [compile, hr] at h ⊢
      exact h
    | some line =>
      simp only [compile, hr] at h ⊢
      exact ShorthandLine.compile_error h conf' count'
  | keyed k => exact KeyedEvent.compile_error h conf' count'
  | unrecognized value => exact h

/-- An event that compiles does so under every authorship and after any number of commits. -/
theorem compile_ok {conf : Option Authorship} {count : Nat} {e : Event} {c : Command}
    (h : e.compile conf count = .ok c) (conf' : Option Authorship) (count' : Nat) :
    ∃ c', e.compile conf' count' = .ok c' := by
  cases hc : e.compile conf' count' with
  | ok c' => exact ⟨c', rfl⟩
  | error x =>
    rw [compile_error hc conf count] at h
    cases h

end Event

/-! ## Kinds and texts -/

theorem required_eq_ok {kind : EventKind} {what v : String} {value : Option String} :
    required kind what value = .ok v ↔ value = some v ∧ Text.allBlank v = false := by
  cases value with
  | none => simp [required]
  | some w =>
    cases hw : Text.allBlank w with
    | true =>
      simp only [required, hw, if_true, reduceCtorEq, Option.some.injEq, false_iff, not_and]
      rintro rfl
      simp [hw]
    | false =>
      simp only [required, hw, Bool.false_eq_true, if_false, Except.ok.injEq, Option.some.injEq]
      exact ⟨fun h => ⟨h, h ▸ hw⟩, fun h => h.1⟩

/-- A command of a kind, with nothing blank that has to be given. -/
structure Command.Fulfils (c : Command) (kind : EventKind) : Prop where
  kind : c.kind = kind
  filled : c.Filled

theorem ShorthandLine.compile_fulfils {conf : Option Authorship} {count : Nat} {line : ShorthandLine}
    {c : Command} (h : line.compile conf count = .ok c) : c.Fulfils line.kind := by
  unfold compile at h
  cases hk : line.kind <;> simp only [hk, bind_eq_ok, pure_eq, reduceCtorEq] at h
  case init =>
    obtain ⟨_, _, h⟩ := h
    cases h
    exact ⟨rfl, rfl⟩
  case commit | add =>
    obtain ⟨_, _, h⟩ := h
    cases h
    exact ⟨rfl, trivial⟩
  case branch | checkout | merge | tag | createFile =>
    obtain ⟨name, hname, h⟩ := h
    cases h
    exact ⟨rfl, (required_eq_ok.mp hname).2⟩

theorem KeyedEvent.compile_fulfils {conf : Option Authorship} {count : Nat} {k : KeyedEvent} {c : Command}
    (h : k.compile conf count = .ok c) : c.Fulfils k.kind := by
  cases k with
  | init body =>
    unfold compile at h
    cases hb : body.defaultBranch <;> simp only [hb, bind_eq_ok, pure_eq] at h
    · cases h
      exact ⟨rfl, rfl⟩
    · obtain ⟨name, hname, h⟩ := h
      cases h
      exact ⟨rfl, (required_eq_ok.mp hname).2⟩
  | commit body =>
    cases h
    exact ⟨rfl, trivial⟩
  | merge body | tag body | createFile body =>
    simp only [compile, bind_eq_ok, pure_eq] at h
    obtain ⟨name, hname, h⟩ := h
    cases h
    exact ⟨rfl, (required_eq_ok.mp hname).2⟩
  | add body =>
    simp only [compile] at h
    split at h
    · cases h
      exact ⟨rfl, trivial⟩
    · obtain ⟨path, hpath, h⟩ := bind_eq_ok.mp h
      cases h
      exact ⟨rfl, (required_eq_ok.mp hpath).2⟩
  | changeContent body | appendContent body =>
    simp only [compile, bind_eq_ok, pure_eq] at h
    obtain ⟨name, hname, _, _, h⟩ := h
    cases h
    exact ⟨rfl, (required_eq_ok.mp hname).2⟩

namespace Event

/-- An event that compiles is written in a kind, and its command is of that kind. -/
theorem compile_fulfils {conf : Option Authorship} {count : Nat} {e : Event} {c : Command}
    (h : e.compile conf count = .ok c) : e.kind? = some c.kind ∧ c.Filled := by
  cases e with
  | shorthand text =>
    cases hr : ShorthandLine.read text with
    | none =>
      simp only [compile, hr] at h
      cases h
    | some line =>
      simp only [compile, hr] at h
      have hc := ShorthandLine.compile_fulfils h
      exact ⟨by simp [kind?, hr, hc.kind], hc.filled⟩
  | keyed k =>
    have hc := KeyedEvent.compile_fulfils h
    exact ⟨congrArg some hc.kind.symm, hc.filled⟩
  | unrecognized value =>
    simp only [compile] at h
    cases hr : rejection? value <;> rw [hr] at h <;> cases h

/-! ## Numbering -/

/-- The command of an event makes a commit exactly when the event is numbered. -/
theorem compile_createsCommit {conf : Option Authorship} {count : Nat} {e : Event} {c : Command}
    (h : e.compile conf count = .ok c) : c.createsCommit = e.isNumbered := by
  rw [Command.createsCommit_eq, isNumbered, (compile_fulfils h).1]
  rfl

/-- A commit without a message of its own is called after its number, which is one more than that
of the commits and merges before it. -/
theorem compile_untitled {conf : Option Authorship} {count : Nat} {e : Event} {c : Command}
    (hu : e.isUntitled = true) (h : e.compile conf count = .ok c) :
    ∃ info, c = .commit info ∧ info.message = "commit " ++ toString (count + 1) := by
  cases e with
  | shorthand text =>
    simp only [isUntitled, beq_iff_eq, Option.map_eq_some_iff] at hu
    obtain ⟨line, hr, hk⟩ := hu
    simp only [compile, hr, ShorthandLine.compile, hk, bind_eq_ok, pure_eq] at h
    obtain ⟨_, _, h⟩ := h
    cases h
    exact ⟨_, rfl, rfl⟩
  | keyed k =>
    cases k with
    | commit body =>
      have hm : body.message = none := by simpa [isUntitled] using hu
      cases h
      exact ⟨_, rfl, by simp [Authorship.info, hm, commitMessage]⟩
    | init _ | merge _ | tag _ | createFile _ | changeContent _ | add _ | appendContent _ =>
      simp [isUntitled] at hu
  | unrecognized value => simp [isUntitled] at hu

end Event

end Chronicle
