import Chronicle.Proofs.Compile.Log
import Chronicle.Proofs.Event.Shorthand
import Mathlib.Data.List.Forall2

/-!
# Shorthand and record compile alike

Some events may be written in either form, as a line of shorthand or as a record under the keyword
(`Event.OtherForm`). **Both forms compile to the same command, or fail with the same error at the same
line** (`Event.forms_compile_alike`), so that a log may be rewritten from one form to the other event by
event.
-/

namespace Chronicle

open Outcome Text

namespace KeyedEvent

/-- The record that holds nothing but the name that an event is about, for the kinds that have both a
record and an argument. -/
def named? (kind : EventKind) (name : String) : Option KeyedEvent :=
  match kind with
  | .merge => some (merge { theirs := some name })
  | .tag => some (tag { name := some name })
  | .createFile => some (createFile { file := some name })
  | _ => none

/-- The record that says what a bare keyword says. -/
def bare? : EventKind → Option KeyedEvent
  | .init => some (init {})
  | .commit => some (commit {})
  | .add => some (add { all := true })
  | _ => none

end KeyedEvent

/-- A line of shorthand and the record that says the same. -/
inductive Event.OtherForm : Event → Event → Prop
  /-- The trimmed argument of the line stands in the record. -/
  | named (kind : EventKind) (before gap arg : String) {record : KeyedEvent} (hbefore : Blanks before.toList)
      (hgap : Blanks gap.toList) (hne : gap ≠ "") (hrecord : KeyedEvent.named? kind (trim arg) = some record) :
      OtherForm (.shorthand (before ++ (kind.keyword ++ gap ++ arg))) (.keyed record)
  /-- The keyword alone, blanks around it not counting. -/
  | bare (kind : EventKind) (before after : String) {record : KeyedEvent} (hbefore : Blanks before.toList)
      (hafter : Blanks after.toList) (hrecord : KeyedEvent.bare? kind = some record) :
      OtherForm (.shorthand (before ++ kind.keyword ++ after)) (.keyed record)

/-- Two events that are the same but for the form they are written in. -/
def Event.Alike (e e' : Event) : Prop := e = e' ∨ OtherForm e e' ∨ OtherForm e' e

/-! ## Lines and records -/

section

variable {kind : EventKind} {record : KeyedEvent} {name : String}

theorem KeyedEvent.withArg_of_named (h : named? kind name = some record) : kind.shorthand = .withArg := by
  cases kind <;> first | rfl | cases h

theorem KeyedEvent.bare_of_bare (h : bare? kind = some record) : kind.shorthand = .bare := by
  cases kind <;> first | rfl | cases h

theorem ShorthandLine.compile_named (h : KeyedEvent.named? kind name = some record) (conf : Option Authorship)
    (count : Nat) : compile conf count ⟨kind, name⟩ = record.compile conf count := by
  cases kind <;> cases h <;> rfl

theorem ShorthandLine.compile_bare (h : KeyedEvent.bare? kind = some record) (conf : Option Authorship)
    (count : Nat) : compile conf count ⟨kind, ""⟩ = record.compile conf count := by
  cases kind <;> cases h <;> rfl

theorem ShorthandLine.read_bare {before after : String} (hbefore : Blanks before.toList)
    (hafter : Blanks after.toList) (hkind : kind.shorthand = .bare) :
    read (before ++ kind.keyword ++ after) = some ⟨kind, ""⟩ := by
  refine read_iff_spells.mpr ⟨by simp [hkind], ?_⟩
  rw [String.toList_append, String.toList_append]
  exact .alone hbefore hafter

end

namespace Event

theorem compile_of_read {text : String} {line : ShorthandLine} (h : ShorthandLine.read text = some line)
    (conf : Option Authorship) (count : Nat) : (shorthand text).compile conf count = line.compile conf count := by
  simp only [compile, h]

theorem OtherForm.compile_eq {e e' : Event} (h : OtherForm e e') (conf : Option Authorship) (count : Nat) :
    e.compile conf count = e'.compile conf count := by
  cases h with
  | named kind before gap arg hbefore hgap hne hrecord =>
    have hpadded : ShorthandLine.read (before ++ (kind.keyword ++ gap ++ arg) ++ "") =
        ShorthandLine.read (kind.keyword ++ gap ++ arg) := ShorthandLine.read_padded hbefore (by decide) _
    have hread : ShorthandLine.read (before ++ (kind.keyword ++ gap ++ arg)) = some ⟨kind, trim arg⟩ := by
      rw [String.append_empty] at hpadded
      rw [hpadded, ShorthandLine.read_withArg (KeyedEvent.withArg_of_named hrecord) hgap hne]
    exact (compile_of_read hread conf count).trans (ShorthandLine.compile_named hrecord conf count)
  | bare kind before after hbefore hafter hrecord =>
    have hread := ShorthandLine.read_bare hbefore hafter (KeyedEvent.bare_of_bare hrecord)
    exact (compile_of_read hread conf count).trans (ShorthandLine.compile_bare hrecord conf count)

theorem Alike.compile_eq {e e' : Event} (h : Alike e e') (conf : Option Authorship) (count : Nat) :
    e.compile conf count = e'.compile conf count := by
  obtain rfl | h | h := h
  · rfl
  · exact h.compile_eq conf count
  · exact (h.compile_eq conf count).symm

/-- An argument of a kind that needs one, with the blanks around it. -/
theorem compile_withArg (kind : EventKind) (hkind : kind.shorthand = .withArg) (arg : String)
    (conf : Option Authorship) (count : Nat) :
    (shorthand (kind.keyword ++ " " ++ arg)).compile conf count =
      ShorthandLine.compile conf count ⟨kind, trim arg⟩ :=
  compile_of_read (ShorthandLine.read_withArg hkind (by decide) (by decide) arg) conf count

end Event

/-! ## Logs -/

/-- By induction on the logs; the number that an event takes depends on the command it compiles to alone. -/
theorem compileFrom_alike {events events' : List Event} (h : List.Forall₂ Event.Alike events events')
    (conf : Option Authorship) (line count : Nat) :
    compileFrom conf line count events = compileFrom conf line count events' := by
  induction h generalizing line count with
  | nil => rfl
  | cons hhead _ ih => simp only [compileFrom, hhead.compile_eq conf count, ih]

theorem required_trim (kind : EventKind) (what arg : String) :
    required kind what (some (trim arg)) =
      if trim arg = "" then .error (.missing kind what) else .ok (trim arg) := by
  simp [required, allBlank_trim, String.isEmpty_iff]

namespace Event

/-- **Shorthand and record compile alike.** A line of shorthand and the record that says the same compile
alike at any line, under every authorship and after any number of commits, and so do logs that differ in
the forms of their events. In either form an event that is about a name is refused when the name is blank,
and has every default filled in from the name otherwise. -/
theorem forms_compile_alike (conf : Option Authorship) :
    (∀ e e', OtherForm e e' → ∀ line count,
      compileFrom conf line count [e] = compileFrom conf line count [e']) ∧
    (∀ events events', List.Forall₂ Alike events events' →
      EventLog.compile ⟨events, conf⟩ = EventLog.compile ⟨events', conf⟩) ∧
    ∀ (arg : String) (line count : Nat),
      compileFrom conf line count [.shorthand ("merge" ++ " " ++ arg)] =
        (if trim arg = "" then .error ⟨line, "\"merge\": missing branch"⟩
         else .ok [.merge (trim arg) (Authorship.info conf ("merge branch " ++ trim arg) none none)]) ∧
      compileFrom conf line count [.shorthand ("tag" ++ " " ++ arg)] =
        (if trim arg = "" then .error ⟨line, "\"tag\": missing tag name"⟩ else .ok [.tag (trim arg) none]) ∧
      compileFrom conf line count [.shorthand ("create file" ++ " " ++ arg)] =
        (if trim arg = "" then .error ⟨line, "\"create file\": missing file name"⟩
         else .ok [.createFile (trim arg) (trim arg)]) := by
  refine ⟨fun e e' h line count => ?_, fun events events' h => compileFrom_alike h conf 1 0,
    fun arg line count => ?_⟩
  · exact compileFrom_alike (.cons (.inr (.inl h)) .nil) conf line count
  have hmerge := compile_withArg .merge rfl arg conf count
  have htag := compile_withArg .tag rfl arg conf count
  have hfile := compile_withArg .createFile rfl arg conf count
  by_cases harg : trim arg = ""
  · simp only [ShorthandLine.compile, required_trim, if_pos harg, error_bind] at hmerge htag hfile
    refine ⟨?_, ?_, ?_⟩
    · exact (compileFrom_cons_error hmerge).trans (if_pos harg).symm
    · exact (compileFrom_cons_error htag).trans (if_pos harg).symm
    · exact (compileFrom_cons_error hfile).trans (if_pos harg).symm
  · simp only [ShorthandLine.compile, required_trim, if_neg harg, ok_bind, pure_eq] at hmerge htag hfile
    refine ⟨?_, ?_, ?_⟩
    · exact (compileFrom_cons_ok hmerge).trans (if_neg harg).symm
    · exact (compileFrom_cons_ok htag).trans (if_neg harg).symm
    · exact (compileFrom_cons_ok hfile).trans (if_neg harg).symm

/-- A log in either form; its merge names no branch and is refused in both. -/
theorem forms_compile_alike_unnamed :
    compileFrom none 3 1 [.shorthand " add\n"] = compileFrom none 3 1 [.keyed (.add { all := true })] ∧
    EventLog.compile ⟨[.shorthand "create file a.txt\t", .keyed (.commit {}), .shorthand "merge \u3000"], none⟩ =
      EventLog.compile ⟨[.keyed (.createFile { file := some "a.txt" }), .shorthand "commit",
        .keyed (.merge { theirs := some "" })], none⟩ := by
  obtain ⟨hone, hlog, _⟩ := forms_compile_alike none
  have hadd : OtherForm (.shorthand " add\n") (.keyed (.add { all := true })) :=
    .bare .add " " "\n" (by decide) (by decide) rfl
  have hfile : OtherForm (.shorthand "create file a.txt\t") (.keyed (.createFile { file := some "a.txt" })) :=
    .named .createFile "" " " "a.txt\t" Blanks.nil (by decide) (by decide) rfl
  have hcommit : OtherForm (.shorthand "commit") (.keyed (.commit {})) :=
    .bare .commit "" "" Blanks.nil Blanks.nil rfl
  have hmerge : OtherForm (.shorthand "merge \u3000") (.keyed (.merge { theirs := some "" })) :=
    .named .merge "" " " "\u3000" Blanks.nil (by decide) (by decide) rfl
  exact ⟨hone _ _ hadd 3 1,
    hlog _ _ (.cons (.inr (.inl hfile)) (.cons (.inr (.inr hcommit)) (.cons (.inr (.inl hmerge)) .nil)))⟩

end Event

end Chronicle
