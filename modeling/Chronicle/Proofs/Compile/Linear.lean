import Chronicle.Proofs.Compile.Log

/-!
# A number of commits as commands

The log of a number of commits in a line compiles to `Command.linear`: one `init`, and then a change of
one file and a commit of it, over and over (`EventLog.linear_compile`). The steps count from 1, and so do
the numbers in the messages; neither goes beyond the number of commits, so that **no addition leaves 32
bits** on the way (`EventLog.linear_fits`).
-/

namespace Chronicle

open Outcome

/-- The commands of the `i`-th commit of a line; `i` counts from 1. -/
def Command.linearStep (i : Nat) : List Command :=
  [if i = 1 then .createFile "test.txt" ("text " ++ toString i)
    else .changeContent "test.txt" ("text " ++ toString i),
    .commit ⟨"commit " ++ toString i, "user-test", "user-test@example.com"⟩]

/-- The commands of `n` commits in a line. -/
def Command.linear (n : Nat) : List Command :=
  .init "main" :: (List.range n).flatMap fun i => Command.linearStep (i + 1)

theorem Command.linear_succ (n : Nat) :
    Command.linear (n + 1) = Command.linear n ++ Command.linearStep (n + 1) := by
  simp [Command.linear, List.range_succ, List.flatMap_append]

namespace EventLog

/-- The events of `n` commits in a line. -/
def linearEvents (n : Nat) : List Event :=
  .shorthand "init" :: (List.range n).flatMap fun i => Chronicle.linearStep (i + 1)

theorem linearEvents_succ (n : Nat) :
    linearEvents (n + 1) = linearEvents n ++ Chronicle.linearStep (n + 1) := by
  simp [linearEvents, List.range_succ, List.flatMap_append]

/-- The change of the `i`-th step. -/
theorem compile_linearChange (i count : Nat) (body : FileBody)
    (hbody : body = ⟨some linearFile, some ("text " ++ toString i)⟩) :
    (Event.keyed (if i = 1 then .createFile body else .changeContent body)).compile none count =
      .ok (if i = 1 then .createFile "test.txt" ("text " ++ toString i)
        else .changeContent "test.txt" ("text " ++ toString i)) := by
  subst hbody
  have hfile (kind : EventKind) : required kind "file name" (some linearFile) = .ok "test.txt" := rfl
  split
  · rw [Event.compile, KeyedEvent.compile, hfile, ok_bind]
    rfl
  · rw [Event.compile, KeyedEvent.compile, hfile, ok_bind]
    rfl

theorem compile_linearCommit (count : Nat) :
    (Event.shorthand "commit").compile none count =
      .ok (.commit ⟨"commit " ++ toString (count + 1), "user-test", "user-test@example.com"⟩) := rfl

theorem numbered_linearStep (i : Nat) : numbered (Chronicle.linearStep i) = 1 := by
  have hchange (body : FileBody) :
      numbered [.keyed (if i = 1 then .createFile body else .changeContent body)] = 0 := by
    split <;> rfl
  rw [Chronicle.linearStep, numbered_cons, hchange]
  rfl

theorem numbered_linearEvents (n : Nat) : numbered (linearEvents n) = n := by
  induction n with
  | zero => rfl
  | succ n ih => rw [linearEvents_succ, numbered_append, ih, numbered_linearStep]

/-- The number of a step and the number that its commit gets are counted apart, and are the same. -/
theorem compileFrom_linearStep (line n : Nat) :
    compileFrom none line n (Chronicle.linearStep (n + 1)) = .ok (Command.linearStep (n + 1)) := by
  have hchange := compile_linearChange (n + 1) n _ rfl
  have hnumber : (if n + 1 = 1 then Command.createFile "test.txt" ("text " ++ toString (n + 1))
      else .changeContent "test.txt" ("text " ++ toString (n + 1))).createsCommit = false := by
    split <;> rfl
  simp only [Chronicle.linearStep, compileFrom, hchange, hnumber, compile_linearCommit, ok_bind,
    Bool.false_eq_true, if_false, pure_eq]
  rfl

theorem compileFrom_linearEvents (n : Nat) :
    compileFrom none 1 0 (linearEvents n) = .ok (Command.linear n) := by
  induction n with
  | zero => rfl
  | succ n ih =>
    rw [linearEvents_succ, compileFrom_append, ih, ok_bind, numbered_linearEvents, Nat.zero_add,
      compileFrom_linearStep, ok_bind, Command.linear_succ]
    rfl

theorem linear_compile (count : UInt32) :
    (EventLog.linear count).compile = .ok (Command.linear count.toNat) :=
  compileFrom_linearEvents count.toNat

/-- **Nothing overflows**: neither the number of a step nor that of a commit. -/
theorem linear_fits (count : UInt32) :
    (∀ i < count.toNat, i + 1 < UInt32.size) ∧
      ∀ i, numbered ((EventLog.linear count).events.take i) < UInt32.size ∧
        ∀ e, (EventLog.linear count).events[i]? = some e → e.isNumbered = true →
          numbered ((EventLog.linear count).events.take i) + 1 < UInt32.size := by
  have hcount : count.toNat < UInt32.size := count.toNat_lt
  have hall : numbered (EventLog.linear count).events = count.toNat := numbered_linearEvents _
  refine ⟨fun i hi => by omega, fun i => ⟨?_, fun e he hn => ?_⟩⟩
  · have hle : numbered ((EventLog.linear count).events.take i) ≤ numbered (EventLog.linear count).events :=
      (List.take_sublist i _).countP_le
    omega
  · have hle := number_le he hn
    omega

end EventLog

end Chronicle
