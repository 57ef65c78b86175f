import Chronicle.Proofs.Compile.Event

/-!
# Logs compile event by event

A log compiles exactly when each of its events does by itself, and then event `i` gives command `i`.
All that an event learns from those before it is how many of them are numbered (`numbered`). A log
that does not compile fails at its first event that does not, with the error of that event and its
line (`EventLog.FirstFault`).

Everything follows from what compilation does to a log in two parts: the first part is compiled by
itself, and the second one starts with the line and the number that the first one leaves
(`compileFrom_append`).
-/

namespace Chronicle

open Outcome

/-- How many of some events take a number. -/
def numbered (events : List Event) : Nat := events.countP Event.isNumbered

/-- Why an event does not compile, as a log that holds nothing else reports it. -/
def Event.fault? (e : Event) : Option String :=
  match EventLog.compile ⟨[e], none⟩ with
  | .ok _ => none
  | .error fault => some fault.message

/-- An error, found `lines` lines further down. -/
def LogError.below (lines : Nat) (fault : LogError) : LogError := ⟨lines + fault.line, fault.message⟩

/-! ## One event at a time -/

section

variable {conf : Option Authorship} {line count : Nat} {e : Event} {events : List Event}

theorem compileFrom_cons_error {x : EventError} (h : e.compile conf count = .error x) :
    compileFrom conf line count (e :: events) = .error ⟨line, x.message⟩ := by
  simp only [compileFrom, h]

theorem compileFrom_cons_ok {c : Command} (h : e.compile conf count = .ok c) :
    compileFrom conf line count (e :: events) =
      (compileFrom conf (line + 1) (count + numbered [e]) events).map (c :: ·) := by
  have hn : (if c.createsCommit then count + 1 else count) = count + numbered [e] := by
    rw [Event.compile_createsCommit h]
    cases hb : e.isNumbered <;> simp [numbered, hb]
  simp only [compileFrom, h, hn]
  cases compileFrom conf (line + 1) (count + numbered [e]) events <;> rfl

theorem compileFrom_single_ok {commands : List Command} :
    compileFrom conf line count [e] = .ok commands ↔ ∃ c, e.compile conf count = .ok c ∧ commands = [c] := by
  cases h : e.compile conf count with
  | error x => simp [compileFrom_cons_error h]
  | ok c => simp [compileFrom, h, eq_comm]

theorem compileFrom_single_error {fault : LogError} : compileFrom conf line count [e] = .error fault ↔
    ∃ x, e.compile conf count = .error x ∧ fault = ⟨line, x.message⟩ := by
  cases h : e.compile conf count with
  | error x => simp [compileFrom_cons_error h, eq_comm]
  | ok c => simp [compileFrom, h]

/-- Alone in a log, an event has the error that it has anywhere. -/
theorem Event.fault?_eq_some_iff {m : String} :
    e.fault? = some m ↔ ∃ x, e.compile conf count = .error x ∧ x.message = m := by
  cases h : e.compile none 0 with
  | error x =>
    have hx := Event.compile_error h conf count
    simp [fault?, EventLog.compile, compileFrom, h, hx]
  | ok c =>
    obtain ⟨c', hc⟩ := Event.compile_ok h conf count
    simp [fault?, EventLog.compile, compileFrom, h, hc]

theorem Event.fault?_eq_none_iff : e.fault? = none ↔ ∃ c, e.compile conf count = .ok c := by
  cases h : e.compile conf count with
  | error x =>
    have hx : e.fault? = some x.message := Event.fault?_eq_some_iff.mpr ⟨x, h, rfl⟩
    simp [hx]
  | ok c =>
    cases hf : e.fault? with
    | none => simp
    | some m =>
      have hx : ∃ x, e.compile conf count = .error x ∧ x.message = m :=
        Event.fault?_eq_some_iff.mp hf
      obtain ⟨x, hx, _⟩ := hx
      rw [hx] at h
      cases h

end

/-! ## Parts of a log -/

theorem numbered_cons (e : Event) (events : List Event) :
    numbered (e :: events) = numbered [e] + numbered events := by
  simp [numbered, List.countP_cons, Nat.add_comm]

theorem numbered_append (first second : List Event) :
    numbered (first ++ second) = numbered first + numbered second := List.countP_append

/-- The second part of a log starts where the first one ends. -/
theorem compileFrom_append (conf : Option Authorship) (line count : Nat)
    (first second : List Event) :
    compileFrom conf line count (first ++ second) = do
      let commands ← compileFrom conf line count first
      let more ← compileFrom conf (line + first.length) (count + numbered first) second
      return commands ++ more := by
  induction first generalizing line count with
  | nil =>
    simp only [List.nil_append, compileFrom, ok_bind, numbered, List.countP_nil, List.length_nil,
      Nat.add_zero]
    cases compileFrom conf line count second <;> rfl
  | cons e rest ih =>
    cases h : e.compile conf count with
    | error x => rw [List.cons_append, compileFrom_cons_error h, compileFrom_cons_error h]; rfl
    | ok c =>
      rw [List.cons_append, compileFrom_cons_ok h, compileFrom_cons_ok h, ih, numbered_cons e rest,
        List.length_cons, show line + 1 + rest.length = line + (rest.length + 1) by omega,
        Nat.add_assoc]
      cases compileFrom conf (line + 1) (count + numbered [e]) rest with
      | error x => rfl
      | ok commands =>
        simp only [ok_bind]
        cases compileFrom conf (line + (rest.length + 1))
          (count + (numbered [e] + numbered rest)) second <;> rfl

/-- The line that a log starts with is added to those of its errors and read by nothing else. -/
theorem compileFrom_below (conf : Option Authorship) (lines line count : Nat)
    (events : List Event) :
    compileFrom conf (lines + line) count events =
      (compileFrom conf line count events).mapError (LogError.below lines) := by
  induction events generalizing line count with
  | nil => rfl
  | cons e rest ih =>
    cases h : e.compile conf count with
    | error x => rw [compileFrom_cons_error h, compileFrom_cons_error h]; rfl
    | ok c =>
      rw [compileFrom_cons_ok h, compileFrom_cons_ok h, Nat.add_assoc, ih]
      cases compileFrom conf (line + 1) (count + numbered [e]) rest <;> rfl

/-- What compiled gives one command for each event. -/
theorem compileFrom_ok {conf : Option Authorship} {line count : Nat} {events : List Event}
    {commands : List Command} (h : compileFrom conf line count events = .ok commands) :
    commands.length = events.length ∧
      ∀ (i : Nat) (e : Event) (c : Command), events[i]? = some e → commands[i]? = some c →
        e.compile conf (count + numbered (events.take i)) = .ok c := by
  induction events generalizing line count commands with
  | nil =>
    cases h
    exact ⟨rfl, by simp⟩
  | cons e rest ih =>
    cases hc : e.compile conf count with
    | error x =>
      rw [compileFrom_cons_error hc] at h
      cases h
    | ok c =>
      rw [compileFrom_cons_ok hc] at h
      cases hr : compileFrom conf (line + 1) (count + numbered [e]) rest with
      | error x =>
        rw [hr] at h
        cases h
      | ok more =>
        rw [hr] at h
        cases h
        obtain ⟨hlen, hat⟩ := ih hr
        refine ⟨by simp [hlen], ?_⟩
        intro i e' c' he hc'
        cases i with
        | zero =>
          simp only [List.getElem?_cons_zero, Option.some.injEq] at he hc'
          subst he hc'
          exact hc
        | succ j =>
          rw [List.take_succ_cons, numbered_cons, ← Nat.add_assoc]
          exact hat j e' c' he hc'

/-- Events that all compile by themselves compile in a row. -/
theorem compileFrom_isOk (conf : Option Authorship) (line count : Nat) {events : List Event}
    (h : ∀ e ∈ events, e.fault? = none) :
    ∃ commands, compileFrom conf line count events = .ok commands := by
  induction events generalizing line count with
  | nil => exact ⟨[], rfl⟩
  | cons e rest ih =>
    obtain ⟨c, hc⟩ := Event.fault?_eq_none_iff.mp (h e List.mem_cons_self)
    obtain ⟨commands, hr⟩ := ih (line + 1) (count + numbered [e])
      (fun e' he' => h e' (List.mem_cons_of_mem _ he'))
    exact ⟨c :: commands, by rw [compileFrom_cons_ok hc, hr]; rfl⟩

/-- The first event that does not compile ends the compilation, whatever follows it. -/
theorem compileFrom_fault {conf : Option Authorship} {line count : Nat} {before : List Event}
    {e : Event} {after : List Event} {m : String} (hb : ∀ b ∈ before, b.fault? = none)
    (he : e.fault? = some m) :
    compileFrom conf line count (before ++ e :: after) = .error ⟨line + before.length, m⟩ := by
  obtain ⟨commands, hok⟩ := compileFrom_isOk conf line count hb
  obtain ⟨x, hx, hm⟩ := Event.fault?_eq_some_iff.mp he
  rw [compileFrom_append, hok, ok_bind, compileFrom_cons_error hx, hm]
  rfl

/-- Events either all compile or have a first one that does not. -/
theorem exists_first_fault (events : List Event) :
    (∀ e ∈ events, e.fault? = none) ∨
      ∃ before e after m, events = before ++ e :: after ∧ (∀ b ∈ before, b.fault? = none) ∧
        e.fault? = some m := by
  induction events with
  | nil => exact .inl (by simp)
  | cons e rest ih =>
    cases he : e.fault? with
    | some m => exact .inr ⟨[], e, rest, m, rfl, by simp, he⟩
    | none =>
      rcases ih with hall | ⟨before, e', after, m, rfl, hb, he'⟩
      · exact .inl (by simpa [he] using hall)
      · exact .inr ⟨e :: before, e', after, m, rfl, by simpa [he] using hb, he'⟩

/-! ## Whole logs -/

namespace EventLog

/-- What makes commands those of a log: there is one for each event, in order, and each is what its
event compiles to after the commits and merges before it. -/
structure IsCompiled (log : EventLog) (commands : List Command) : Prop where
  length : commands.length = log.events.length
  command : ∀ (i : Nat) (e : Event), log.events[i]? = some e → ∃ c, commands[i]? = some c ∧
    e.compile log.authorship (numbered (log.events.take i)) = .ok c ∧
    c.createsCommit = e.isNumbered ∧
    (e.isUntitled = true → ∃ info, c = .commit info ∧
      info.message = "commit " ++ toString (numbered (log.events.take i) + 1))

/-- The error of the first event that does not compile by itself, with its line; lines count
from 1. -/
def FirstFault (log : EventLog) (fault : LogError) : Prop :=
  ∃ before e after, log.events = before ++ e :: after ∧ (∀ b ∈ before, b.fault? = none) ∧
    e.fault? = some fault.message ∧ fault.line = before.length + 1

theorem compile_fault {log : EventLog} {fault : LogError} (h : log.FirstFault fault) :
    log.compile = .error fault := by
  obtain ⟨before, e, after, hlog, hb, he, hline⟩ := h
  rw [compile, hlog, compileFrom_fault hb he, Nat.add_comm, ← hline]

/-- Whether a log compiles is up to each of its events alone. -/
theorem compile_isOk_iff (log : EventLog) :
    (∃ commands, log.compile = .ok commands) ↔ ∀ e ∈ log.events, e.fault? = none := by
  constructor
  · rintro ⟨commands, h⟩
    rcases exists_first_fault log.events with hall | ⟨before, e, after, m, hlog, hb, he⟩
    · exact hall
    · have hf : log.FirstFault ⟨before.length + 1, m⟩ := ⟨before, e, after, hlog, hb, he, rfl⟩
      rw [compile_fault hf] at h
      cases h
  · exact compileFrom_isOk log.authorship 1 0

theorem compile_error_iff (log : EventLog) (fault : LogError) :
    log.compile = .error fault ↔ log.FirstFault fault := by
  refine ⟨fun h => ?_, compile_fault⟩
  rcases exists_first_fault log.events with hall | ⟨before, e, after, m, hlog, hb, he⟩
  · obtain ⟨commands, hok⟩ := (compile_isOk_iff log).mpr hall
    rw [hok] at h
    cases h
  · have hf : log.FirstFault ⟨before.length + 1, m⟩ := ⟨before, e, after, hlog, hb, he, rfl⟩
    rw [compile_fault hf] at h
    cases h
    exact hf

theorem IsCompiled.of_compile {log : EventLog} {commands : List Command}
    (h : log.compile = .ok commands) : log.IsCompiled commands := by
  obtain ⟨hlen, hat⟩ := compileFrom_ok h
  refine ⟨hlen, fun i e he => ?_⟩
  have hi : i < commands.length := by
    rw [hlen]
    exact (List.getElem?_eq_some_iff.mp he).1
  have hc : commands[i]? = some commands[i] := List.getElem?_eq_getElem hi
  have hcomp := hat i e commands[i] he hc
  rw [Nat.zero_add] at hcomp
  exact ⟨commands[i], hc, hcomp, Event.compile_createsCommit hcomp,
    fun hu => Event.compile_untitled hu hcomp⟩

/-- Every command of a log is that of one of its events. -/
theorem exists_event {log : EventLog} {commands : List Command} (h : log.compile = .ok commands) {i : Nat}
    {c : Command} (hc : commands[i]? = some c) :
    ∃ e, log.events[i]? = some e ∧
      e.compile log.authorship (numbered (log.events.take i)) = .ok c := by
  have hlog := IsCompiled.of_compile h
  have hlt : i < log.events.length := hlog.length ▸ (List.getElem?_eq_some_iff.mp hc).1
  have he : log.events[i]? = some log.events[i] := List.getElem?_eq_getElem hlt
  obtain ⟨c', hc', hcomp, _⟩ := hlog.command i _ he
  rw [hc] at hc'
  cases hc'
  exact ⟨_, he, hcomp⟩

/-- No command of a log has a blank text where one must be given. -/
theorem compile_filled {log : EventLog} {commands : List Command} (h : log.compile = .ok commands)
    {c : Command} (hc : c ∈ commands) : c.Filled := by
  obtain ⟨i, hi⟩ := List.mem_iff_getElem?.mp hc
  obtain ⟨e, _, hcomp⟩ := exists_event h hi
  exact (Event.compile_fulfils hcomp).2

theorem compile_append (log : EventLog) (more : List Event) :
    EventLog.compile ⟨log.events ++ more, log.authorship⟩ = do
      let commands ← log.compile
      let rest ← (compileFrom log.authorship 1 (numbered log.events) more).mapError
        (LogError.below log.events.length)
      return commands ++ rest := by
  simp only [compile]
  rw [compileFrom_append, Nat.zero_add, Nat.add_comm 1, compileFrom_below]

/-- The number of a numbered event is at most that of all numbered events of its log. -/
theorem number_le {events : List Event} {i : Nat} {e : Event} (he : events[i]? = some e)
    (hn : e.isNumbered = true) : numbered (events.take i) + 1 ≤ numbered events := by
  obtain ⟨hi, hei⟩ := List.getElem?_eq_some_iff.mp he
  have hdrop : events.drop i = e :: events.drop (i + 1) := by
    rw [List.drop_eq_getElem_cons hi, hei]
  have hsplit : numbered events = numbered (events.take i) + numbered (events.drop i) := by
    rw [← numbered_append, List.take_append_drop]
  have hone : numbered [e] = 1 := by simp [numbered, hn]
  rw [hsplit, hdrop, numbered_cons, hone]
  omega

/-- **Logs compile by position.** A log compiles exactly when every event of it does, and then into
one command per event that depends on the event, the authorship of the log and the number of commits
and merges before it. Otherwise its error is that of the first event that does not compile. Events
put behind a log go on counting its lines and its numbers. In a log with fewer than `UInt32.size`
commits and merges no number that an event gets reaches that bound. -/
theorem compile_by_position (log : EventLog) :
    ((∃ commands, log.compile = .ok commands) ↔ ∀ e ∈ log.events, e.fault? = none) ∧
    (∀ commands, log.compile = .ok commands → log.IsCompiled commands) ∧
    (∀ fault, log.compile = .error fault ↔ log.FirstFault fault) ∧
    (∀ more, EventLog.compile ⟨log.events ++ more, log.authorship⟩ = do
      let commands ← log.compile
      let rest ← (compileFrom log.authorship 1 (numbered log.events) more).mapError
        (LogError.below log.events.length)
      return commands ++ rest) ∧
    (numbered log.events < UInt32.size → ∀ i e, log.events[i]? = some e → e.isNumbered = true →
      numbered (log.events.take i) + 1 < UInt32.size) := by
  refine ⟨compile_isOk_iff log, fun _ => IsCompiled.of_compile, compile_error_iff log,
    compile_append log, ?_⟩
  intro hsmall i e he hn
  have hle := number_le he hn
  omega

/-- A log in which both forms of commit, with and without a message, and a merge are counted. -/
def mixed : EventLog where
  events := [.shorthand "init", .keyed (.commit { message := some "first" }), .shorthand " commit",
    .keyed (.merge { theirs := some "x" }), .shorthand "tag v1", .keyed (.commit {})]

/-- In `mixed` the last commit is the fourth, and a blank merge behind it is found at line 7. -/
theorem mixed_by_position :
    mixed.IsCompiled
      [.init "main", .commit ⟨"first", "user-test", "user-test@example.com"⟩,
        .commit ⟨"commit 2", "user-test", "user-test@example.com"⟩,
        .merge "x" ⟨"merge branch x", "user-test", "user-test@example.com"⟩, .tag "v1" none,
        .commit ⟨"commit 4", "user-test", "user-test@example.com"⟩] ∧
    EventLog.FirstFault ⟨mixed.events ++ [.shorthand "merge ", .shorthand "?"], none⟩
      ⟨7, "\"merge\": missing branch"⟩ := by
  refine ⟨(compile_by_position mixed).2.1 _ ?_, ((compile_by_position _).2.2.1 _).mp ?_⟩
  · rfl
  · rfl

end EventLog

end Chronicle
