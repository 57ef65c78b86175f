import Chronicle.Proofs.Document.Json
import Chronicle.Proofs.Document.JsonBuilt
import Chronicle.Proofs.Document.Toml
import Chronicle.Proofs.Document.Yaml
import Chronicle.Proofs.Request.RoundTrip
import Chronicle.Request.Read
import Mathlib.Data.List.Forall2

/-!
# The entries of a log that is read

A text may be read as a log in three formats. Each entry of the log becomes an event by itself
(`Event.Enters`), and **an entry that is no valid event is reported at its own line, whatever stands around
it** (`Request.entries_isolated`).

An entry with a key that is not a text has no plain form to be kept in. Only YAML has such keys
(`Format.Reads.worded`), and there the whole text is refused where such an entry is no keyed event
(`Request.not_all_entries_isolated`).
-/

namespace Chronicle

open Outcome

variable {format : Format} {text : String} {d : Document} {e : Event} {items : List Document}
  {events : List Event}

/-! ## Events from entries -/

namespace Event

/-- What an entry of a log becomes. -/
inductive Enters : Document → Event → Prop
  | line (s : String) : Enters (.text s) (.shorthand s)
  | keyed {d : Document} {e : KeyedEvent} (h : KeyedEvent.ofDocument d = .ok e) : Enters d (.keyed e)
  /-- What is neither is kept in its plain form. -/
  | other {d value : Document} (hline : ∀ s, d ≠ .text s) (hkeyed : ∀ e, KeyedEvent.ofDocument d ≠ .ok e)
      (hvalue : d.canonical? = some value) : Enters d (.unrecognized value)

theorem ofDocument?_eq_some_iff : ofDocument? d = some e ↔ Enters d e := by
  constructor
  · intro h
    unfold ofDocument? at h
    split at h
    · cases h
      exact .line _
    · rename_i hline
      split at h
      · rename_i k hk
        cases h
        exact .keyed hk
      · rename_i m hm
        obtain ⟨value, hvalue, rfl⟩ := Option.map_eq_some_iff.mp h
        exact .other hline (fun k hk => by rw [hk] at hm; cases hm) hvalue
  · intro h
    cases h with
    | line s => rfl
    | @keyed _ k hk =>
      -- a text is no map
      have hline : ∀ s, d ≠ .text s := by
        rintro s rfl
        cases hk
      exact (ofDocument?_eq_keyed_iff hline).mpr hk
    | @other _ value hline hkeyed hvalue =>
      unfold ofDocument?
      split
      · exact absurd rfl (hline _)
      · split
        · rename_i k hk
          exact absurd hk (hkeyed k)
        · rw [hvalue, Option.map_some]

/-- What an entry becomes is told by the entry alone. -/
theorem Enters.unique {e' : Event} (h : Enters d e) (h' : Enters d e') : e = e' := by
  rw [← Option.some.injEq, ← ofDocument?_eq_some_iff.mpr h, ofDocument?_eq_some_iff.mpr h']

/-- **Which entries become events**: those whose keys are texts, and keyed events. -/
theorem exists_enters_iff : (∃ e, Enters d e) ↔ d.Worded ∨ ∃ k, KeyedEvent.ofDocument d = .ok k := by
  constructor
  · rintro ⟨e, h⟩
    cases h with
    | line s => exact .inl (.text s)
    | keyed hk => exact .inr ⟨_, hk⟩
    | other _ _ hvalue => exact .inl (Document.exists_canonical_iff.mp ⟨_, hvalue⟩)
  · intro h
    by_cases hkeyed : ∃ k, KeyedEvent.ofDocument d = .ok k
    · obtain ⟨k, hk⟩ := hkeyed
      exact ⟨.keyed k, .keyed hk⟩
    · obtain ⟨value, hvalue⟩ := Document.exists_canonical_iff.mpr (h.resolve_right hkeyed)
      by_cases hline : ∃ s, d = .text s
      · obtain ⟨s, rfl⟩ := hline
        exact ⟨.shorthand s, .line s⟩
      · rw [not_exists] at hline hkeyed
        exact ⟨.unrecognized value, .other hline hkeyed hvalue⟩

/-- A keyed event has one key, which stands for its kind: it is the keyword, or a number. -/
theorem Enters.key {k : KeyedEvent} (h : Enters d (.keyed k)) : ∃ key body, d = .map [(key, body)] ∧
    (key = .text k.kind.keyword ∨
      ∃ number : Nat, key = .int number ∧ EventKind.keyedKinds[number]? = some k.kind) := by
  cases h with
  | keyed hk =>
    unfold KeyedEvent.ofDocument at hk
    split at hk
    case h_2 => cases hk
    case h_1 key body =>
      split at hk
      case h_2 => cases hk
      case h_1 kind hkind =>
        obtain ⟨slots, _, hk⟩ := bind_eq_ok.mp hk
        split at hk
        case h_2 => cases hk
        case h_1 event hevent =>
          cases hk
          obtain ⟨rfl, _⟩ := KeyedEvent.ofSlots?_eq_some hevent
          refine ⟨key, body, rfl, ?_⟩
          unfold EventKind.ofKey? at hkind
          split at hkind
          · exact .inl (by rw [(EventKind.ofKey?_text_eq_some_iff.mp hkind).2])
          · exact .inr ⟨_, rfl, hkind⟩
          · cases hkind

/-- Where keys are texts, the key of a keyed event is the keyword of its kind. -/
theorem Enters.keyword {k : KeyedEvent} (h : Enters d (.keyed k)) (hd : d.Worded) :
    ∃ body, d = .map [(.text k.kind.keyword, body)] := by
  obtain ⟨key, body, rfl, rfl | ⟨number, rfl, _⟩⟩ := h.key
  · exact ⟨body, rfl⟩
  · obtain ⟨word, hword⟩ := (Document.worded_map.mp hd).1 _ List.mem_cons_self
    cases hword

/-- What is unrecognized does not compile. -/
theorem exists_fault_unrecognized (value : Document) : ∃ m, (unrecognized value).fault? = some m := by
  cases h : (unrecognized value).fault? with
  | some m => exact ⟨m, rfl⟩
  | none =>
    have hcompiles : ∃ c, (unrecognized value).compile none 0 = .ok c := fault?_eq_none_iff.mp h
    obtain ⟨c, hc⟩ := hcompiles
    cases (compile_fulfils hc).1

end Event

/-! ## Logs from texts -/

/-- A text is a document in a format, and nothing comes after it. -/
def Format.Reads (format : Format) (text : String) (d : Document) : Prop :=
  match format with
  | .json => Json.readLeading text = .ok (d, none)
  | .yaml => Yaml.read text = some ⟨d, false⟩
  | .toml => Toml.read text = some d

/-- Only YAML has keys that are no texts. -/
theorem Format.Reads.worded (h : format.Reads text d) (hformat : format ≠ .yaml) : d.Worded := by
  cases format with
  | json => exact (Json.built_of_readLeading h).1
  | yaml => exact absurd rfl hformat
  | toml => exact (Toml.built_of_read h).1

/-- The document of a log without authorship. -/
def Document.log (items : List Document) : Document := .map [(.text "log", .list items)]

theorem mapM_eq_some_iff : items.mapM Event.ofDocument? = some events ↔ List.Forall₂ Event.Enters items events := by
  induction items generalizing events with
  | nil => cases events <;> simp
  | cons d rest ih =>
    rw [List.mapM_cons]
    constructor
    · intro h
      obtain ⟨e, he, h⟩ := Option.bind_eq_some_iff.mp h
      obtain ⟨more, hmore, h⟩ := Option.bind_eq_some_iff.mp h
      cases h
      exact .cons (Event.ofDocument?_eq_some_iff.mp he) (ih.mp hmore)
    · rintro (_ | ⟨he, hmore⟩)
      simp [Event.ofDocument?_eq_some_iff.mpr he, ih.mpr hmore]

/-- A document of a log is read as the events that its entries become, or not at all. -/
theorem Request.ofDocument?_log (items : List Document) : ofDocument? (.log items) =
    (items.mapM Event.ofDocument?).map fun events => .log ⟨events, none⟩ := by
  have hfields : recordFields [["log"], ["conf"]] (.log items) = some [some (.list items), none] := rfl
  have hcommits : commitsOfDocument? (.log items) = none := rfl
  cases hevents : items.mapM Event.ofDocument? with
  | none => simp [ofDocument?, EventLog.ofDocument?, hfields, fieldAt, hevents, hcommits]
  | some events => simp [ofDocument?, EventLog.ofDocument?, hfields, fieldAt, hevents]

theorem Format.Reads.read (h : format.Reads text (.log items)) : Request.read format text =
    match items.mapM Event.ofDocument? with
    | some events => .ok (.log ⟨events, none⟩)
    | none => .error (.noRequest format) := by
  have hdocument := Request.ofDocument?_log items
  cases hevents : items.mapM Event.ofDocument? with
  | _ =>
    rw [hevents] at hdocument
    cases format with
    | json =>
      have hread : Json.readLeading text = .ok (.log items, none) := h
      simp [Request.read, Request.readJson, hread, hdocument]
    | yaml =>
      have hread : Yaml.read text = some ⟨.log items, false⟩ := h
      simp [Request.read, Request.readYaml, hread, hdocument]
    | toml =>
      have hread : Toml.read text = some (.log items) := h
      simp [Request.read, Request.readToml, hread, hdocument]

theorem exists_events_iff : (∃ events, List.Forall₂ Event.Enters items events) ↔
    ∀ d ∈ items, ∃ e, Event.Enters d e := by
  induction items with
  | nil => simp
  | cons d rest ih =>
    rw [List.forall_mem_cons, ← ih]
    constructor
    · rintro ⟨_, _ | ⟨he, hmore⟩⟩
      exact ⟨⟨_, he⟩, _, hmore⟩
    · rintro ⟨⟨e, he⟩, more, hmore⟩
      exact ⟨e :: more, .cons he hmore⟩

/-! ## Each entry by itself -/

namespace EventLog

/-- Every entry of a log is an event by itself, and reported by itself. -/
structure Isolates (log : EventLog) (items : List Document) : Prop where
  /-- There is one event for each entry, in order, and it is what the entry becomes. -/
  entries : List.Forall₂ Event.Enters items log.events
  /-- No other entry has a part in what an entry becomes. -/
  alone : ∀ d ∈ items, ∀ e e', Event.Enters d e → Event.Enters d e' → e = e'
  /-- A keyed event has one key, which is the keyword of its kind or a number that stands for it. -/
  key : ∀ d ∈ items, ∀ k, Event.Enters d (.keyed k) → ∃ key body, d = .map [(key, body)] ∧
    (key = .text k.kind.keyword ∨ ∃ number : Nat, key = .int number ∧ EventKind.keyedKinds[number]? = some k.kind)
  /-- What is neither a text nor a keyed event is no valid event. -/
  unrecognized : ∀ value, .unrecognized value ∈ log.events → ∃ m, (Event.unrecognized value).fault? = some m
  /-- The first entry that is no valid event is reported, with its line; lines count from 1. -/
  reported : ∀ (i : Nat) e m, log.events[i]? = some e → e.fault? = some m →
    (∀ (j : Nat) b, j < i → log.events[j]? = some b → b.fault? = none) →
    log.compile = .error ⟨i + 1, m⟩

theorem compile_at {log : EventLog} {i : Nat} {m : String} (he : log.events[i]? = some e)
    (hm : e.fault? = some m) (hbefore : ∀ (j : Nat) b, j < i → log.events[j]? = some b → b.fault? = none) :
    log.compile = .error ⟨i + 1, m⟩ := by
  obtain ⟨hi, rfl⟩ := List.getElem?_eq_some_iff.mp he
  have hlength : (log.events.take i).length = i := List.length_take_of_le (Nat.le_of_lt hi)
  refine compile_fault ⟨log.events.take i, log.events[i], log.events.drop (i + 1), ?_, ?_, hm, by rw [hlength]⟩
  · rw [← List.drop_eq_getElem_cons hi, List.take_append_drop]
  · intro b hb
    obtain ⟨j, hj, rfl⟩ := List.mem_take_iff_getElem.mp hb
    exact hbefore j _ (by omega) (List.getElem?_eq_getElem (by omega))

theorem Isolates.of_entries {log : EventLog} (h : List.Forall₂ Event.Enters items log.events) :
    log.Isolates items where
  entries := h
  alone _ _ _ _ he he' := he.unique he'
  key _ _ _ hk := hk.key
  unrecognized value _ := Event.exists_fault_unrecognized value
  reported _ _ _ he hm hbefore := compile_at he hm hbefore

end EventLog

namespace Request

/-- Where every entry becomes an event, the text is a request for a log of these events. -/
theorem read_of_entries (h : format.Reads text (.log items)) (hall : ∀ d ∈ items, ∃ e, Event.Enters d e) :
    ∃ events, read format text = .ok (.log ⟨events, none⟩) ∧ EventLog.Isolates ⟨events, none⟩ items := by
  obtain ⟨events, hevents⟩ := exists_events_iff.mpr hall
  refine ⟨events, ?_, .of_entries hevents⟩
  rw [h.read, mapM_eq_some_iff.mpr hevents]

/-- **Entries are read and reported each by itself.** A text in JSON or TOML whose document is a log is read as
a log of what its entries become, and the keys of keyed events are keywords. In YAML it is so read if in each
entry all keys are texts or the entry is a keyed event, whose key may then be a number; otherwise the whole
text is no request. -/
theorem entries_isolated (h : format.Reads text (.log items)) :
    (format ≠ .yaml → ∃ events, read format text = .ok (.log ⟨events, none⟩) ∧
      EventLog.Isolates ⟨events, none⟩ items ∧ ∀ d ∈ items, ∀ k, Event.Enters d (.keyed k) →
        k.kind.keyed = true ∧ ∃ body, d = .map [(.text k.kind.keyword, body)]) ∧
    ((∀ d ∈ items, d.Worded ∨ ∃ k, KeyedEvent.ofDocument d = .ok k) →
      ∃ events, read format text = .ok (.log ⟨events, none⟩) ∧ EventLog.Isolates ⟨events, none⟩ items) ∧
    ((∃ d ∈ items, ¬ d.Worded ∧ ∀ k, KeyedEvent.ofDocument d ≠ .ok k) →
      read format text = .error (.noRequest format)) := by
  refine ⟨fun hformat => ?_, fun hall => ?_, fun ⟨d, hd, hkeys, hkeyed⟩ => ?_⟩
  · have hworded : ∀ d ∈ items, d.Worded := by
      obtain ⟨_, hvalues⟩ := Document.worded_map.mp (h.worded hformat)
      exact Document.worded_list.mp (hvalues _ List.mem_cons_self)
    obtain ⟨events, hread, hisolates⟩ :=
      read_of_entries h fun d hd => Event.exists_enters_iff.mpr (.inl (hworded d hd))
    exact ⟨events, hread, hisolates, fun d hd k hk => ⟨k.keyed_kind, hk.keyword (hworded d hd)⟩⟩
  · exact read_of_entries h fun d hd => Event.exists_enters_iff.mpr (hall d hd)
  · -- there is no event for this entry
    have hnone : items.mapM Event.ofDocument? = none := by
      apply Option.eq_none_iff_forall_ne_some.mpr
      intro events hevents
      have he := exists_events_iff.mp ⟨events, mapM_eq_some_iff.mp hevents⟩ d hd
      obtain hworded | ⟨k, hk⟩ := Event.exists_enters_iff.mp he
      · exact hkeys hworded
      · exact hkeyed k hk
    rw [h.read, hnone]

/-- A text as it stands in YAML. -/
def unquoted (s : String) : Yaml.Scalar := ⟨s.toList, true, none⟩

/-- Entries with a number for a key, and with a list. -/
def numberKeyed : List Document := [.text "init", .map [(.int 1, .map [])], .list [.int 2]]

/-- Entries with a truth value for a key. -/
def truthKeyed : List Document := [.text "init", .map [(.bool true, .int 2)]]

theorem reads_numberKeyed : Format.yaml.Reads "log: [init, {1: {}}, [2]]" (.log numberKeyed) := by
  have hpage : Yaml.Page.ofTokens (Yaml.Lexer.run "log: [init, {1: {}}, [2]]".toList) =
      .whole [.mapping none none, .scalar (unquoted "log") none, .sequence none none,
        .scalar (unquoted "init") none, .mapping none none, .scalar (unquoted "1") none, .mapping none none,
        .close, .close, .sequence none none, .scalar (unquoted "2") none, .close, .close, .close] true := by
    decide +kernel
  exact Yaml.read_of_spell hpage rfl <| .map rfl rfl <| .cons (by simp) (.scalar rfl rfl)
    (.list rfl rfl <| .cons (by simp) (.scalar rfl rfl) <| .cons (by simp)
        (.map rfl rfl <| .cons (by simp) (.scalar rfl rfl) (.map rfl rfl <| .nil rfl) <| .nil rfl) <|
      .cons (by simp) (.list rfl rfl <| .cons (by simp) (.scalar rfl rfl) <| .nil rfl) <| .nil rfl) <|
    .nil rfl

theorem reads_truthKeyed : Format.yaml.Reads "log: [init, {true: 2}]" (.log truthKeyed) := by
  have hpage : Yaml.Page.ofTokens (Yaml.Lexer.run "log: [init, {true: 2}]".toList) =
      .whole [.mapping none none, .scalar (unquoted "log") none, .sequence none none,
        .scalar (unquoted "init") none, .mapping none none, .scalar (unquoted "true") none,
        .scalar (unquoted "2") none, .close, .close, .close] true := by decide +kernel
  exact Yaml.read_of_spell hpage rfl <| .map rfl rfl <| .cons (by simp) (.scalar rfl rfl)
    (.list rfl rfl <| .cons (by simp) (.scalar rfl rfl) <| .cons (by simp)
        (.map rfl rfl <| .cons (by simp) (.scalar rfl rfl) (.scalar rfl rfl) <| .nil rfl) <| .nil rfl) <|
    .nil rfl

/-- The second entry is a commit; the third one is no event, and is reported at line 3. In JSON a list is
reported at its line as well, and an entry with a truth value for a key makes the text no request. -/
theorem entries_isolated_numberKeyed :
    (∃ events, read .yaml "log: [init, {1: {}}, [2]]" = .ok (.log ⟨events, none⟩) ∧
      events[1]? = some (.keyed (.commit {})) ∧
      EventLog.compile ⟨events, none⟩ = .error ⟨3, "unrecognized event [2]"⟩) ∧
    (∃ events, read .json (Document.log [.list []]).pretty = .ok (.log ⟨events, none⟩) ∧
      EventLog.compile ⟨events, none⟩ = .error ⟨1, "unrecognized event []"⟩) ∧
    read .yaml "log: [init, {true: 2}]" = .error (.noRequest .yaml) := by
  refine ⟨?_, ?_, ?_⟩
  · have hall : ∀ d ∈ numberKeyed, d.Worded ∨ ∃ k, KeyedEvent.ofDocument d = .ok k := by
      simp only [numberKeyed, List.forall_mem_cons]
      exact ⟨.inl (.text _), .inr ⟨.commit {}, rfl⟩, .inl (.list (by simpa using .int 2)), by simp⟩
    obtain ⟨events, hread, hisolates⟩ := (entries_isolated reads_numberKeyed).2.1 hall
    have hevents : numberKeyed.mapM Event.ofDocument? =
        some [.shorthand "init", .keyed (.commit {}), .unrecognized (.list [.int 2])] := rfl
    rw [mapM_eq_some_iff.mpr hisolates.entries, Option.some.injEq] at hevents
    subst hevents
    refine ⟨_, hread, rfl, hisolates.reported 2 _ _ rfl rfl fun j b hj hb => ?_⟩
    -- the two entries before it are valid events
    obtain rfl | rfl : j = 0 ∨ j = 1 := by omega
    · cases hb
      rfl
    · cases hb
      rfl
  · have hreads : Format.json.Reads (Document.log [.list []]).pretty (.log [.list []]) := by
      have htextual : (Document.log [.list []]).Textual Json.maxDepth :=
        .map (by simp) (by simpa using .list (by simpa using .list (by simp)))
      have hpretty := Json.readLeading_pretty htextual Json.Blank.nil
      rwa [String.ofList_nil, String.append_empty] at hpretty
    obtain ⟨events, hread, hisolates, _⟩ := (entries_isolated hreads).1 (by simp)
    have hevents : [Document.list []].mapM Event.ofDocument? = some [.unrecognized (.list [])] := rfl
    rw [mapM_eq_some_iff.mpr hisolates.entries, Option.some.injEq] at hevents
    subst hevents
    exact ⟨_, hread, hisolates.reported 0 _ _ rfl rfl (by simp)⟩
  · have hkeys : ¬ (Document.map [(.bool true, .int 2)]).Worded := by simp
    have hkeyed (k : KeyedEvent) : KeyedEvent.ofDocument (.map [(.bool true, .int 2)]) ≠ .ok k := by
      intro hk
      cases hk
    exact (entries_isolated reads_truthKeyed).2.2 ⟨_, by simp [truthKeyed], hkeys, hkeyed⟩

/-- **Not every entry is isolated.** One whose key is a truth value makes the whole text no request, and a keyed
event may have a number for its key. -/
theorem not_all_entries_isolated :
    (¬ ∀ format text items, Format.Reads format text (.log items) →
      ∃ events, read format text = .ok (.log ⟨events, none⟩)) ∧
    ¬ ∀ format text items, Format.Reads format text (.log items) → ∀ d ∈ items, ∀ k,
      Event.Enters d (.keyed k) → ∃ body, d = .map [(.text k.kind.keyword, body)] := by
  constructor
  · intro hall
    obtain ⟨events, hread⟩ := hall .yaml _ truthKeyed reads_truthKeyed
    have hrefused := reads_truthKeyed.read
    rw [hread] at hrefused
    cases hrefused
  · intro hall
    have hcommit : Event.Enters (.map [(.int 1, .map [])]) (.keyed (.commit {})) := .keyed rfl
    obtain ⟨body, hbody⟩ := hall .yaml _ numberKeyed reads_numberKeyed _ (by simp [numberKeyed]) _ hcommit
    cases hbody

end Request

end Chronicle
