import Chronicle.CommandLine.Output
import Chronicle.Proofs.CommandLine.Options
import Chronicle.Proofs.Document.Json
import Chronicle.Proofs.Generate.Inside

/-!
# The phases of a run

A run is turned away at a directory that holds a repository, then at a log that does not compile, and
only what is left is carried out. `Site.generate_occupied`, `Site.generate_invalid` and
`Site.generate_compiled` are these three phases; the first two leave everything as it was. A dry run
(`Options.answer_dry`) goes through the second phase alone.

**A run fails on a log exactly as its dry run does, and carries out what that lists**
(`CommandLine.phases`): there is nothing else through which a run comes to change a file.
-/

namespace Chronicle

open Outcome

/-! ## What stands in the way -/

namespace FileTree

variable {t : FileTree} {before names : Path} {last : String}

/-- Following names to one last name is to find a directory wherever they lead. By induction on the names
that are left. -/
theorem follow_concat (hnames : ∀ name ∈ names, name ≠ "" ∧ name ≠ ".")
    (hlast : last ≠ "" ∧ last ≠ "." ∧ last ≠ "..") (p : Path) :
    t.follow (Path.settled before) (names ++ [last]) = some p ↔
      (∀ n ≤ names.length, t.isDir (Path.settled (before ++ names.take n)) = true) ∧
        p = Path.settled (before ++ names) ++ [last] := by
  induction names generalizing before with
  | nil =>
    obtain ⟨hempty, hdot, hup⟩ := hlast
    have hstep : t.follow (Path.settled before) ([] ++ [last]) =
        if t.isDir (Path.settled before) then some (Path.settled before ++ [last]) else none := by
      cases hdir : t.isDir (Path.settled before) <;> simp [follow, hdir, hempty, hdot, hup]
    rw [hstep]
    cases hdir : t.isDir (Path.settled before) <;> simp [hdir, eq_comm]
  | cons s rest ih =>
    obtain ⟨⟨hempty, hdot⟩, hrest⟩ := List.forall_mem_cons.mp hnames
    have hstep : t.follow (Path.settled before) ((s :: rest) ++ [last]) =
        if t.isDir (Path.settled before) then t.follow (Path.settled (before ++ [s])) (rest ++ [last]) else none := by
      rw [settled_concat]
      cases hdir : t.isDir (Path.settled before) <;> by_cases hup : s = ".." <;>
        simp [follow, hdir, hempty, hdot, hup]
    have hsplit : (∀ n ≤ (s :: rest).length, t.isDir (Path.settled (before ++ (s :: rest).take n)) = true) ↔
        t.isDir (Path.settled before) = true ∧
          ∀ n ≤ rest.length, t.isDir (Path.settled (before ++ [s] ++ rest.take n)) = true := by
      constructor
      · intro h
        refine ⟨by simpa using h 0 (Nat.zero_le _), fun n hn => ?_⟩
        simpa using h (n + 1) (Nat.succ_le_succ hn)
      · rintro ⟨hzero, hsucc⟩ n hn
        cases n with
        | zero => simpa using hzero
        | succ n => simpa using hsucc n (Nat.le_of_succ_le_succ hn)
    rw [hstep, hsplit, and_assoc, List.append_cons before s rest, ← ih hrest]
    cases hdir : t.isDir (Path.settled before) <;> simp

end FileTree

namespace Site

/-- A repository is found in a directory when something is found under its name on the way there. -/
theorem holdsRepository_iff (s : Site) {place : Target} (hway : ∀ name ∈ place.way, name ≠ "" ∧ name ≠ ".") :
    s.holdsRepository place = true ↔
      (∃ content, s.tree.look [] (place.way ++ [".git"]) = .file content) ∨
        s.tree.look [] (place.way ++ [".git"]) = .directory := by
  have hfollow (p : Path) : s.tree.follow [] (place.way ++ [".git"]) = some p ↔
      s.tree.leadsOn place.way = true ∧ p = place.dir ++ [".git"] := by
    have hconcat : s.tree.follow (Path.settled []) (place.way ++ [".git"]) = some p ↔ _ :=
      FileTree.follow_concat hway (by decide) p
    rw [Path.settled, List.foldl_nil] at hconcat
    simpa [FileTree.leadsOn, Nat.lt_succ_iff, Target.dir] using hconcat
  unfold holdsRepository FileTree.look
  cases hleads : s.tree.leadsOn place.way with
  | false =>
    have hnone : s.tree.follow [] (place.way ++ [".git"]) = none := by
      apply Option.eq_none_iff_forall_ne_some.mpr
      intro p hp
      rw [hfollow, hleads] at hp
      exact absurd hp.1 Bool.false_ne_true
    simp [hnone]
  | true =>
    rw [(hfollow (place.dir ++ [".git"])).mpr ⟨hleads, rfl⟩]
    simp only [Bool.true_and, FileTree.hasRepository, FileTree.place, PathMap.has]
    cases s.tree.files.get? (place.dir ++ [".git"]) with
    | some content => simp
    | none =>
      cases s.tree.isDir (place.dir ++ [".git"]) with
      | true => simp
      | false => cases (place.dir ++ [".git"]).parents.any s.tree.files.has <;> simp

end Site

/-! ## Generating -/

namespace Site

variable {s : Site} {place : Target} {request : Request} {fault : LogError} {commands : List Command}

theorem requireNone_eq_ok (h : s.holdsRepository place = false) : s.requireNone place = .ok () := by
  rw [requireNone, h]
  rfl

theorem requireNone_eq_error (h : s.holdsRepository place = true) :
    s.requireNone place = .error (.repositoryExists place.name) := by
  rw [requireNone, h]
  rfl

/-- The directory is looked at before the log. -/
theorem generate_occupied (h : s.holdsRepository place = true) (request : Request) :
    s.generate place request = (.error (.repositoryExists place.name), s) := by
  rw [generate, requireNone_eq_error h]

/-- The log is compiled before anything is touched. -/
theorem generate_invalid (h : s.holdsRepository place = false) (hlog : request.toLog.compile = .error fault) :
    s.generate place request = (.error (.invalidLog fault), s) := by
  rw [generate, requireNone_eq_ok h, hlog]

theorem generate_compiled (h : s.holdsRepository place = false) (hlog : request.toLog.compile = .ok commands) :
    s.generate place request = s.generateFrom place commands := by
  rw [generate, requireNone_eq_ok h, hlog]

/-- Whatever changes something gets past the first two phases. -/
theorem compiled_of_generate_ne (h : (s.generate place request).2 ≠ s) :
    s.holdsRepository place = false ∧ ∃ commands, request.toLog.compile = .ok commands := by
  cases hheld : s.holdsRepository place with
  | true => exact absurd (congrArg Prod.snd (generate_occupied hheld request)) h
  | false =>
    refine ⟨rfl, ?_⟩
    cases hlog : request.toLog.compile with
    | error fault => exact absurd (congrArg Prod.snd (generate_invalid hheld hlog)) h
    | ok commands => exact ⟨commands, rfl⟩

end Site

/-! ## Runs and dry runs -/

namespace Options

variable {o : Options} {here : Site.Target} {s : Site} {request : Request}

/-- Reading a request says nothing of repositories. -/
theorem request_ne_repositoryExists (o : Options) (here : Path) (t : FileTree) (dir : String) :
    o.request here t ≠ .error (.repositoryExists dir) := by
  have hload (file : String) : Request.load t here file file ≠ .error (.repositoryExists dir) := by
    intro h
    unfold Request.load at h
    split at h
    · rename_i text _
      cases hread : Request.read (Format.ofPath file) text <;> rw [hread] at h <;> cases h
    · cases h
    · cases h
    · cases h
  cases hfile : o.file with
  | none => simp [request, hfile]
  | some file => simpa [request, hfile] using hload file

/-- What cannot be read ends any run. -/
theorem answer_unreadable {f : Failure} (h : o.request here.dir s.tree = .error f) :
    o.answer here s = (.error f, s) := by
  rw [answer, h]

/-- A dry run is told by the request alone, and leaves everything as it is. -/
theorem answer_dry (hdry : o.dryRun = true) (h : o.request here.dir s.tree = .ok request) : o.answer here s =
    ((request.toLog.compile.mapError Failure.invalidLog).map .commands, s) := by
  rw [answer, h]
  simp only [carryOut, hdry, if_true]

theorem answer_real (hreal : o.dryRun = false) (h : o.request here.dir s.tree = .ok request) :
    o.answer here s = (((s.generate (o.target here) request).1.mapError RepositoryError.toFailure).map .report,
      (s.generate (o.target here) request).2) := by
  rw [answer, h]
  simp only [carryOut, hreal, Bool.false_eq_true, if_false]

/-- A dry run changes nothing, and does not look at the directory. -/
theorem answer_dry_leaves (hdry : o.dryRun = true) (here : Site.Target) (s : Site) :
    (o.answer here s).2 = s ∧ ∀ dir, (o.answer here s).1 ≠ .error (.repositoryExists dir) := by
  cases hrequest : o.request here.dir s.tree with
  | error f =>
    rw [answer_unreadable hrequest]
    refine ⟨rfl, fun dir hf => request_ne_repositoryExists o here.dir s.tree dir ?_⟩
    rw [hrequest, Except.error.inj hf]
  | ok request =>
    rw [answer_dry hdry hrequest]
    refine ⟨rfl, fun dir hf => ?_⟩
    cases hlog : request.toLog.compile <;> rw [hlog] at hf <;> cases hf

theorem answer_dry_compiled (h : o.request here.dir s.tree = .ok request) {commands : List Command}
    (hlog : request.toLog.compile = .ok commands) : o.dry.answer here s = (.ok (.commands commands), s) := by
  have hdry : o.dry.dryRun = true := rfl
  rw [answer_dry hdry h, hlog]
  rfl

theorem answer_dry_invalid (h : o.request here.dir s.tree = .ok request) {fault : LogError}
    (hlog : request.toLog.compile = .error fault) :
    o.dry.answer here s = (.error (.invalidLog fault), s) := by
  have hdry : o.dry.dryRun = true := rfl
  rw [answer_dry hdry h, hlog]
  rfl

theorem answer_invalid (hreal : o.dryRun = false) (h : o.request here.dir s.tree = .ok request)
    (hfree : s.holdsRepository (o.target here) = false) {fault : LogError}
    (hlog : request.toLog.compile = .error fault) : o.answer here s = (.error (.invalidLog fault), s) := by
  rw [answer_real hreal h, Site.generate_invalid hfree hlog]
  rfl

/-- Whatever changes something carries out commands. -/
theorem compiled_of_answer_ne (h : (o.answer here s).2 ≠ s) : o.dryRun = false ∧
    ∃ request commands, o.request here.dir s.tree = .ok request ∧
      s.holdsRepository (o.target here) = false ∧ request.toLog.compile = .ok commands := by
  have hreal : o.dryRun = false := by
    apply Bool.eq_false_iff.mpr
    intro hdry
    exact h (answer_dry_leaves hdry here s).1
  cases hrequest : o.request here.dir s.tree with
  | error f => exact absurd (congrArg Prod.snd (answer_unreadable hrequest)) h
  | ok request =>
    rw [answer_real hreal hrequest] at h
    obtain ⟨hfree, commands, hlog⟩ := Site.compiled_of_generate_ne h
    exact ⟨hreal, request, commands, rfl, hfree, hlog⟩

end Options

/-! ## The command line -/

namespace CommandLine

variable {words : List String} {o : Options}

theorem run_generate (h : Options.read words = .ok (.generate o)) (naming : Repository → Naming)
    (here : Site.Target) (s : Site) : run naming here words s =
      (o.output (namingIn naming (o.answer here s).2) (o.answer here s).1, (o.answer here s).2) := by
  rw [run, h]

/-- **The phases of a run.** A directory that holds a repository is left alone, whatever is asked for;
otherwise a log that does not compile is reported and nothing touched; otherwise the commands that the
log compiles to are replayed. A dry run changes nothing and never finds a repository in its way. Put in
front of the words of a run, `--dry-run` makes it a dry run, which lists the commands that the run
replays, or fails on the log as the run does, with the same output and status. Any run that changes
something has got to replaying the commands that its dry run lists. -/
theorem phases (naming : Repository → Naming) (here : Site.Target) (s : Site) :
    (∀ (place : Site.Target) (request : Request),
      (s.holdsRepository place = true →
        s.generate place request = (.error (.repositoryExists place.name), s)) ∧
      (s.holdsRepository place = false → ∀ fault, request.toLog.compile = .error fault →
        s.generate place request = (.error (.invalidLog fault), s)) ∧
      (s.holdsRepository place = false → ∀ commands, request.toLog.compile = .ok commands →
        s.generate place request = s.generateFrom place commands)) ∧
    (∀ words o, Options.read words = .ok (.generate o) → o.dryRun = true →
      (run naming here words s).2 = s ∧ ∀ dir, (o.answer here s).1 ≠ .error (.repositoryExists dir)) ∧
    (∀ words o, Options.read words = .ok (.generate o) → o.dryRun = false →
      Options.read ("--dry-run" :: words) = .ok (.generate o.dry) ∧
      ∀ request, o.request here.dir s.tree = .ok request → s.holdsRepository (o.target here) = false →
        (∀ fault, request.toLog.compile = .error fault →
          o.answer here s = (.error (.invalidLog fault), s) ∧
          o.dry.answer here s = (.error (.invalidLog fault), s) ∧
          run naming here ("--dry-run" :: words) s = run naming here words s) ∧
        (∀ commands, request.toLog.compile = .ok commands →
          o.dry.answer here s = (.ok (.commands commands), s) ∧
          o.answer here s =
            (((s.generateFrom (o.target here) commands).1.mapError RepositoryError.toFailure).map .report,
              (s.generateFrom (o.target here) commands).2))) ∧
    (∀ words, (run naming here words s).2 ≠ s → ∃ o request commands,
      Options.read words = .ok (.generate o) ∧ o.dryRun = false ∧
      o.request here.dir s.tree = .ok request ∧ s.holdsRepository (o.target here) = false ∧
      request.toLog.compile = .ok commands ∧ o.dry.answer here s = (.ok (.commands commands), s) ∧
      (run naming here words s).2 = (s.generateFrom (o.target here) commands).2) := by
  refine ⟨fun place request => ⟨fun h => Site.generate_occupied h request,
    fun h _ hlog => Site.generate_invalid h hlog, fun h _ hlog => Site.generate_compiled h hlog⟩, ?_, ?_, ?_⟩
  · intro words o hwords hdry
    rw [run_generate hwords]
    exact Options.answer_dry_leaves hdry here s
  · intro words o hwords hreal
    have hdrywords := Options.read_dry hwords hreal
    refine ⟨hdrywords, fun request hrequest hfree => ⟨fun fault hlog => ?_, fun commands hlog => ?_⟩⟩
    · have hrun := Options.answer_invalid hreal hrequest hfree hlog
      have hdry := Options.answer_dry_invalid hrequest hlog
      refine ⟨hrun, hdry, ?_⟩
      rw [run_generate hdrywords, run_generate hwords, hdry, hrun]
      -- what is printed does not depend on the switch
      rfl
    · refine ⟨Options.answer_dry_compiled hrequest hlog, ?_⟩
      rw [Options.answer_real hreal hrequest, Site.generate_compiled hfree hlog]
  · intro words hchanged
    cases hread : Options.read words with
    | error e =>
      rw [run, hread] at hchanged
      exact absurd rfl hchanged
    | ok invocation =>
      cases invocation with
      | help | version =>
        rw [run, hread] at hchanged
        exact absurd rfl hchanged
      | generate o =>
        rw [run_generate hread] at hchanged ⊢
        obtain ⟨hreal, request, commands, hrequest, hfree, hlog⟩ := Options.compiled_of_answer_ne hchanged
        refine ⟨o, request, commands, rfl, hreal, hrequest, hfree, hlog,
          Options.answer_dry_compiled hrequest hlog, ?_⟩
        rw [Options.answer_real hreal hrequest, Site.generate_compiled hfree hlog]

/-- A log that does not compile, as a document. -/
def refusedLog : Document := .record [("log", .list [.text "init", .text "push"])]

/-- A directory with a log in it that does not compile, and one with a repository. -/
def refusing : Site where
  tree := { files := ⟨[(["log.json"], refusedLog.pretty ++ "\n")]⟩, dirs := [["old"], ["old", ".git"]] }

theorem load_refusing : Request.load refusing.tree [] "log.json" "log.json" =
    .ok (.log ⟨[.shorthand "init", .shorthand "push"], none⟩) := by
  have htextual : refusedLog.Textual Json.maxDepth := by
    refine .record (List.forall_mem_singleton.mpr (.list ?_))
    simp only [List.forall_mem_cons]
    exact ⟨.text _, .text _, by simp⟩
  have hlook : refusing.tree.look [] (segments "log.json") = .file (refusedLog.pretty ++ "\n") := rfl
  have hblank : Json.Blank ['\n'] := by simp [Json.Blank, Json.isSpace]
  have hread := Json.readLeading_pretty htextual hblank
  have hformat : Format.ofPath "log.json" = .json := rfl
  have hrequest : Request.readJson (refusedLog.pretty ++ "\n") =
      .ok (.log ⟨[.shorthand "init", .shorthand "push"], none⟩) := by
    unfold Request.readJson
    rw [hread]
    rfl
  unfold Request.load
  rw [ite_self, hlook, hformat]
  simp only [Request.read, hrequest]
  rfl

/-- The log is refused at its second line, in a run and in its dry run, and the directory with a
repository whatever is asked for. -/
theorem phases_refusing :
    run (fun _ => CommitId.digits) ⟨".", []⟩ ["--dry-run", "-f", "log.json"] refusing =
      run (fun _ => CommitId.digits) ⟨".", []⟩ ["-f", "log.json"] refusing ∧
    refusing.generate ⟨"old", ["old"]⟩ (.commits 3) = (.error (.repositoryExists "old"), refusing) := by
  have hphases := phases (fun _ => CommitId.digits) ⟨".", []⟩ refusing
  have hwords : Options.read ["-f", "log.json"] =
      .ok (.generate { file := some "log.json" }) :=
    Options.readFrom_eq_ok_iff.mpr (.settingApart rfl rfl rfl (.done rfl))
  have hlog : EventLog.compile ⟨[.shorthand "init", .shorthand "push"], none⟩ =
      .error ⟨2, "unrecognized event \"push\""⟩ := rfl
  refine ⟨?_, (hphases.1 ⟨"old", ["old"]⟩ (.commits 3)).1 rfl⟩
  exact (((hphases.2.2.1 _ _ hwords rfl).2 _ load_refusing rfl).1 _ hlog).2.2

end CommandLine

end Chronicle
