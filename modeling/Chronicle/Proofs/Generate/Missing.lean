import Chronicle.Proofs.Generate.Phases
import Chronicle.Proofs.Generate.Report
import Chronicle.Proofs.Workspace.Missing

/-!
# What a run does not find

A run misses the file that it was to read, or what the commands in it need (`Options.Misses`), and these miss
something if their last call does (`Site.CommandsMiss`). **A run fails with the code `not_found` if and only if it
misses something, and names it; the advice to make a branch comes with every reference**, and with a file or a
repository exactly where its name has the words of the advice in it (`Missing.told_everywhere`).
-/

namespace Chronicle

open Steps

/-! ## Directories -/

namespace Site

variable {place : Target} {request : Request} {cs : List Command} {s : Site} {what : String}

/-- What commands do not find in a directory that holds no repository and can be made. -/
def CommandsMiss (place : Target) (cs : List Command) (s : Site) (m : Missing) : Prop :=
  s.holdsRepository place = false ∧ ∃ tree, s.tree.makeDirs place.way = (.ok (), tree) ∧
    Workspace.ReplayMisses place.name ⟨tree.inside place.dir, none⟩ cs m

/-- What the commands that a request compiles to do not find. -/
def Misses (place : Target) (request : Request) (s : Site) (m : Missing) : Prop :=
  ∃ commands, request.toLog.compile = .ok commands ∧ CommandsMiss place commands s m

theorem generateFrom_eq_notFound (place : Target) (cs : List Command) (s : Site) :
    (s.generateFrom place cs).1 = .error (.notFound what) ↔ ∃ m, CommandsMiss place cs s m ∧ m.message = what := by
  unfold CommandsMiss
  cases hheld : s.holdsRepository place with
  | true =>
    rw [generateFrom, requireNone_eq_error hheld]
    exact iff_of_false (by simp) (by simp)
  | false =>
    rcases hdirs : s.tree.makeDirs place.way with ⟨e | ⟨⟩, tree⟩
    · rw [generateFrom, requireNone_eq_ok hheld]
      simp only [hdirs]
      exact iff_of_false (by simp) (by simp)
    · rcases hrun : (replay (Workspace.backend place.name) cs).runOn ⟨tree.inside place.dir, none⟩ with ⟨played, w⟩
      have hplayed : played = .error (.notFound what) ↔
          ∃ m, Workspace.ReplayMisses place.name ⟨tree.inside place.dir, none⟩ cs m ∧ m.message = what := by
        rw [← Workspace.replay_eq_notFound, hrun]
      rw [generateFrom_eq (requireNone_eq_ok hheld) hdirs hrun]
      simp only [true_and, Prod.mk.injEq, exists_eq_left', ← hplayed]
      cases played with
      | error e => simp
      | ok _ =>
        -- what cannot be told of a head is not missing
        refine iff_of_false (fun h => ?_) (by simp)
        dsimp only at h
        cases hreport : report place.name cs w <;> rw [hreport] at h <;> cases h

theorem generate_eq_notFound (place : Target) (request : Request) (s : Site) :
    (s.generate place request).1 = .error (.notFound what) ↔ ∃ m, Misses place request s m ∧ m.message = what := by
  unfold Misses
  cases hheld : s.holdsRepository place with
  | true =>
    rw [generate_occupied hheld]
    exact iff_of_false (by simp) (by simp [CommandsMiss, hheld])
  | false =>
    cases hlog : request.toLog.compile with
    | error fault =>
      rw [generate_invalid hheld hlog]
      exact iff_of_false (by simp) (by simp)
    | ok commands =>
      rw [generate_compiled hheld hlog, generateFrom_eq_notFound]
      simp

end Site

/-! ## Requests and whole runs -/

/-- The file of a request is missing where nothing is found on the way that its path goes. -/
def Request.Misses (t : FileTree) (here : Path) (shown path : String) (m : Missing) : Prop :=
  m = .file shown ∧
    (t.look (if Path.isAbsolute path then [] else here) (segments path) = .missing ∨
      t.look (if Path.isAbsolute path then [] else here) (segments path) = .blocked)

theorem Request.load_eq_notFound (t : FileTree) (here : Path) (shown path what : String) :
    Request.load t here shown path = .error (.notFound what) ↔
      ∃ m, Request.Misses t here shown path m ∧ m.message = what := by
  unfold load Request.Misses
  cases t.look (if Path.isAbsolute path then [] else here) (segments path) with
  | file text => cases hread : Request.read (Format.ofPath path) text <;> simp [hread, Except.mapError]
  | directory => simp
  | missing | blocked =>
    constructor
    · intro h
      cases h
      exact ⟨_, ⟨rfl, by simp⟩, rfl⟩
    · rintro ⟨_, ⟨rfl, -⟩, rfl⟩
      rfl

/-- What a run with some options does not find: the file that was given, or what the commands in it need. -/
inductive Options.Misses (o : Options) (here : Site.Target) (s : Site) : Missing → Prop
  | file {name : String} {m : Missing} (hfile : o.file = some name)
      (hmiss : Request.Misses s.tree here.dir name name m) : o.Misses here s m
  /-- A dry run needs nothing but its file. -/
  | site {request : Request} {m : Missing} (hreal : o.dryRun = false)
      (hrequest : o.request here.dir s.tree = .ok request)
      (hmiss : Site.Misses (o.target here) request s m) : o.Misses here s m

theorem RepositoryError.mapError_eq_notFound {α : Type} {x : Except RepositoryError α} {what : String} :
    x.mapError toFailure = .error (.notFound what) ↔ x = .error (.notFound what) := by
  cases x with
  | ok a => simp [Except.mapError]
  | error e => cases e <;> simp [Except.mapError, toFailure]

theorem Options.request_eq_notFound (o : Options) (here : Path) (t : FileTree) (what : String) :
    o.request here t = .error (.notFound what) ↔
      ∃ name m, o.file = some name ∧ Request.Misses t here name name m ∧ m.message = what := by
  unfold request
  cases o.file with
  | none => simp
  | some file => simp [Request.load_eq_notFound]

theorem Options.answer_eq_notFound (o : Options) (here : Site.Target) (s : Site) (what : String) :
    (o.answer here s).1 = .error (.notFound what) ↔ ∃ m, o.Misses here s m ∧ m.message = what := by
  have hreport (x : Except RepositoryError Report) :
      (x.mapError RepositoryError.toFailure).map Answer.report = .error (.notFound what) ↔
        x = .error (.notFound what) := by
    rw [← RepositoryError.mapError_eq_notFound]
    cases x.mapError RepositoryError.toFailure <;> simp [Except.map]
  constructor
  · intro h
    cases hrequest : o.request here.dir s.tree with
    | error f =>
      rw [answer_unreadable hrequest] at h
      cases h
      obtain ⟨name, m, hfile, hmiss, hwhat⟩ := (request_eq_notFound o _ _ what).mp hrequest
      exact ⟨m, .file hfile hmiss, hwhat⟩
    | ok request =>
      cases hdry : o.dryRun with
      | true =>
        rw [answer_dry hdry hrequest] at h
        cases hlog : request.toLog.compile <;> rw [hlog] at h <;> cases h
      | false =>
        rw [answer_real hdry hrequest, hreport, Site.generate_eq_notFound] at h
        obtain ⟨m, hmiss, hwhat⟩ := h
        exact ⟨m, .site hdry hrequest hmiss, hwhat⟩
  · rintro ⟨m, hmiss, hwhat⟩
    cases hmiss with
    | file hfile hmiss =>
      rw [answer_unreadable ((request_eq_notFound o _ _ what).mpr ⟨_, m, hfile, hmiss, hwhat⟩)]
    | site hreal hrequest hmiss =>
      rw [answer_real hreal hrequest, hreport, Site.generate_eq_notFound]
      exact ⟨m, hmiss, hwhat⟩

theorem Failure.exitCode_eq_three {f : Failure} : f.exitCode = 3 ↔ ∃ what, f = .notFound what := by
  cases f <;> simp [exitCode]

/-- What is written about a failure speaks of no commit. -/
theorem Options.output_error (o : Options) (naming naming' : Naming) (f : Failure) :
    o.output naming (.error f) = o.output naming' (.error f) := rfl

/-- A run of the command line ends with status 3 for want of something, and with no other failure. -/
theorem CommandLine.exit_eq_three (naming : Repository → Naming) (here : Site.Target) (words : List String)
    (s : Site) : (run naming here words s).1.exit = 3 ↔
      ∃ o m, Options.read words = .ok (.generate o) ∧ o.Misses here s m := by
  cases hread : Options.read words with
  | error e =>
    rw [run, hread]
    exact iff_of_false (by simp [refusal, usageStatus]) (by simp)
  | ok invocation =>
    cases invocation with
    | help | version =>
      rw [run, hread]
      exact iff_of_false (by simp) (by simp)
    | generate o =>
      have hmisses : (∃ m, o.Misses here s m) ↔ ∃ what, (o.answer here s).1 = .error (.notFound what) := by
        simp [Options.answer_eq_notFound]
      rw [run_generate hread]
      simp only [Except.ok.injEq, Invocation.generate.injEq, exists_and_left, exists_eq_left', hmisses]
      cases (o.answer here s).1 with
      | error f => simp [Options.output, Failure.exitCode_eq_three]
      | ok a =>
        refine iff_of_false (fun h => ?_) (by simp)
        unfold Options.output at h
        dsimp only at h
        split at h
        · cases h
        · split at h <;> cases h

/-! ## What is told -/

namespace Missing

/-- What is missing ends a computation and is named, and nothing else is told by that code. The advice to make a
branch comes with what is missing as `Advised` says, and with no other failure. -/
structure Told {α : Type} (misses : Missing → Prop) (result : Except Failure α) : Prop where
  named : ∀ m, misses m → result = .error m.failure
  only : ∀ f, result = .error f → f.code = "not_found" → ∃ m, misses m ∧ f = m.failure
  advised : ∀ f, result = .error f → (f.AdvisesBranch ↔ ∃ m, misses m ∧ m.Advised)

variable {α : Type} {misses : Missing → Prop}

theorem Told.of_iff {result : Except Failure α}
    (h : ∀ what, result = .error (.notFound what) ↔ ∃ m, misses m ∧ m.message = what) : Told misses result where
  named m hmiss := (h m.message).mpr ⟨m, hmiss, rfl⟩
  only f hf hcode := by
    obtain ⟨what, rfl⟩ := Failure.code_eq_notFound.mp hcode
    obtain ⟨m, hmiss, rfl⟩ := (h what).mp hf
    exact ⟨m, hmiss, rfl⟩
  advised f hf := by
    constructor
    · intro hadvises
      obtain ⟨what, rfl, -⟩ := Failure.advisesBranch_iff.mp hadvises
      obtain ⟨m, hmiss, rfl⟩ := (h what).mp hf
      exact ⟨m, hmiss, m.advisesBranch_iff.mp hadvises⟩
    · rintro ⟨m, hmiss, hadvised⟩
      cases hf.symm.trans ((h m.message).mpr ⟨m, hmiss, rfl⟩)
      exact m.advisesBranch_iff.mpr hadvised

theorem Told.of_mapError {result : Except RepositoryError α}
    (h : ∀ what, result = .error (.notFound what) ↔ ∃ m, misses m ∧ m.message = what) :
    Told misses (result.mapError RepositoryError.toFailure) :=
  .of_iff fun what => RepositoryError.mapError_eq_notFound.trans (h what)

/-- **What is not found is told, and a branch is advised for every reference.** Loading a request, a call on a
workspace, commands that are replayed or carried out in a directory, a request that is, and a run with some options
all fail with the code `not_found` exactly where they miss a file, a repository or a reference, and name it. They
advise to make a branch where it is a reference, and where it is a file or a repository if and only if the words
`branch` or `ref` stand in the name of the file or the directory. A run of the command line that fails so writes that
failure and ends with status 3, and no other does. -/
theorem told_everywhere (naming : Repository → Naming) (here : Site.Target) (s : Site) :
    (∀ (dir : Path) (shown path : String),
      Told (Request.Misses s.tree dir shown path) (Request.load s.tree dir shown path)) ∧
    (∀ (dir : String) (c : Call) (w : Workspace),
      Told (Workspace.Misses dir w c) ((Workspace.answer dir c w).1.mapError RepositoryError.toFailure)) ∧
    (∀ (dir : String) (cs : List Command) (w : Workspace), Told (Workspace.ReplayMisses dir w cs)
      (((replay (Workspace.backend dir) cs).runOn w).1.mapError RepositoryError.toFailure)) ∧
    (∀ (place : Site.Target) (cs : List Command), Told (Site.CommandsMiss place cs s)
      ((s.generateFrom place cs).1.mapError RepositoryError.toFailure)) ∧
    (∀ (place : Site.Target) (request : Request), Told (Site.Misses place request s)
      ((s.generate place request).1.mapError RepositoryError.toFailure)) ∧
    (∀ o : Options, Told (o.Misses here s) (o.answer here s).1) ∧
    ∀ words : List String,
      ((CommandLine.run naming here words s).1.exit = 3 ↔
        ∃ o m, Options.read words = .ok (.generate o) ∧ o.Misses here s m) ∧
      ∀ o m, Options.read words = .ok (.generate o) → o.Misses here s m →
        (CommandLine.run naming here words s).1 = o.output CommitId.digits (.error m.failure) := by
  refine ⟨fun dir shown path => .of_iff (Request.load_eq_notFound s.tree dir shown path),
    fun dir c w => .of_mapError fun _ => Workspace.answer_eq_notFound dir c w,
    fun dir cs w => .of_mapError fun _ => Workspace.replay_eq_notFound dir cs w,
    fun place cs => .of_mapError fun _ => Site.generateFrom_eq_notFound place cs s,
    fun place request => .of_mapError fun _ => Site.generate_eq_notFound place request s,
    fun o => .of_iff (Options.answer_eq_notFound o here s),
    fun words => ⟨CommandLine.exit_eq_three naming here words s, fun o m hread hmiss => ?_⟩⟩
  have hfails : (o.answer here s).1 = .error m.failure := (Options.answer_eq_notFound o here s _).mpr ⟨m, hmiss, rfl⟩
  rw [CommandLine.run_generate hread, hfails]
  exact Options.output_error o (CommandLine.namingIn naming (o.answer here s).2) CommitId.digits m.failure

/-- A commit without a repository to make it in. -/
def unopened : List Command := [.commit ⟨"one", "ann", "ann@mail"⟩]

/-- A branch is gone to that is not there. -/
def astray : List Command := [.init "main", .commit ⟨"one", "ann", "ann@mail"⟩, .checkout "side"]

/-- A file, a repository and a branch that are missing. -/
theorem told_everywhere_apart :
    Request.load {} [] "log.yaml" "log.yaml" = .error (file "log.yaml").failure ∧
    ¬ (file "log.yaml").failure.AdvisesBranch ∧
    (Site.generateFrom ⟨"out", ["out"]⟩ unopened {}).1.mapError RepositoryError.toFailure =
      .error (repository "out").failure ∧
    ¬ (repository "out").failure.AdvisesBranch ∧
    (Site.generateFrom ⟨"out", ["out"]⟩ astray {}).1.mapError RepositoryError.toFailure =
      .error (reference "side").failure ∧
    (reference "side").failure.AdvisesBranch ∧
    (CommandLine.run (fun _ => CommitId.digits) ⟨".", []⟩ ["--file", "branch.yaml"] {}).1.exit = 3 := by
  obtain ⟨hload, -, -, hcommands, -, -, hrun⟩ := told_everywhere (fun _ => CommitId.digits) ⟨".", []⟩ {}
  have hfree : ({} : Site).holdsRepository ⟨"out", ["out"]⟩ = false := by decide +kernel
  have hdirs : FileTree.makeDirs ["out"] {} = (.ok (), { dirs := [["out"]] }) := by decide +kernel
  have hfile : Request.Misses {} [] "log.yaml" "log.yaml" (file "log.yaml") := ⟨rfl, .inl (by decide +kernel)⟩
  have hrepository : Site.CommandsMiss ⟨"out", ["out"]⟩ unopened {} (repository "out") :=
    ⟨hfree, _, hdirs, [], .stage .all, rfl, .repository rfl rfl (by simp)⟩
  have hreference : Site.CommandsMiss ⟨"out", ["out"]⟩ astray {} (reference "side") := by
    refine ⟨hfree, _, hdirs, [.init "main", .stage .all, .commit ⟨"one", "ann", "ann@mail"⟩], .checkout "side", ?_, ?_⟩
    · decide +kernel
    · have hfails : (Workspace.answer "out" (.checkout "side") ((Workspace.backend "out").leave
          [.init "main", .stage .all, .commit ⟨"one", "ann", "ann@mail"⟩] {})).1 =
            .error (.notFound (reference "side").message) := by decide +kernel
      obtain ⟨m, hmiss, -⟩ := (Workspace.answer_eq_notFound "out" _ _).mp hfails
      cases hmiss with
      | repository hnone => exact absurd hnone (by decide +kernel)
      | checkout hr hmissing => exact .checkout hr hmissing
  have hoptions : Options.Misses { file := some "branch.yaml" } ⟨".", []⟩ {} (file "branch.yaml") :=
    .file rfl ⟨rfl, .inl (by decide +kernel)⟩
  have hstray := (hcommands _ _).named _ hreference
  have hadvised := ((hcommands _ _).advised _ hstray).mpr ⟨_, hreference, trivial⟩
  exact ⟨(hload _ _ _).named _ hfile, by decide +kernel, (hcommands _ _).named _ hrepository, by decide +kernel,
    hstray, hadvised, (hrun _).1.mpr ⟨_, _, by decide +kernel, hoptions⟩⟩

/-- It is not references alone that a branch is advised for: a file and a repository are missing whose names sound
like one. -/
theorem not_references_alone :
    (¬ ∀ (o : Options) (here : Site.Target) (s : Site) (f : Failure), (o.answer here s).1 = .error f →
      f.code = "not_found" → (f.AdvisesBranch ↔ ∃ text, o.Misses here s (reference text))) ∧
    ¬ ∀ (place : Site.Target) (cs : List Command) (s : Site) (f : Failure),
      (s.generateFrom place cs).1.mapError RepositoryError.toFailure = .error f → f.code = "not_found" →
        (f.AdvisesBranch ↔ ∃ text, Site.CommandsMiss place cs s (reference text)) := by
  constructor
  · intro h
    have hfile : Request.Misses {} [] "branch.yaml" "branch.yaml" (file "branch.yaml") :=
      ⟨rfl, .inl (by decide +kernel)⟩
    have hrequest : ({ file := some "branch.yaml" } : Options).request [] {} = .error (file "branch.yaml").failure :=
      (Options.request_eq_notFound _ _ _ _).mpr ⟨_, _, rfl, hfile, rfl⟩
    have hfails : (({ file := some "branch.yaml" } : Options).answer ⟨".", []⟩ {}).1 =
        .error (file "branch.yaml").failure := by decide +kernel
    obtain ⟨text, hmiss⟩ := (h _ _ _ _ hfails rfl).mp (by decide +kernel)
    cases hmiss with
    | file hfile hmiss => cases hmiss.1
    | site hreal hrequest' => cases hrequest.symm.trans hrequest'
  · intro h
    have hfails : (Site.generateFrom ⟨"refs", ["refs"]⟩ unopened {}).1.mapError RepositoryError.toFailure =
        .error (repository "refs").failure := by decide +kernel
    obtain ⟨text, -, tree, -, before, c, hmade, hmiss⟩ := (h _ _ _ _ hfails rfl).mp (by decide +kernel)
    -- the one call that is made stages everything
    have hmade : [Call.stage .all] = before ++ [c] := hmade
    cases before with
    | nil =>
      cases hmade
      cases hmiss
    | cons d before => simp at hmade

end Missing

end Chronicle
