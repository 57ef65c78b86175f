import Chronicle.Generate
import Chronicle.Proofs.Repository.RefName
import Chronicle.Proofs.Workspace.Failed

/-!
# What is reported of a run

A report is made of the head that a run leaves, which can only be read if its text stands for the name of a
reference (`Head.Readable`). The first `init` of a run settles that: from it on the head is the first one or
one whose text is a name as it stands, and where the first one cannot be read no commit is ever made and it
stays (`Repository.Started`, which every call keeps: `Workspace.Answers.started`).

So **a run that succeeds is reported if and only if the first branch makes a head that can be read**, or there
is none, and the report says what became of the head (`Site.generateFrom_reports`).
-/

namespace Chronicle

open Outcome Steps

/-! ## Heads -/

/-- Whether the text of a head stands for the name of a reference. -/
def Head.Readable : Head → Prop
  | attached target => (RefName.normal? target).isSome = true
  | detached _ => True

/-- Whether the text of a head is the name of a reference as it stands. -/
def Head.Named : Head → Prop
  | attached target => RefName.normal? target = some target
  | detached _ => True

instance : DecidablePred Head.Readable
  | .attached target => inferInstanceAs (Decidable ((RefName.normal? target).isSome = true))
  | .detached _ => inferInstanceAs (Decidable True)

instance : DecidablePred Head.Named
  | .attached target => inferInstanceAs (Decidable (RefName.normal? target = some target))
  | .detached _ => inferInstanceAs (Decidable True)

theorem Head.Named.readable {head : Head} (h : head.Named) : head.Readable := by
  cases head with
  | attached target => exact Option.isSome_of_eq_some h
  | detached id => trivial

/-- What follows the name of a group is left of a name without the group, and nothing else is. -/
theorem RefName.without?_eq_some {group name short : String} :
    without? group name = some short ↔ name = group ++ short := by
  refine ⟨eq_append_of_without?, ?_⟩
  rintro rfl
  have hprefix : group.toList.isPrefixOf (group ++ short).toList = true := by
    rw [String.toList_append]
    exact List.isPrefixOf_iff_prefix.mpr (List.prefix_append _ _)
  rw [without?, if_pos hprefix, String.toList_append, ← String.length_toList, List.drop_left, String.ofList_toList]

namespace Repository

variable {r r' : Repository} {branch : String} {id : CommitId}

/-- Whether the head is on the branch `b`: a reference that is there goes by its name, and one that is not by
the text of the head. -/
def GoesBy (r : Repository) (b : String) : Prop :=
  ∃ target name, r.head = .attached target ∧ RefName.normal? target = some name ∧
    (if (r.ref? name).isSome then name else target) = RefName.branches ++ b

/-- Whether the head is at a commit, by itself or by the reference that it is attached to. -/
def StandsAt (r : Repository) (id : CommitId) : Prop :=
  r.head = .detached id ∨
    ∃ target name ref, r.head = .attached target ∧ RefName.normal? target = some name ∧
      r.ref? name = some ref ∧ ref.commit = id

/-- A head whose text is a name is on the branch that the text names. -/
theorem goesBy_of_named (h : r.head.Named) (b : String) :
    r.GoesBy b ↔ r.head = .attached (RefName.branches ++ b) := by
  constructor
  · rintro ⟨target, name, hhead, hname, htext⟩
    rw [hhead] at h
    rw [h] at hname
    cases hname
    rw [ite_self] at htext
    rw [hhead, htext]
  · intro hhead
    rw [hhead] at h
    exact ⟨_, _, hhead, h, ite_self _⟩

/-- The branch and the commit of a head can be told if and only if it can be read. -/
theorem told_of_readable (h : r.head.Readable) : ∃ branch head,
    r.currentBranch = .ok branch ∧ r.headCommit = .ok head ∧
      (∀ b, branch = some b ↔ r.GoesBy b) ∧ ∀ id, head = some id ↔ r.StandsAt id := by
  cases hhead : r.head with
  | detached id =>
    refine ⟨none, some id, ?_, headCommit_detached hhead, fun b => ?_, fun other => ?_⟩
    · rw [currentBranch, hhead]
    · simp [GoesBy, hhead]
    · simp [StandsAt, hhead]
  | attached target =>
    rw [hhead] at h
    obtain ⟨name, hname⟩ := Option.isSome_iff_exists.mp h
    have href : r.headRef? = some name := by simp [headRef?, hhead, hname]
    have hbranch : r.currentBranch =
        .ok (RefName.without? RefName.branches (if (r.ref? name).isSome then name else target)) := by
      rw [currentBranch, hhead]
      simp only [hname]
    refine ⟨_, _, hbranch, headCommit_attached href, fun b => ?_, fun id => ?_⟩
    · simp [GoesBy, hhead, hname, RefName.without?_eq_some]
    · simp [StandsAt, hhead, hname, Option.map_eq_some_iff]

theorem currentBranch_of_unreadable (h : ¬ r.head.Readable) : r.currentBranch = .error .invalidName := by
  cases hhead : r.head with
  | detached id =>
    rw [hhead] at h
    exact absurd trivial h
  | attached target =>
    rw [hhead] at h
    have hname : RefName.normal? target = none := by
      rw [← Option.not_isSome_iff_eq_none]
      exact h
    rw [currentBranch, hhead]
    simp only [hname]

theorem readable_of_headCommit {at? : Option CommitId} (h : r.headCommit = .ok at?) : r.head.Readable := by
  unfold headCommit at h
  split at h
  · rename_i hhead
    rw [hhead]
    trivial
  · rename_i target hhead
    rw [hhead]
    split at h
    · cases h
    · rename_i name hname
      exact Option.isSome_of_eq_some hname

/-! ## From the first `init` on -/

/-- What is so of a repository whose first branch was `branch`, whatever was done to it since. -/
structure Started (branch : String) (r : Repository) : Prop where
  sound : r.Sound
  head : r.head = firstHead branch ∨ r.head.Named
  /-- Where the first head cannot be read nothing is ever committed. -/
  stuck : (firstHead branch).Readable ∨ r.history = [] ∧ r.head = firstHead branch

theorem Started.empty (branch : String) : Started branch (.empty branch) :=
  ⟨.empty branch, .inl rfl, .inr ⟨rfl, rfl⟩⟩

theorem Started.readable_iff (h : Started branch r) : r.head.Readable ↔ (firstHead branch).Readable := by
  rcases h.stuck with hreadable | ⟨_, hsame⟩
  · refine ⟨fun _ => hreadable, fun _ => ?_⟩
    rcases h.head with hsame | hnamed
    · rw [hsame]
      exact hreadable
    · exact hnamed.readable
  · rw [hsame]

theorem Started.named (h : Started branch r) (hfirst : (firstHead branch).Named) : r.head.Named := by
  rcases h.head with hsame | hnamed
  · rw [hsame]
    exact hfirst
  · exact hnamed

/-- How one step may change the head: it stays, and then there is no new commit unless it could be read, or it
is one whose text is a name, and then there are commits. -/
def HeadStep (r r' : Repository) : Prop :=
  r'.head = r.head ∧ (r'.history = r.history ∨ r.head.Readable) ∨ r'.head.Named ∧ r.history ≠ []

theorem Started.step (h : Started branch r) (hsound : r'.Sound) (hstep : HeadStep r r') : Started branch r' := by
  rcases hstep with ⟨hhead, hhistory⟩ | ⟨hnamed, hcommits⟩
  · refine ⟨hsound, by rw [hhead]; exact h.head, ?_⟩
    rcases h.stuck with hreadable | ⟨hnone, hfirst⟩
    · exact .inl hreadable
    · rcases hhistory with hsame | hreadable
      · exact .inr ⟨hsame.trans hnone, hhead.trans hfirst⟩
      · exact .inl (hfirst ▸ hreadable)
  · exact ⟨hsound, .inr hnamed, .inl (h.stuck.resolve_right fun hstuck => hcommits hstuck.1)⟩

/-- A head that is moved is attached as before, or detached at a commit before and after. -/
theorem Moved.headStep (hm : r.Moved id r') (hr : r.Sound)
    (hhistory : r'.history = r.history ∨ r.head.Readable) : HeadStep r r' := by
  have hmoved := hm.head
  cases hhead : r.head with
  | attached target =>
    left
    rw [hmoved, hhead]
    exact ⟨rfl, hhead ▸ hhistory⟩
  | detached old =>
    right
    rw [hmoved, hhead]
    exact ⟨trivial, List.ne_nil_of_length_pos (Nat.zero_lt_of_lt (hr.head old hhead))⟩

end Repository

namespace Workspace

open Repository

variable {dir branch : String} {w w' : Workspace} {r : Repository} {c : Command} {cs : List Command}

theorem nextHead_named (r : Repository) (reference : String) (id : CommitId) : (nextHead r reference id).Named := by
  unfold nextHead
  split
  · rename_i name ref hbranch
    -- the branch was found by a name that a text stands for
    exact RefName.normal?_normal? (ref?_of_branch? hbranch).1
  · trivial

/-- The head through one call, case by case. -/
theorem Answers.headStep {call : Call} {o : Outcome} (h : w.repository = some r) (hr : r.Sound)
    (ha : Answers w r call o) : ∃ r', o.2.repository = some r' ∧ HeadStep r r' := by
  have hsame (r' : Repository) (hhead : r'.head = r.head) (hhistory : r'.history = r.history) : HeadStep r r' :=
    .inl ⟨hhead, .inl hhistory⟩
  cases ha with
  | refused | told | contained | wrote | wroteNothing => exact ⟨r, h, hsame r rfl rfl⟩
  | reopened | stagedAll | stagedSome | stagedFile | turnedPartly => exact ⟨_, rfl, hsame _ rfl rfl⟩
  | @committed info parent c r' hparent hparents htree hbears hrec =>
    exact ⟨r', rfl, hrec.toMoved.headStep hr (.inr (readable_of_headCommit hparent))⟩
  | @branched name full id r' hid hfull ha => exact ⟨r', rfl, hsame r' ha.head ha.history⟩
  | @tagged name full id r' hid hfull ha => exact ⟨r', rfl, hsame r' ha.head ha.history⟩
  | @annotated name full info id note r' hid hfull hname hmessage htagger ha =>
    exact ⟨r', rfl, hsame r' ha.head ha.history⟩
  | @turned reference id c hid hc =>
    have hlt : id < r.history.length := resolve_lt hr reference id hid
    exact ⟨_, rfl, .inr ⟨nextHead_named r reference id, List.ne_nil_of_length_pos (Nat.zero_lt_of_lt hlt)⟩⟩
  | @forwarded reference info policy ours theirs r' c hours htheirs hin hhist hm hc =>
    exact ⟨_, rfl, hm.headStep hr (.inl hhist)⟩
  | @forwardedPartly reference info policy ours theirs r' c e hours htheirs hin hhist hm hc =>
    exact ⟨_, rfl, hm.headStep hr (.inl hhist)⟩
  | @merged reference info fastForward policy ours theirs c r' hours htheirs hin hff hparents htree hbears hrec =>
    exact ⟨r', rfl, hrec.toMoved.headStep hr (.inr (readable_of_headCommit hours))⟩

theorem Answers.started {call : Call} {o : Outcome} (h : w.repository = some r) (hr : Started branch r)
    (ha : Answers w r call o) : ∃ r', o.2.repository = some r' ∧ Started branch r' := by
  obtain ⟨r', hr', hsound, _⟩ := ha.sound h hr.sound
  obtain ⟨_, hr'', hstep⟩ := ha.headStep h hr.sound
  cases hr'.symm.trans hr''
  exact ⟨r', hr', hr.step hsound hstep⟩

end Workspace

/-! ## The first `init` -/

/-- The branch that an `init` asks for. -/
def Command.opens? : Command → Option String
  | init first => some first
  | _ => none

/-- The branch that the first `init` of some commands asks for. -/
def Command.firstBranch? (cs : List Command) : Option String := cs.findSome? Command.opens?

theorem Command.firstBranch?_eq_none {cs : List Command} :
    firstBranch? cs = none ↔ ∀ branch, Command.init branch ∉ cs := by
  simp only [firstBranch?, List.findSome?_eq_none_iff]
  constructor
  · intro h branch hmem
    cases h _ hmem
  · intro h c hc
    cases c with
    | init branch => exact absurd hc (h branch)
    | _ => rfl

namespace Workspace

open Repository

variable {dir branch : String} {w w' : Workspace} {r : Repository} {c : Command} {cs : List Command}

/-- Without a repository an `init` makes one, and nothing else succeeds but to write a file. -/
theorem repository_of_first (h : w.repository = none)
    (hc : (c.replay (backend dir)).runOn w = (.ok (), w')) : w'.repository = c.opens?.map Repository.empty := by
  have hno := isInitialized_eq_false.mpr h
  have hrefused {call : Call} {a : Option String} {mid : Workspace} (hwrites : written? call = none)
      (hinit : ∀ branch, call ≠ .init branch)
      (hcall : ((backend dir).call call).runOn w = (.ok a, mid)) : False := by
    have hanswer : answer dir call w = (.ok a, mid) := hcall
    rw [answer_of_uninitialized dir hno hwrites hinit] at hanswer
    cases hanswer
  cases c with
  | init branch =>
    obtain ⟨a, ha⟩ := discard_of_ok hc
    have hinit : w.init branch = (.ok a, w') := ha
    unfold init at hinit
    split at hinit
    · cases hinit
    · rw [h] at hinit
      cases hinit
      rfl
  | createFile file content | changeContent file content | appendContent file content newLine =>
    obtain ⟨a, ha⟩ := discard_of_ok hc
    have hwritten := congrArg Prod.snd ha
    exact (congrArg Workspace.repository hwritten.symm).trans ((repository_write w file _).trans h)
  | commit info =>
    obtain ⟨_, _, _, hstage, _⟩ := runOn_discard_seq hc
    exact (hrefused rfl (by simp) hstage).elim
  | merge theirs info =>
    obtain ⟨_, _, hbranch, _⟩ := bind_of_ok hc
    exact (hrefused rfl (by simp) hbranch).elim
  | tag name note =>
    cases note <;>
    · obtain ⟨_, ha⟩ := discard_of_ok hc
      exact (hrefused rfl (by simp) ha).elim
  | branch | checkout | add =>
    obtain ⟨_, ha⟩ := discard_of_ok hc
    exact (hrefused rfl (by simp) ha).elim

/-- What a run leaves that finds a repository, wherever it ends. -/
theorem started_replay (h : w.repository = some r) (hr : Started branch r) (cs : List Command) :
    ∃ r', ((replay (backend dir) cs).runOn w).2.repository = some r' ∧ Started branch r' := by
  refine replay_keeps (P := fun w => ∃ r, w.repository = some r ∧ Started branch r) ?_ cs w ⟨r, h, hr⟩
  rintro call w ⟨r, h, hr⟩
  exact (answer_answers dir h call).started h hr

/-- **Where a run that succeeds has an `init`, its first one starts the repository**; where it has none there is
no repository. By induction on the commands up to that `init`. -/
theorem started_of_replay (h : w.repository = none) (hrun : (replay (backend dir) cs).runOn w = (.ok (), w')) :
    match Command.firstBranch? cs with
    | none => w'.repository = none
    | some branch => ∃ r, w'.repository = some r ∧ Started branch r := by
  induction cs generalizing w with
  | nil =>
    cases hrun
    exact h
  | cons c rest ih =>
    obtain ⟨_, mid, hfirst, hrest⟩ := bind_of_ok hrun
    have hmid := repository_of_first h hfirst
    unfold Command.firstBranch?
    rw [List.findSome?_cons]
    cases hopens : c.opens? with
    | none =>
      rw [hopens] at hmid
      exact ih hmid hrest
    | some branch =>
      rw [hopens] at hmid
      have hstarted : ∃ r, ((replay (backend dir) rest).runOn mid).2.repository = some r ∧ Started branch r :=
        started_replay hmid (.empty branch) rest
      rw [hrest] at hstarted
      exact hstarted

end Workspace

/-! ## The report -/

/-- What a report says of the workspace that commands left in a directory. -/
structure Report.Describes (report : Report) (name : String) (cs : List Command) (w : Workspace) : Prop where
  dir : report.dir = name
  commands : report.commands = cs.length
  commits : report.commits = cs.countP Command.createsCommit
  branch : ∀ b, report.branch = some b ↔ ∃ r, w.repository = some r ∧ r.GoesBy b
  head : ∀ id, report.head = some id ↔ ∃ r, w.repository = some r ∧ r.StandsAt id
  /-- Nothing is said of a head where there is no repository. -/
  absent : (∀ branch, Command.init branch ∉ cs) → report.branch = none ∧ report.head = none
  /-- Where the first branch makes a head whose text is a name, the branch is always what the head is attached
  to. -/
  named : (∀ branch, Command.firstBranch? cs = some branch → (Repository.firstHead branch).Named) →
    ∀ b, report.branch = some b ↔ ∃ r, w.repository = some r ∧ r.head = .attached (RefName.branches ++ b)

namespace Site

open Repository

variable {s : Site} {place : Target} {cs : List Command} {w : Workspace} {name : String}

theorem report_of_none (h : w.repository = none) (name : String) (cs : List Command) :
    report name cs w = .ok ⟨name, cs.length, (cs.filter Command.createsCommit).length, none, none⟩ := by
  simp only [report, h]
  rfl

theorem report_of_readable {r : Repository} (h : w.repository = some r) (hreadable : r.head.Readable)
    (name : String) (cs : List Command) : ∃ branch head,
      report name cs w = .ok ⟨name, cs.length, (cs.filter Command.createsCommit).length, branch, head⟩ ∧
      (∀ b, branch = some b ↔ r.GoesBy b) ∧ ∀ id, head = some id ↔ r.StandsAt id := by
  obtain ⟨branch, head, hbranch, hhead, htold⟩ := told_of_readable hreadable
  refine ⟨branch, head, ?_, htold⟩
  simp only [report, h, Option.map_some, Option.getD_some, hbranch, hhead, ok_bind, pure_eq]

theorem report_of_unreadable {r : Repository} (h : w.repository = some r) (hunreadable : ¬ r.head.Readable)
    (name : String) (cs : List Command) : report name cs w = .error .invalidName := by
  simp only [report, h, Option.map_some, Option.getD_some, currentBranch_of_unreadable hunreadable, error_bind]

/-- What is reported of a run that succeeded. -/
theorem report_of_replay {w₀ : Workspace} {dir : String} (h : w₀.repository = none)
    (hrun : (replay (Workspace.backend dir) cs).runOn w₀ = (.ok (), w)) (name : String) :
    ((∃ told, report name cs w = .ok told) ↔
      ∀ branch, Command.firstBranch? cs = some branch → (firstHead branch).Readable) ∧
    (∀ fault, report name cs w = .error fault → fault = .invalidName) ∧
    ∀ told, report name cs w = .ok told → told.Describes name cs w := by
  have hstarted := Workspace.started_of_replay h hrun
  cases hfirst : Command.firstBranch? cs with
  | none =>
    rw [hfirst] at hstarted
    have hnone : w.repository = none := hstarted
    have hreport := report_of_none hnone name cs
    refine ⟨⟨fun _ branch h => (by cases h), fun _ => ⟨_, hreport⟩⟩, fun fault hfault => ?_,
      fun told htold => ?_⟩
    · rw [hreport] at hfault
      cases hfault
    · rw [hreport] at htold
      cases htold
      exact {
        dir := rfl
        commands := rfl
        commits := List.countP_eq_length_filter.symm
        branch := by simp [hnone]
        head := by simp [hnone]
        absent := fun _ => ⟨rfl, rfl⟩
        named := by simp [hnone] }
  | some first =>
    rw [hfirst] at hstarted
    obtain ⟨r, hr, hstarted⟩ := hstarted
    by_cases hreadable : r.head.Readable
    · obtain ⟨branch, head, hreport, hbranch, hhead⟩ := report_of_readable hr hreadable name cs
      refine ⟨⟨fun _ other hother => ?_, fun _ => ⟨_, hreport⟩⟩, fun fault hfault => ?_,
        fun told htold => ?_⟩
      · cases hother
        exact hstarted.readable_iff.mp hreadable
      · rw [hreport] at hfault
        cases hfault
      · rw [hreport] at htold
        cases htold
        refine ⟨rfl, rfl, List.countP_eq_length_filter.symm, fun b => ?_, fun id => ?_, fun hno => ?_,
          fun hnamed b => ?_⟩
        · simpa [hr] using hbranch b
        · simpa [hr] using hhead id
        · rw [Command.firstBranch?_eq_none.mpr hno] at hfirst
          cases hfirst
        · rw [hbranch b, goesBy_of_named (hstarted.named (hnamed first hfirst))]
          simp [hr]
    · have hreport := report_of_unreadable hr hreadable name cs
      refine ⟨⟨?_, fun hall => ?_⟩, fun fault hfault => ?_, fun told htold => ?_⟩
      · rintro ⟨told, htold⟩
        rw [hreport] at htold
        cases htold
      · exact absurd (hstarted.readable_iff.mpr (hall first rfl)) hreadable
      · rw [hreport] at hfault
        cases hfault
        rfl
      · rw [hreport] at htold
        cases htold

/-- Commands are replayed in a directory that is free and can be made, and if they succeed there is something to
report. -/
theorem generateFrom_eq {made : FileTree} {played : Except RepositoryError Unit}
    (hfree : s.requireNone place = .ok ()) (hmade : s.tree.makeDirs place.way = (.ok (), made))
    (hrun : (replay (Workspace.backend place.name) cs).runOn ⟨made.inside place.dir, none⟩ = (played, w)) :
    s.generateFrom place cs =
      (match played with
        | .error e => .error e
        | .ok () => (report place.name cs w).mapError .refused,
        ⟨made.withInside place.dir w.tree, w.repository⟩) := by
  simp only [generateFrom, hfree, hmade, hrun]
  cases played <;> rfl

/-- **A run is reported.** Where a directory holds no repository and can be made, a run leaves there what its
commands leave, and fails with their error if they fail. If they succeed there is a report if and only if the
first `init`, where there is one, asks for a branch whose head can be read, and else the error is that its name
is not valid. What is reported is so: how many commands there are and how many of them make a commit, which
branch the head is on and which commit it is at, and neither where there is no `init`. -/
theorem generateFrom_reports {made : FileTree} {played : Except RepositoryError Unit}
    (hfree : s.requireNone place = .ok ()) (hmade : s.tree.makeDirs place.way = (.ok (), made))
    (hrun : (replay (Workspace.backend place.name) cs).runOn ⟨made.inside place.dir, none⟩ = (played, w)) :
    (s.generateFrom place cs).2 = ⟨made.withInside place.dir w.tree, w.repository⟩ ∧
    (∀ e, played = .error e → (s.generateFrom place cs).1 = .error e) ∧
    (played = .ok () →
      ((∃ told, (s.generateFrom place cs).1 = .ok told) ↔
        ∀ branch, Command.firstBranch? cs = some branch → (firstHead branch).Readable) ∧
      (∀ e, (s.generateFrom place cs).1 = .error e → e = .refused .invalidName) ∧
      ∀ told, (s.generateFrom place cs).1 = .ok told → told.Describes place.name cs w) := by
  rw [generateFrom_eq hfree hmade hrun]
  refine ⟨rfl, ?_, ?_⟩
  · rintro e rfl
    rfl
  · rintro rfl
    obtain ⟨hreported, hfault, hdescribes⟩ := report_of_replay rfl hrun place.name
    dsimp only
    cases hreport : report place.name cs w with
    | ok told =>
      have hok := hreported.mp ⟨told, hreport⟩
      refine ⟨⟨fun _ => hok, fun _ => ⟨told, rfl⟩⟩, fun e h => (by cases h), ?_⟩
      rintro _ ⟨⟩
      exact hdescribes told hreport
    | error fault =>
      refine ⟨⟨?_, fun hall => ?_⟩, ?_, fun told h => by cases h⟩
      · rintro ⟨told, ⟨⟩⟩
      · obtain ⟨told, htold⟩ := hreported.mpr hall
        rw [hreport] at htold
        cases htold
      · rintro _ ⟨⟩
        rw [hfault fault hreport]

/-- A commit on a branch that is spelt with a slash in front. -/
def slashed : List Command :=
  [.init "/x", .createFile "a" "1", .commit ⟨"one", "ann", "ann@mail"⟩, .tag "v1" none]

/-- A run whose head has a text that is no name as it stands, and its report: the branch goes by its own
name. -/
theorem generateFrom_reports_slashed : ∃ told, (generateFrom ⟨".", []⟩ slashed {}).1 = .ok told ∧
    told.commands = 4 ∧ told.commits = 1 ∧ told.branch = some "x" ∧ told.head = some 0 := by
  set w := ((replay (Workspace.backend ".") slashed).runOn ⟨({} : FileTree).inside [], none⟩).2 with hw
  have hplayed : ((replay (Workspace.backend ".") slashed).runOn ⟨({} : FileTree).inside [], none⟩).1 = .ok () := by
    decide +kernel
  have hrun : (replay (Workspace.backend ".") slashed).runOn ⟨({} : FileTree).inside [], none⟩ = (.ok (), w) :=
    Prod.ext hplayed rfl
  have hfree : ({} : Site).requireNone ⟨".", []⟩ = .ok () := by decide
  have hmade : ({} : Site).tree.makeDirs [] = (.ok (), {}) := by decide
  have hreadable : (firstHead "/x").Readable := by decide +kernel
  obtain ⟨-, -, hreports⟩ := generateFrom_reports hfree hmade hrun
  obtain ⟨hreported, -, hdescribes⟩ := hreports rfl
  obtain ⟨told, htold⟩ := hreported.mpr fun branch hbranch => Option.some.inj hbranch ▸ hreadable
  have hdescribed := hdescribes told htold
  obtain ⟨r, hr, hhead, href⟩ : ∃ r, w.repository = some r ∧ r.head = .attached "refs/heads//x" ∧
      r.ref? "refs/heads/x" = some ⟨0, none⟩ := by
    have hseen : w.repository.map (fun r => (r.head, r.ref? "refs/heads/x")) =
        some (.attached "refs/heads//x", some ⟨0, none⟩) := by decide +kernel
    obtain ⟨r, hr, heq⟩ := Option.map_eq_some_iff.mp hseen
    exact ⟨r, hr, congrArg Prod.fst heq, congrArg Prod.snd heq⟩
  have hname : RefName.normal? "refs/heads//x" = some "refs/heads/x" := by decide +kernel
  refine ⟨told, htold, hdescribed.commands, hdescribed.commits, (hdescribed.branch "x").mpr ?_,
    (hdescribed.head 0).mpr ?_⟩
  · refine ⟨r, hr, _, _, hhead, hname, ?_⟩
    rw [href]
    rfl
  · exact ⟨r, hr, .inr ⟨_, _, _, hhead, hname, href, rfl⟩⟩

/-- A run that succeeds and is not reported, as no head can be read that has a blank in it, and one that is
reported to be on another branch than its head is attached to. -/
theorem not_every_run_reported :
    ((replay (Workspace.backend ".") [.init "a b"]).runOn {}).1 = .ok () ∧
    (generateFrom ⟨".", []⟩ [.init "a b"] {}).1 = .error (.refused .invalidName) ∧
    (generateFrom ⟨".", []⟩ slashed {}).1.toOption.bind Report.branch = some "x" ∧
    (generateFrom ⟨".", []⟩ slashed {}).2.repository.map Repository.head = some (.attached "refs/heads//x") := by
  decide +kernel

end Site

end Chronicle
