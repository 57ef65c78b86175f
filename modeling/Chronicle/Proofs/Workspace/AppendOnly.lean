import Chronicle.Proofs.Workspace.Run

/-!
# References only go ahead

No call takes a reference away. The one that the head is attached to may move, in a commit or a merge,
and then to a commit that descends from the one it was at; all others stay where they are, and what a
call adds was not there before (`Repository.Ahead`). **This holds of every call in every run, and so
what a reference reaches it reaches ever after** (`Workspace.references_only_advance`).
-/

namespace Chronicle

/-! ## What a call may do to references -/

/-- Whether a call may move the reference that the head is attached to. -/
def Call.movesHead : Call → Bool
  | .commit _ | .merge .. => true
  | _ => false

/-- The group and the short name of the reference that a call adds, and whether it is to have a note. -/
def Call.addition? : Call → Option (String × String × Bool)
  | .createBranch name => some (RefName.branches, name, false)
  | .tag name => some (RefName.tags, name, false)
  | .annotatedTag name _ => some (RefName.tags, name, true)
  | _ => none

namespace Repository

/-- The call `c`, which answers `a`, takes the references of `r` no further than to those of `r'`. -/
structure Ahead (r : Repository) (c : Call) (a : Except RepositoryError (Option String))
    (r' : Repository) : Prop where
  /-- A reference that is not as it was is the head's, or is new. -/
  changed : ∀ name, r'.ref? name ≠ r.ref? name →
    (c.movesHead = true ∧ r.headRef? = some name) ∨
      (c.addition?.isSome = true ∧ r.ref? name = none)
  /-- A reference stays, at its commit or at one that descends from it. -/
  ahead : ∀ name old, r.ref? name = some old →
    ∃ new, r'.ref? name = some new ∧ r'.history.Descends new.commit old.commit
  /-- A reference is added at the head's commit, and nothing is done besides. -/
  added : ∀ group short noted, c.addition? = some (group, short, noted) →
    (∃ e, a = .error e) ∧ r' = r ∨
      a = .ok none ∧ ∃ full new, RefName.within? group short = some full ∧
        r.headCommit = .ok (some new.commit) ∧ new.note.isSome = noted ∧ r.Added full new r'

/-- Whether a commit is reached from the reference of a name. -/
def Reaches (r : Repository) (name : String) (id : CommitId) : Prop :=
  ∃ ref, r.ref? name = some ref ∧ r.history.Descends ref.commit id

variable {r r' : Repository} {c : Call} {a : Except RepositoryError (Option String)}

theorem Ahead.of_error {e : RepositoryError} : r.Ahead c (.error e) r where
  changed _ h := absurd rfl h
  ahead _ old h := ⟨old, h, .refl⟩
  added _ _ _ _ := .inl ⟨⟨e, rfl⟩, rfl⟩

/-- Calls that leave all references alone. -/
theorem Ahead.of_refs (hadd : c.addition? = none) (href : ∀ name, r'.ref? name = r.ref? name) :
    r.Ahead c a r' where
  changed name h := absurd (href name) h
  ahead name old h := ⟨old, by rw [href, h], .refl⟩
  added group short noted h := by
    rw [hadd] at h
    cases h

/-- The head's reference moves, and the commit it comes to descends from the one the head was at. -/
theorem Moved.ahead {id : CommitId} (hm : r.Moved id r') (hc : c.movesHead = true)
    (hadd : c.addition? = none)
    (hd : ∀ old, r.headCommit = .ok (some old) → r'.history.Descends id old) : r.Ahead c a r' where
  changed name h := by
    rw [hm.ref] at h
    by_cases hn : r.headRef? = some name
    · exact .inl ⟨hc, hn⟩
    · rw [if_neg hn] at h
      exact absurd rfl h
  ahead name old h := by
    rw [hm.ref]
    by_cases hn : r.headRef? = some name
    · -- what the head's reference is at, the head is at
      have hold : r.headCommit = .ok (some old.commit) := by
        rw [headCommit_attached hn, h]
        rfl
      exact ⟨⟨id, none⟩, if_pos hn, hd old.commit hold⟩
    · exact ⟨old, by rw [if_neg hn, h], .refl⟩
  added group short noted h := by
    rw [hadd] at h
    cases h

/-- The head's reference moves ahead to a commit that descends from the head's. -/
theorem Moved.ahead_of_isIn {ours theirs : CommitId} (hm : r.Moved theirs r')
    (hc : c.movesHead = true) (hadd : c.addition? = none) (hours : r.headCommit = .ok (some ours))
    (hin : r.history.isIn ours theirs = true) (hhist : r'.history = r.history) : r.Ahead c a r' := by
  apply hm.ahead hc hadd
  intro old hold
  rw [hours] at hold
  cases hold
  rw [hhist]
  exact History.descends_of_isIn hin

/-- What is written to the index does not concern the references. -/
theorem Ahead.withIndex (ha : r.Ahead c a r') (hadd : c.addition? = none) (index saved : Tree) :
    r.Ahead c a { r' with index, saved } where
  changed := ha.changed
  ahead := ha.ahead
  added group short noted h := by
    rw [hadd] at h
    cases h

/-- A commit that is recorded descends from the head's if that is among its parents. -/
theorem Recorded.ahead {new : Commit} (hrec : r.Recorded new r') (hc : c.movesHead = true)
    (hadd : c.addition? = none)
    (hparent : ∀ old, r.headCommit = .ok (some old) → old ∈ new.parents) : r.Ahead c a r' := by
  apply hrec.toMoved.ahead hc hadd
  intro old hold
  rw [hrec.history]
  exact History.descends_add_of_mem (hparent old hold)

theorem Added.ahead {group short full : String} {new : Ref}
    (hc : c.addition? = some (group, short, new.note.isSome))
    (hfull : RefName.within? group short = some full) (hid : r.headCommit = .ok (some new.commit))
    (hadd : r.Added full new r') : r.Ahead c (.ok none) r' where
  changed name h := by
    rw [hadd.ref] at h
    by_cases hn : name = full
    · exact .inr ⟨by rw [hc]; rfl, hn ▸ hadd.fresh⟩
    · rw [if_neg hn] at h
      exact absurd rfl h
  ahead name old h := by
    -- what was there has another name than what is new
    have hn : name ≠ full := by
      intro hn
      rw [hn, hadd.fresh] at h
      cases h
    exact ⟨old, by rw [hadd.ref, if_neg hn, h], .refl⟩
  added group' short' noted' h := by
    rw [hc] at h
    cases h
    exact .inr ⟨rfl, full, new, hfull, hid, rfl, hadd⟩

theorem Ahead.reaches {name : String} {id : CommitId} (ha : r.Ahead c a r')
    (hgrown : r.history <:+ r'.history) (h : r.Reaches name id) : r'.Reaches name id := by
  obtain ⟨old, hold, hd⟩ := h
  obtain ⟨new, hnew, hd'⟩ := ha.ahead name old hold
  exact ⟨new, hnew, hd'.trans (hd.of_suffix hgrown)⟩

/-- What is reached is a commit of the history. -/
theorem Reaches.lt {name : String} {id : CommitId} (h : r.Reaches name id) (hr : r.Sound) :
    id < r.history.length := by
  obtain ⟨ref, href, hd⟩ := h
  exact Nat.lt_of_le_of_lt (hd.le hr.history) (hr.refs name ref href)

end Repository

/-! ## Every call -/

namespace Workspace

variable {dir : String} {w : Workspace} {r : Repository}

theorem Answers.ahead {c : Call} {o : Outcome} (h : w.repository = some r) (ha : Answers w r c o) :
    ∃ r', o.2.repository = some r' ∧ r.Ahead c o.1 r' := by
  cases ha with
  | refused c e => exact ⟨r, h, .of_error⟩
  | reopened branch => exact ⟨_, rfl, .of_refs rfl fun _ => rfl⟩
  | told name => exact ⟨r, h, .of_refs rfl fun _ => rfl⟩
  | stagedAll hs => exact ⟨_, rfl, .of_refs rfl fun _ => rfl⟩
  | stagedSome hs => exact ⟨_, rfl, .of_refs rfl fun _ => rfl⟩
  | stagedFile hs => exact ⟨_, rfl, .of_refs rfl fun _ => rfl⟩
  | @committed info parent c r' hparent hparents htree hbears hrec =>
    refine ⟨r', rfl, hrec.ahead rfl rfl ?_⟩
    intro old hold
    rw [hparent] at hold
    cases hold
    rw [hparents]
    exact List.mem_singleton_self old
  | @branched name full id r' hid hfull hadd => exact ⟨r', rfl, hadd.ahead rfl hfull hid⟩
  | @tagged name full id r' hid hfull hadd => exact ⟨r', rfl, hadd.ahead rfl hfull hid⟩
  | @annotated name full info id note r' hid hfull hname hmessage htagger hadd =>
    exact ⟨r', rfl, hadd.ahead rfl hfull hid⟩
  | turned hid hc => exact ⟨_, rfl, .of_refs rfl fun _ => rfl⟩
  | turnedPartly hid hc => exact ⟨_, rfl, .of_refs rfl fun _ => rfl⟩
  | contained hours htheirs hin => exact ⟨r, h, .of_refs rfl fun _ => rfl⟩
  | @forwarded reference info policy ours theirs r' c hours htheirs hin hhist hm hc =>
    exact ⟨_, rfl, (hm.ahead_of_isIn rfl rfl hours hin hhist).withIndex rfl c.index c.index⟩
  | @forwardedPartly reference info policy ours theirs r' c e hours htheirs hin hhist hm hc =>
    exact ⟨_, rfl, (hm.ahead_of_isIn rfl rfl hours hin hhist).withIndex rfl c.index r'.saved⟩
  | @merged reference info fastForward policy ours theirs c r' hours htheirs hin hff hparents htree
      hbears hrec =>
    refine ⟨r', rfl, hrec.ahead rfl rfl ?_⟩
    intro old hold
    rw [hours] at hold
    cases hold
    rw [hparents]
    exact List.mem_cons_self
  | @wrote c path new tree hc hin hw =>
    cases c with
    | writeFile _ _ => exact ⟨r, h, .of_refs rfl fun _ => rfl⟩
    | appendFile _ _ => exact ⟨r, h, .of_refs rfl fun _ => rfl⟩
    | _ => cases hc
  | wroteNothing hc hin hw => exact ⟨r, h, .of_error⟩

/-- What was reached stays reached after any further calls, and is the commit that it was. -/
theorem run_reaches (h : w.repository = some r) (hr : r.Sound) (calls : List Call) :
    ∃ r', (run dir w calls).repository = some r' ∧ r.history <:+ r'.history ∧
      ∀ name id, r.Reaches name id → r'.Reaches name id := by
  induction calls generalizing w r with
  | nil => exact ⟨r, h, List.suffix_refl _, fun _ _ hreach => hreach⟩
  | cons c rest ih =>
    have hanswer := answer_answers dir h c
    obtain ⟨r', h', hr', hgrown⟩ := hanswer.sound h hr
    obtain ⟨r₁, h₁, ha⟩ := hanswer.ahead h
    -- both speak of the repository that the call leaves
    obtain rfl : r₁ = r' := Option.some.inj (h₁.symm.trans h')
    obtain ⟨r'', h'', hgrown', hlater⟩ := ih h' hr'
    refine ⟨r'', h'', hgrown.trans hgrown', ?_⟩
    intro name id hreach
    exact hlater name id (ha.reaches hgrown hreach)

/-- **References only advance.** From a working tree without a repository, whatever calls are made and
whatever they answer: the first repository has no reference, each call takes the references at most
ahead, and a commit that a reference reaches it reaches in all that follows, unchanged. -/
theorem references_only_advance (dir : String) (tree : FileTree) (before : List Call) (c : Call) :
    let w := run dir { tree } before
    let o := answer dir c w
    (w.repository = none → ∀ r, o.2.repository = some r → ∀ name, r.ref? name = none) ∧
    ∀ r, w.repository = some r →
      (∃ r', o.2.repository = some r' ∧ r.Ahead c o.1 r') ∧
      ∀ after, ∃ r', (run dir w after).repository = some r' ∧
        ∀ name id, r.Reaches name id → r'.Reaches name id ∧
          ∃ found, r.history.get? id = some found ∧ r'.history.get? id = some found := by
  intro w o
  have hreachable : Reachable dir tree w := ⟨before, rfl⟩
  refine ⟨?_, ?_⟩
  · intro hnone r hsome name
    rcases answer_of_none dir hnone c with hnone' | ⟨branch, hempty⟩
    · rw [hnone'] at hsome
      cases hsome
    · rw [hempty] at hsome
      cases hsome
      rfl
  · intro r hr
    have hsound : r.Sound := hreachable.sound hr
    refine ⟨(answer_answers dir hr c).ahead hr, ?_⟩
    intro after
    obtain ⟨r', hr', hgrown, hlater⟩ := run_reaches hr hsound after
    refine ⟨r', hr', ?_⟩
    intro name id hreach
    refine ⟨hlater name id hreach, ?_⟩
    obtain ⟨found, hfound⟩ := Option.isSome_iff_exists.mp
      (History.get?_isSome_iff.mpr (hreach.lt hsound))
    exact ⟨found, hfound, History.get?_of_suffix hgrown hfound⟩

/-- A first commit on a branch, and a tag at it. -/
def tagging : List Call := [.init "main", .commit ⟨"one", "ann", "ann@mail"⟩, .tag "v1"]

/-- The next commit takes the branch ahead, which still reaches the first one, and leaves the tag. -/
theorem references_advance_past_tag :
    ∃ r r', (run "." {} tagging).repository = some r ∧
      (answer "." (.commit ⟨"two", "ann", "ann@mail"⟩) (run "." {} tagging)).2.repository = some r' ∧
      r.ref? "refs/heads/main" = some ⟨0, none⟩ ∧ r'.ref? "refs/heads/main" = some ⟨1, none⟩ ∧
      r'.ref? "refs/tags/v1" = some ⟨0, none⟩ ∧ r'.Reaches "refs/heads/main" 0 := by
  have hr : ∃ r, (run "." {} tagging).repository = some r ∧
      r.ref? "refs/heads/main" = some ⟨0, none⟩ := by
    refine ⟨((run "." {} tagging).repository.getD (.empty "")), ?_, ?_⟩ <;> decide +kernel
  obtain ⟨r, hr, hmain⟩ := hr
  obtain ⟨⟨r', hr', _⟩, hlater⟩ := (references_only_advance "." {} tagging
    (.commit ⟨"two", "ann", "ann@mail"⟩)).2 r hr
  obtain ⟨r'', hr'', hreach⟩ := hlater [.commit ⟨"two", "ann", "ann@mail"⟩]
  obtain rfl : r'' = r' := Option.some.inj (hr''.symm.trans hr')
  have href (name : String) : r''.ref? name = (answer "." (.commit ⟨"two", "ann", "ann@mail"⟩)
      (run "." {} tagging)).2.repository.bind (·.ref? name) := by
    rw [hr']
    rfl
  refine ⟨r, r'', hr, hr', hmain, ?_, ?_, (hreach _ 0 ⟨⟨0, none⟩, hmain, .refl⟩).1⟩
  · rw [href]
    decide +kernel
  · rw [href]
    decide +kernel

end Workspace

end Chronicle
