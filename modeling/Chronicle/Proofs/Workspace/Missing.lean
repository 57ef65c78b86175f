import Chronicle.Proofs.Replay.Trace
import Chronicle.Proofs.Workspace.Failed

/-!
# What a call does not find

There are three things that a run may not find: the file of its request, a repository to work on, and what a text
refers to in a repository (`Missing`). **The failure that names one of them advises to make a branch if it is a
reference, and else if the words `branch` or `ref` stand in its name** (`Missing.advisesBranch_iff`), as the advice
is picked by the words of the message.

What a call misses is told by the workspace (`Workspace.Misses`), and what commands miss that are replayed by the
last call that they make (`Workspace.ReplayMisses`). **For want of something they fail if and only if they miss it**
(`Workspace.answer_eq_notFound`, `Workspace.replay_eq_notFound`).
-/

namespace Chronicle

open Steps

/-! ## Texts in texts -/

/-- Searching a text finds what stands in it. -/
theorem Failure.contains_iff {part text : List Char} : Failure.contains part text = true ↔ part <:+: text := by
  induction text with
  | nil => simp [contains]
  | cons c rest ih => rw [contains, Bool.or_eq_true, List.isPrefixOf_iff_prefix, ih, List.infix_cons_iff]

/-- What begins a text and has some character not in it ends before that character. -/
theorem prefix_append_cons_iff {part : List Char} (before after : List Char) {sep : Char} (hsep : sep ∉ part) :
    part <+: before ++ sep :: after ↔ part <+: before := by
  refine ⟨fun h => ?_, fun h => h.trans (List.prefix_append _ _)⟩
  rcases List.prefix_or_prefix_of_prefix h (List.prefix_append before (sep :: after)) with hshort | ⟨more, rfl⟩
  · exact hshort
  · -- a longer part would go on with that character
    rw [List.prefix_append_right_inj] at h
    cases more with
    | nil => simp
    | cons c more =>
      obtain ⟨rfl, -⟩ := List.cons_prefix_cons.mp h
      exact absurd (List.mem_append_right _ List.mem_cons_self) hsep

/-- What stands in a text and has some character not in it stands on one side of that character. By induction on the
text before it. -/
theorem infix_append_cons_iff {part : List Char} (before after : List Char) {sep : Char} (hsep : sep ∉ part) :
    part <:+: before ++ sep :: after ↔ part <:+: before ∨ part <:+: after := by
  induction before with
  | nil =>
    have hnil : part <+: sep :: after ↔ part <+: [] := prefix_append_cons_iff [] after hsep
    rw [List.nil_append, List.infix_cons_iff, hnil, List.prefix_nil, List.infix_nil]
  | cons c before ih =>
    have hcons : part <+: c :: (before ++ sep :: after) ↔ part <+: c :: before :=
      prefix_append_cons_iff (c :: before) after hsep
    rw [List.cons_append, List.infix_cons_iff, hcons, ih, List.infix_cons_iff, or_assoc]

/-! ## The advice to make a branch -/

/-- Whether the words `branch` or `ref` stand in a text. -/
def MentionsBranch (text : String) : Prop := "branch".toList <:+: text.toList ∨ "ref".toList <:+: text.toList

theorem mentionsBranch_iff {text : String} : MentionsBranch text ↔
    (Failure.contains "branch".toList text.toList || Failure.contains "ref".toList text.toList) = true := by
  rw [Bool.or_eq_true, Failure.contains_iff, Failure.contains_iff, MentionsBranch]

instance (text : String) : Decidable (MentionsBranch text) := decidable_of_iff _ mentionsBranch_iff.symm

/-- Neither word has a blank in it. -/
theorem mentionsBranch_append_blank (before after : String) :
    MentionsBranch (before ++ " " ++ after) ↔ MentionsBranch before ∨ MentionsBranch after := by
  have htext : (before ++ " " ++ after).toList = before.toList ++ ' ' :: after.toList := by
    rw [String.toList_append, String.toList_append, List.append_assoc]
    rfl
  have hbranch : ' ' ∉ "branch".toList := by decide
  have href : ' ' ∉ "ref".toList := by decide
  unfold MentionsBranch
  rw [htext, infix_append_cons_iff _ _ hbranch, infix_append_cons_iff _ _ href, or_or_or_comm]

namespace Failure

/-- The advice to make a branch. -/
def branchAdvice : String := "Create the branch with a \"branch <name>\" event before using it"

/-- Whether a failure comes with the advice to make a branch. -/
def AdvisesBranch (f : Failure) : Prop := branchAdvice ∈ f.suggestions

instance (f : Failure) : Decidable f.AdvisesBranch := inferInstanceAs (Decidable (branchAdvice ∈ f.suggestions))

theorem code_eq_notFound {f : Failure} : f.code = "not_found" ↔ ∃ what, f = .notFound what := by
  cases f <;> simp [code]

/-- The advice is picked by the words of a message. -/
theorem suggestions_notFound (what : String) :
    (notFound what).suggestions = if MentionsBranch what then [branchAdvice] else [] :=
  if_congr mentionsBranch_iff.symm rfl rfl

theorem advisesBranch_iff {f : Failure} : f.AdvisesBranch ↔ ∃ what, f = .notFound what ∧ MentionsBranch what := by
  cases f with
  | notFound what =>
    rw [AdvisesBranch, suggestions_notFound]
    split <;> simp [*]
  | _ => simp [AdvisesBranch, suggestions, branchAdvice]

end Failure

/-! ## Missing things -/

/-- What a run may need and not find. -/
inductive Missing
  /-- The file of a request, by what it is called. -/
  | file (name : String)
  /-- A repository in a directory. -/
  | repository (dir : String)
  /-- What a text refers to. -/
  | reference (text : String)
  deriving DecidableEq

namespace Missing

/-- The words for what is missing. -/
def message : Missing → String
  | file name => "Config file not found: " ++ name
  | repository dir => "no repository in " ++ dir ++ " (the log must start with init)"
  | reference text => "ref '" ++ text ++ "'"

/-- The failure of a run that does not find something. -/
def failure (m : Missing) : Failure := .notFound m.message

/-- Whether the advice to make a branch comes with what is missing. -/
def Advised : Missing → Prop
  | reference _ => True
  | file name | repository name => MentionsBranch name

/-- **The advice comes with every reference**, and else with a name that has its words in it. -/
theorem advisesBranch_iff (m : Missing) : m.failure.AdvisesBranch ↔ m.Advised := by
  have hwords : m.failure.AdvisesBranch ↔ MentionsBranch m.message := by
    simp [Failure.advisesBranch_iff, failure]
  rw [hwords]
  cases m with
  | file name =>
    have hbefore : ¬ MentionsBranch "Config file not found:" := by decide
    have hmessage : (file name).message = "Config file not found:" ++ " " ++ name := rfl
    rw [hmessage, mentionsBranch_append_blank]
    exact or_iff_right hbefore
  | repository dir =>
    have hbefore : ¬ MentionsBranch "no repository in" := by decide
    have hafter : ¬ MentionsBranch "(the log must start with init)" := by decide
    have hmessage : (repository dir).message =
        "no repository in" ++ " " ++ dir ++ (" " ++ "(the log must start with init)") := rfl
    rw [hmessage, ← String.append_assoc, mentionsBranch_append_blank, mentionsBranch_append_blank, or_iff_left hafter]
    exact or_iff_right hbefore
  | reference text =>
    have hbefore : MentionsBranch "ref" := by decide
    have hmessage : (reference text).message = "ref" ++ " " ++ ("'" ++ text ++ "'") := by
      rw [← String.append_assoc, ← String.append_assoc]
      rfl
    rw [hmessage, mentionsBranch_append_blank]
    exact iff_of_true (.inl hbefore) trivial

end Missing

/-! ## Calls -/

/-- Whether a text refers to nothing in a repository: no branch is called that, and as a revision it leads nowhere or
is none. -/
structure Repository.Unresolved (r : Repository) (text : String) : Prop where
  legible : FileTree.hasNul text = false
  branch : r.branch? text = none
  revision : r.revision text = .error .notFound ∨ r.revision text = .error .invalidName

theorem Repository.resolve_eq_notFound {r : Repository} {text what : String} :
    r.resolve text = .error (.notFound what) ↔ r.Unresolved text ∧ (Missing.reference text).message = what := by
  unfold resolve
  constructor
  · intro h
    split at h
    · cases h
    · rename_i hnul
      have hnul : FileTree.hasNul text = false := Bool.eq_false_iff.mpr hnul
      split at h
      · cases h
      · rename_i hbranch
        split at h
        · rename_i o _
          cases hpeel : o.peelCommit r.history <;> rw [hpeel] at h <;> cases h
        · rename_i hrevision
          cases h
          exact ⟨⟨hnul, hbranch, .inl hrevision⟩, rfl⟩
        · rename_i hrevision
          cases h
          exact ⟨⟨hnul, hbranch, .inr hrevision⟩, rfl⟩
        · cases h
  · rintro ⟨⟨hnul, hbranch, hrevision⟩, rfl⟩
    rw [hnul, hbranch]
    rcases hrevision with hrevision | hrevision <;> rw [hrevision] <;> rfl

namespace Workspace

variable {dir what : String} {w : Workspace} {r : Repository} {c : Call} {cs : List Command}

/-- The text of a call that has to refer to a commit. -/
def reference? : Call → Option String
  | .checkout reference | .merge reference _ _ _ => some reference
  | _ => none

/-- What a call on the workspace of a directory needs and does not find. -/
inductive Misses (dir : String) (w : Workspace) : Call → Missing → Prop
  /-- Only an `init` and the writing of files need no repository. -/
  | repository {c : Call} (hnone : w.repository = none) (hwrites : written? c = none)
      (hinit : ∀ branch, c ≠ .init branch) : Misses dir w c (.repository dir)
  | checkout {r : Repository} {reference : String} (hr : w.repository = some r)
      (hmissing : r.Unresolved reference) : Misses dir w (.checkout reference) (.reference reference)
  /-- There has to be a commit to merge into before the other one is looked for. -/
  | merge {r : Repository} {reference : String} {info : CommitInfo} {fastForward : Bool} {policy : Policy}
      {ours : CommitId} (hr : w.repository = some r) (hborn : r.headCommit = .ok (some ours))
      (hmissing : r.Unresolved reference) :
      Misses dir w (.merge reference info fastForward policy) (.reference reference)

/-- Whether an outcome does not end for want of something. -/
def Finds (o : Outcome) : Prop := ∀ what, o.1 ≠ .error (.notFound what)

theorem init_finds (w : Workspace) (branch : String) : Finds (w.init branch) := by
  intro what h
  unfold init at h
  split at h
  · cases h
  · split at h <;> cases h

theorem write_finds (w : Workspace) (path : String) (new : Option String → String) : Finds (w.write path new) := by
  intro what h
  unfold write at h
  split at h
  · cases h
  · split at h <;> cases h

theorem stage_finds (w : Workspace) (r : Repository) (paths : Pathspec) : Finds (w.stage r paths) := by
  intro what h
  unfold stage at h
  split at h <;> split at h <;> cases h

theorem commit_finds (w : Workspace) (r : Repository) (info : CommitInfo) : Finds (w.commit r info) := by
  intro what h
  unfold commit at h
  dsimp only at h
  split at h <;> cases h

theorem bornHead_ne_notFound (r : Repository) (action what : String) : bornHead r action ≠ .error (.notFound what) := by
  intro h
  unfold bornHead at h
  split at h <;> cases h

theorem createBranch_finds (w : Workspace) (r : Repository) (name : String) : Finds (w.createBranch r name) := by
  intro what h
  unfold createBranch at h
  split at h
  · rename_i e hborn
    cases h
    exact bornHead_ne_notFound r _ what hborn
  · split at h <;> cases h

theorem tag_finds (w : Workspace) (r : Repository) (name : String) (info : Option CommitInfo) :
    Finds (w.tag r name info) := by
  intro what h
  unfold tag at h
  split at h
  · rename_i e hborn
    cases h
    exact bornHead_ne_notFound r _ what hborn
  · dsimp only at h
    split at h <;> cases h

theorem checkOut_finds (w : Workspace) (r : Repository) (old new : Tree) (after : Repository → Repository) :
    Finds (w.checkOut r old new after) := by
  intro what h
  unfold checkOut at h
  split at h <;> cases h

theorem recordMerge_finds (w : Workspace) (r : Repository) (ours theirs : CommitId) (reference : String)
    (info : CommitInfo) (policy : Policy) : Finds (w.recordMerge r ours theirs reference info policy) := by
  intro what h
  unfold recordMerge at h
  split at h
  · rename_i e hresolve
    cases h
    -- a merge that is not resolved has conflicts
    unfold MergeIndex.resolve at hresolve
    split at hresolve
    · cases hresolve
    · cases hresolve
    · split at hresolve <;> cases hresolve
  · split at h <;> cases h

theorem checkout_eq_notFound (w : Workspace) (r : Repository) (reference : String) :
    (w.checkout r reference).1 = .error (.notFound what) ↔
      r.Unresolved reference ∧ (Missing.reference reference).message = what := by
  rw [← Repository.resolve_eq_notFound]
  unfold checkout
  cases r.resolve reference with
  | error e => simp [failed]
  | ok id => exact iff_of_false (checkOut_finds _ _ _ _ _ what) (by simp)

theorem bornHead_isOk_iff {r : Repository} {action : String} :
    (∃ ours, bornHead r action = .ok ours) ↔ ∃ ours, r.headCommit = .ok (some ours) := by
  refine exists_congr fun ours => ⟨bornHead_eq_ok, fun h => ?_⟩
  unfold bornHead
  rw [h]

theorem merge_eq_notFound (w : Workspace) (r : Repository) (reference : String) (info : CommitInfo)
    (fastForward : Bool) (policy : Policy) :
    (w.merge r reference info fastForward policy).1 = .error (.notFound what) ↔
      (∃ ours, r.headCommit = .ok (some ours)) ∧ r.Unresolved reference ∧
        (Missing.reference reference).message = what := by
  rw [← Repository.resolve_eq_notFound, ← @bornHead_isOk_iff r ("merge " ++ reference)]
  unfold merge
  cases hborn : bornHead r ("merge " ++ reference) with
  | error e =>
    refine iff_of_false (fun h => ?_) (by simp)
    cases h
    exact bornHead_ne_notFound r _ what hborn
  | ok ours =>
    cases r.resolve reference with
    | error e => simp [failed]
    | ok theirs =>
      refine iff_of_false (fun h => ?_) (by simp)
      simp only [Outcome.ok_bind, Outcome.pure_eq] at h
      split at h
      · cases h
      · split at h
        · split at h
          · cases h
          · exact checkOut_finds _ _ _ _ _ what h
        · exact recordMerge_finds _ _ _ _ _ _ _ what h

theorem answerIn_eq_notFound (dir : String) (hr : w.repository = some r) (c : Call) :
    (w.answerIn r c).1 = .error (.notFound what) ↔ ∃ m, Misses dir w c m ∧ m.message = what := by
  have hsome (hnone : w.repository = none) : False := by
    rw [hr] at hnone
    cases hnone
  have hnothing (hfinds : Finds (w.answerIn r c)) (htext : reference? c = none) :
      (w.answerIn r c).1 = .error (.notFound what) ↔ ∃ m, Misses dir w c m ∧ m.message = what := by
    refine iff_of_false (hfinds what) ?_
    rintro ⟨m, hmiss, -⟩
    cases hmiss with
    | repository hnone => exact hsome hnone
    | checkout | merge => cases htext
  cases c with
  | checkout reference =>
    rw [answerIn, checkout_eq_notFound]
    constructor
    · rintro ⟨hmissing, hwhat⟩
      exact ⟨_, .checkout hr hmissing, hwhat⟩
    · rintro ⟨m, hmiss, hwhat⟩
      cases hmiss with
      | repository hnone => exact (hsome hnone).elim
      | checkout hr' hmissing =>
        cases hr.symm.trans hr'
        exact ⟨hmissing, hwhat⟩
  | merge reference info fastForward policy =>
    rw [answerIn, merge_eq_notFound]
    constructor
    · rintro ⟨⟨ours, hborn⟩, hmissing, hwhat⟩
      exact ⟨_, .merge hr hborn hmissing, hwhat⟩
    · rintro ⟨m, hmiss, hwhat⟩
      cases hmiss with
      | repository hnone => exact (hsome hnone).elim
      | merge hr' hborn hmissing =>
        cases hr.symm.trans hr'
        exact ⟨⟨_, hborn⟩, hmissing, hwhat⟩
  | init branch => exact hnothing (init_finds w branch) rfl
  | stage paths => exact hnothing (stage_finds w r paths) rfl
  | commit info => exact hnothing (commit_finds w r info) rfl
  | createBranch name => exact hnothing (createBranch_finds w r name) rfl
  | tag name => exact hnothing (tag_finds w r name none) rfl
  | annotatedTag name info => exact hnothing (tag_finds w r name (some info)) rfl
  | writeFile path content => exact hnothing (write_finds w path _) rfl
  | appendFile path content => exact hnothing (write_finds w path _) rfl
  | currentBranch =>
    refine hnothing (fun what h => ?_) rfl
    unfold answerIn at h
    dsimp only at h
    split at h <;> cases h

/-- **A call fails for want of something if and only if it misses it**, and says what it is. -/
theorem answer_eq_notFound (dir : String) (c : Call) (w : Workspace) :
    (answer dir c w).1 = .error (.notFound what) ↔ ∃ m, Misses dir w c m ∧ m.message = what := by
  cases hr : w.repository with
  | some r =>
    rw [answer_of_some dir hr]
    exact answerIn_eq_notFound dir hr c
  | none =>
    -- what is missing can only be the repository
    have hmisses {m : Missing} (hmiss : Misses dir w c m) :
        m = .repository dir ∧ written? c = none ∧ ∀ branch, c ≠ .init branch := by
      cases hmiss with
      | repository hnone hwrites hinit => exact ⟨rfl, hwrites, hinit⟩
      | checkout hr' | merge hr' =>
        rw [hr] at hr'
        cases hr'
    have hwrite (path : String) (new : Option String → String) (hwrites : written? c = some (path, new)) :
        (w.write path new).1 = .error (.notFound what) ↔ ∃ m, Misses dir w c m ∧ m.message = what := by
      refine iff_of_false (write_finds w path new what) ?_
      rintro ⟨m, hmiss, -⟩
      cases hwrites.symm.trans (hmisses hmiss).2.1
    cases c with
    | init branch =>
      refine iff_of_false (init_finds w branch what) ?_
      rintro ⟨m, hmiss, -⟩
      exact (hmisses hmiss).2.2 branch rfl
    | writeFile path content => exact hwrite path _ rfl
    | appendFile path content => exact hwrite path _ rfl
    | _ =>
      rw [answer_of_uninitialized dir (isInitialized_eq_false.mpr hr) rfl (by simp)]
      constructor
      · intro h
        cases h
        exact ⟨_, .repository hr rfl (by simp), rfl⟩
      · rintro ⟨m, hmiss, rfl⟩
        rw [(hmisses hmiss).1]
        rfl

/-! ## Replaying -/

/-- What commands do not find that are replayed on the workspace of a directory: the last call that they make
misses it. -/
def ReplayMisses (dir : String) (w : Workspace) (cs : List Command) (m : Missing) : Prop :=
  ∃ before c, (backend dir).made cs w = before ++ [c] ∧ Misses dir ((backend dir).leave before w) c m

theorem replay_eq_notFound (dir : String) (cs : List Command) (w : Workspace) :
    ((replay (backend dir) cs).runOn w).1 = .error (.notFound what) ↔
      ∃ m, ReplayMisses dir w cs m ∧ m.message = what := by
  have hlast (before : List Call) (c : Call) :
      ((backend dir).answer c ((backend dir).leave before w)).1 = .error (.notFound what) ↔
        ∃ m, Misses dir ((backend dir).leave before w) c m ∧ m.message = what := answer_eq_notFound dir c _
  rw [Backend.replay_error_iff]
  simp only [hlast]
  constructor
  · rintro ⟨before, c, hmade, m, hmiss, hwhat⟩
    exact ⟨m, ⟨before, c, hmade, hmiss⟩, hwhat⟩
  · rintro ⟨m, ⟨before, c, hmade, hmiss⟩, hwhat⟩
    exact ⟨before, c, hmade, m, hmiss, hwhat⟩

end Workspace

end Chronicle
