import Chronicle.Proofs.Replay.Basic
import Chronicle.Proofs.Repository.Checkout
import Chronicle.Proofs.Workspace.Calls

/-!
# Runs

Calls follow one another on a workspace, whatever they answer (`Workspace.run`), starting from a working
tree without a repository (`Workspace.Reachable`). Commands that are replayed get no further than calls
do (`Workspace.Reachable.replay`).

What one call keeps, a whole run keeps: **a sound repository stays sound and its history only grows**
(`Workspace.run_sound`), every repository that a workspace comes to have is sound
(`Workspace.Reachable.sound`), and so is its working tree if it was at the start
(`Workspace.Reachable.tree_sound`).
-/

namespace Chronicle.Workspace

/-- The workspace that some calls leave, made one after the other. -/
def run (dir : String) (w : Workspace) : List Call → Workspace
  | [] => w
  | c :: rest => run dir (answer dir c w).2 rest

/-- Whether some calls lead to a workspace from a working tree that holds no repository. -/
def Reachable (dir : String) (tree : FileTree) (w : Workspace) : Prop :=
  ∃ calls, run dir { tree } calls = w

variable {dir : String} {tree : FileTree} {w : Workspace} {r : Repository}

theorem run_append (w : Workspace) (before after : List Call) :
    run dir w (before ++ after) = run dir (run dir w before) after := by
  induction before generalizing w with
  | nil => rfl
  | cons c rest ih => exact ih _

theorem Reachable.start (dir : String) (tree : FileTree) : Reachable dir tree { tree } := ⟨[], rfl⟩

theorem Reachable.run (hw : Reachable dir tree w) (calls : List Call) :
    Reachable dir tree (Workspace.run dir w calls) := by
  obtain ⟨before, rfl⟩ := hw
  exact ⟨before ++ calls, run_append _ before calls⟩

theorem Reachable.answer (hw : Reachable dir tree w) (c : Call) :
    Reachable dir tree (Workspace.answer dir c w).2 := hw.run [c]

/-- Commands that are replayed are calls in a row. -/
theorem Reachable.replay (hw : Reachable dir tree w) (cs : List Command) :
    Reachable dir tree ((Chronicle.replay (backend dir) cs).runOn w).2 :=
  replay_keeps (fun c _ hs => hs.answer c) cs w hw

/-- What the start has and every call keeps, every reachable workspace has. -/
theorem Reachable.keeps {P : Workspace → Prop} (hw : Reachable dir tree w) (hstart : P { tree })
    (hstep : ∀ c w, P w → P (Workspace.answer dir c w).2) : P w := by
  obtain ⟨calls, rfl⟩ := hw
  have hrun (calls : List Call) (w : Workspace) (hw : P w) : P (Workspace.run dir w calls) := by
    induction calls generalizing w with
    | nil => exact hw
    | cons c rest ih => exact ih _ (hstep c w hw)
  exact hrun calls { tree } hstart

/-! ## Without a repository -/

/-- Files are written without a repository being touched. -/
theorem repository_write (w : Workspace) (path : String) (new : Option String → String) :
    (w.write path new).2.repository = w.repository := by
  unfold write
  split
  · rfl
  · split <;> rfl

/-- Before the first `init` there is no repository, and with it there is an empty one. -/
theorem answer_of_none (dir : String) (h : w.repository = none) (c : Call) :
    (answer dir c w).2.repository = none ∨
      ∃ branch, (answer dir c w).2.repository = some (.empty branch) := by
  cases c with
  | init branch =>
    show (w.init branch).2.repository = none ∨ ∃ branch', (w.init branch).2.repository = some _
    unfold init
    split
    · exact .inl h
    · rw [h]
      exact .inr ⟨branch, rfl⟩
  | writeFile path content => exact .inl ((repository_write w path _).trans h)
  | appendFile path content => exact .inl ((repository_write w path _).trans h)
  | _ =>
    -- every other call needs a repository
    left
    simp only [answer, h]
    exact h

/-! ## Soundness -/

/-- Whatever comes of a call, the repository stays sound and its history only grows. -/
theorem Answers.sound {c : Call} {o : Outcome} (h : w.repository = some r) (hr : r.Sound)
    (ha : Answers w r c o) :
    ∃ r', o.2.repository = some r' ∧ r'.Sound ∧ r.history <:+ r'.history := by
  cases ha with
  | refused c e => exact ⟨r, h, hr, List.suffix_refl _⟩
  | reopened branch => exact ⟨_, rfl, hr.withIndex _ _, List.suffix_refl _⟩
  | told name => exact ⟨r, h, hr, List.suffix_refl _⟩
  | stagedAll hs => exact ⟨_, rfl, hr.withIndex _ _, List.suffix_refl _⟩
  | stagedSome hs => exact ⟨_, rfl, hr.withIndex _ _, List.suffix_refl _⟩
  | stagedFile hs => exact ⟨_, rfl, hr.withIndex _ _, List.suffix_refl _⟩
  | @committed info parent c r' hparent hparents htree hbears hrec =>
    refine ⟨r', rfl, hrec.sound hr ?_, ?_⟩
    · -- the only parent is where the head was, if it was anywhere
      intro p hp
      rw [hparents] at hp
      rw [Option.mem_toList] at hp
      cases hp
      exact hr.headCommit_lt hparent
    · rw [hrec.history]
      exact History.suffix_add r.history c
  | @branched name full id r' hid hfull ha =>
    exact ⟨r', rfl, ha.sound hr (hr.headCommit_lt hid), History.suffix_of_eq ha.history⟩
  | @tagged name full id r' hid hfull ha =>
    exact ⟨r', rfl, ha.sound hr (hr.headCommit_lt hid), History.suffix_of_eq ha.history⟩
  | @annotated name full info id note r' hid hfull hname hmessage htagger ha =>
    exact ⟨r', rfl, ha.sound hr (hr.headCommit_lt hid), History.suffix_of_eq ha.history⟩
  | @turned reference id c hid hc =>
    have hlt : id < r.history.length := Repository.resolve_lt hr reference id hid
    refine ⟨_, rfl, (hr.withIndex c.index c.index).turn hlt ?_, List.suffix_refl _⟩
    -- a head that is attached to a branch names no commit itself
    intro other hother
    unfold nextHead at hother
    split at hother
    · cases hother
    · cases hother
      rfl
  | turnedPartly hid hc => exact ⟨_, rfl, hr.withIndex _ _, List.suffix_refl _⟩
  | contained hours htheirs hin => exact ⟨r, h, hr, List.suffix_refl _⟩
  | @forwarded reference info policy ours theirs r' c hours htheirs hin hhist hm hc =>
    have hlt : theirs < r.history.length := Repository.resolve_lt hr reference theirs htheirs
    exact ⟨_, rfl, (hm.sound_of_same hr hhist hlt).withIndex c.index c.index,
      History.suffix_of_eq hhist⟩
  | @forwardedPartly reference info policy ours theirs r' c e hours htheirs hin hhist hm hc =>
    have hlt : theirs < r.history.length := Repository.resolve_lt hr reference theirs htheirs
    exact ⟨_, rfl, (hm.sound_of_same hr hhist hlt).withIndex c.index r'.saved,
      History.suffix_of_eq hhist⟩
  | @merged reference info fastForward policy ours theirs c r' hours htheirs hin hff hparents htree
      hbears hrec =>
    have hlt : theirs < r.history.length := Repository.resolve_lt hr reference theirs htheirs
    refine ⟨r', rfl, hrec.sound hr ?_, ?_⟩
    · intro p hp
      rw [hparents, List.mem_cons, List.mem_singleton] at hp
      rcases hp with rfl | rfl
      · exact hr.headCommit_lt hours
      · exact hlt
    · rw [hrec.history]
      exact History.suffix_add r.history c
  | wrote hc hin hw => exact ⟨r, h, hr, List.suffix_refl _⟩
  | wroteNothing hc hin hw => exact ⟨r, h, hr, List.suffix_refl _⟩

theorem run_sound (h : w.repository = some r) (hr : r.Sound) (calls : List Call) :
    ∃ r', (run dir w calls).repository = some r' ∧ r'.Sound ∧ r.history <:+ r'.history := by
  induction calls generalizing w r with
  | nil => exact ⟨r, h, hr, List.suffix_refl _⟩
  | cons c rest ih =>
    obtain ⟨r', h', hr', hgrown⟩ := (answer_answers dir h c).sound h hr
    obtain ⟨r'', h'', hr'', hgrown'⟩ := ih h' hr'
    exact ⟨r'', h'', hr'', hgrown.trans hgrown'⟩

theorem Reachable.sound (hw : Reachable dir tree w) (h : w.repository = some r) : r.Sound := by
  refine hw.keeps (P := fun w => ∀ r, w.repository = some r → r.Sound) ?_ ?_ r h
  · intro r h
    cases h
  · intro c w ih r' h'
    cases h : w.repository with
    | none =>
      rcases answer_of_none dir h c with hnone | ⟨branch, hsome⟩
      · rw [hnone] at h'
        cases h'
      · rw [hsome] at h'
        cases h'
        exact .empty branch
    | some r =>
      obtain ⟨r'', h'', hr'', _⟩ := (answer_answers dir h c).sound h (ih r h)
      rw [h''] at h'
      cases h'
      exact hr''

/-! ## The working tree -/

theorem write_tree_sound (ht : w.tree.Sound) (path : String) (new : Option String → String) :
    (w.write path new).2.tree.Sound := by
  unfold write
  split
  · exact ht
  · rename_i hin
    have hwritten := ht.write (by simpa using hin) new
    split
    · rename_i t hw
      rw [hw] at hwritten
      exact hwritten
    · rename_i e t hw
      rw [hw] at hwritten
      exact hwritten

/-- Files are written and checked out; all other calls leave the working tree as it is. -/
theorem Answers.tree_sound {c : Call} {o : Outcome} (ht : w.tree.Sound) (ha : Answers w r c o) :
    o.2.tree.Sound := by
  have hrun {r : Repository} {old new : Tree} {a : Except Fault Unit} {co : Checkout}
      (hc : Checkout.run ⟨w.tree, r.index⟩ old new = (a, co)) : co.tree.Sound := by
    have hsound := Checkout.run_sound (c := ⟨w.tree, r.index⟩) ht old new
    rw [hc] at hsound
    exact hsound
  have hwrite {path : String} {new : Option String → String} {a : Except IoFault Unit}
      {t : FileTree} (hin : FileTree.isInside path = true) (hw : w.tree.write path new = (a, t)) :
      t.Sound := by
    have hsound := ht.write hin new
    rw [hw] at hsound
    exact hsound
  cases ha with
  | turned hid hc => exact hrun hc
  | turnedPartly hid hc => exact hrun hc
  | forwarded hours htheirs hin hhist hm hc => exact hrun hc
  | forwardedPartly hours htheirs hin hhist hm hc => exact hrun hc
  | wrote hc hin hw => exact hwrite hin hw
  | wroteNothing hc hin hw => exact hwrite hin hw
  | _ => exact ht

theorem answer_tree_sound (dir : String) (hw : w.tree.Sound) (c : Call) :
    (Workspace.answer dir c w).2.tree.Sound := by
  cases h : w.repository with
  | some r => exact (answer_answers dir h c).tree_sound hw
  | none =>
    cases c with
    | init branch =>
      show (w.init branch).2.tree.Sound
      unfold init
      split
      · exact hw
      · rw [h]
        exact hw
    | writeFile path content => exact write_tree_sound hw path _
    | appendFile path content => exact write_tree_sound hw path _
    | _ =>
      simp only [Workspace.answer, h]
      exact hw

theorem Reachable.tree_sound (hw : Reachable dir tree w) (ht : tree.Sound) : w.tree.Sound :=
  hw.keeps (P := fun w => w.tree.Sound) ht fun c _ hw => answer_tree_sound dir hw c

end Chronicle.Workspace
