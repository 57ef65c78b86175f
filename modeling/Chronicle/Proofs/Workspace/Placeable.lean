import Chronicle.Proofs.Merge.Moved
import Chronicle.Proofs.Repository.RefName
import Chronicle.Proofs.Repository.Switch
import Chronicle.Proofs.Workspace.AppendOnly

/-!
# What can stand in a working tree

The files of the index and of every commit could stand in one working tree (`Repository.Placeable`): staging
takes away what could not stand beside a new entry, a checkout stages what it wrote, and a merge keeps only
what has nothing below it. The working tree stays tidy with them, so **a workspace that is reached from a tidy
working tree is `Workspace.Fit`** (`Workspace.Reachable.fit`). The names of references are such as can be written
(`Repository.Named`), **in every reachable workspace** (`Workspace.Reachable.named`).
-/

namespace Chronicle

open Outcome

/-! ## Trees -/

namespace Tree.Placeable

variable {m m' : Tree} {p : Path}

theorem of_has (hm : m.Placeable) (h : ∀ p, m'.has p = true → m.has p = true) : m'.Placeable :=
  ⟨fun p hp => hm.proper p (h p hp), fun p q hp hq => hm.not_above p q (h p hp) (h q hq)⟩

theorem restrict (hm : m.Placeable) (keep : Path → Bool) : Placeable (m.restrict keep) :=
  hm.of_has fun q hq => by
    rw [PathMap.has_restrict, Bool.and_eq_true] at hq
    exact hq.2

theorem displace (hm : m.Placeable) (hp : p.Proper) (content : String) : Placeable (m.displace p content) := by
  have hself : Path.above p p = false := Bool.eq_false_iff.mpr fun h => Nat.lt_irrefl _ (Path.above_iff.mp h).2
  have hhas (q : Path) : (m.displace p content).has q = true ↔
      q = p ∨ (Path.above p q = false ∧ Path.above q p = false ∧ m.has q = true) := by
    rw [PathMap.displace, PathMap.has_insert, PathMap.has_restrict]
    simp [and_assoc]
  constructor
  · intro q hq
    rcases (hhas q).mp hq with rfl | ⟨-, -, hq⟩
    · exact hp
    · exact hm.proper q hq
  · intro q q' hq hq'
    rcases (hhas q).mp hq with rfl | ⟨-, hqp, hq⟩
    · rcases (hhas q').mp hq' with rfl | ⟨hpq, -, -⟩
      · exact hself
      · exact hpq
    · rcases (hhas q').mp hq' with rfl | ⟨-, -, hq'⟩
      · exact hqp
      · exact hm.not_above q q' hq hq'

/-- What a merge keeps has nothing below it. -/
theorem of_resolve {merge : MergeIndex} {policy : Policy} {text : String} {merged : Tree}
    (h : merge.resolve policy text = .ok merged) (hproper : ∀ p, merged.has p = true → p.Proper) :
    merged.Placeable := by
  obtain ⟨files, rfl⟩ : ∃ files : Tree, merged = files.lowest := by
    unfold MergeIndex.resolve at h
    split at h
    · cases h
      exact ⟨_, rfl⟩
    · cases h
      exact ⟨_, rfl⟩
    · split at h
      · cases h
        exact ⟨_, rfl⟩
      · cases h
  refine ⟨hproper, fun p q hp hq => Bool.eq_false_iff.mpr fun habove => ?_⟩
  rw [PathMap.lowest, PathMap.has_restrict, Bool.and_eq_true, Bool.not_eq_true'] at hp hq
  rw [PathMap.hasBelow_iff.mpr ⟨q, hq.2, habove⟩] at hp
  cases hp.1

end Tree.Placeable

/-! ## Texts that are paths -/

theorem segments_proper (text : String) : Path.Proper (segments text) :=
  ⟨segments_ne_nil text, fun _ => slash_not_mem_segments⟩

/-- Writing a file keeps a tree tidy: no file is opened at the start. -/
theorem FileTree.Tidy.write {t : FileTree} (ht : t.Tidy) {text : String} (hin : isInside text = true)
    (new : Option String → String) : (t.write text new).2.Tidy := by
  refine ⟨ht.toSound.write hin new, nodup_write ht.nodup text new, ?_⟩
  have hmade (names : Path) : (makeDirs names t).2.files = t.files := by
    unfold makeDirs
    split
    · rfl
    · exact files_makeDirsFrom [] names t
  have hfiles := hmade (Path.normal text).dropLast
  intro p hp
  unfold FileTree.write at hp
  dsimp only at hp
  split at hp
  · rename_i e t' hdirs
    rw [hdirs] at hfiles
    exact ht.proper p (hfiles ▸ hp)
  · rename_i t' hdirs
    rw [hdirs] at hfiles
    split at hp
    · exact ht.proper p (hfiles ▸ hp)
    · rename_i hopen
      rw [PathMap.has_insert, Bool.or_eq_true, beq_iff_eq] at hp
      rcases hp with rfl | hp
      · refine ⟨fun hnil => ?_, fun s hs => slash_not_mem_segments (List.mem_filter.mp hs).1⟩
        have hdir := isDir_of_openFault hopen
        rw [hnil] at hdir
        cases hdir
      · exact ht.proper p (hfiles ▸ hp)

/-! ## Staging -/

section

variable {t : FileTree} {index next : Tree}

theorem stagePaths_placeable (ht : t.Tidy) (ps : List Path) (hindex : index.Placeable) :
    Tree.Placeable (stagePaths t ps index).2 := by
  induction ps generalizing index with
  | nil => exact hindex
  | cons p rest ih =>
    unfold stagePaths
    split
    · exact hindex
    · rename_i next hnext
      apply ih
      unfold stagePath at hnext
      split at hnext
      · cases hnext
        exact hindex.restrict _
      · rename_i content hfile
        split at hnext
        · cases hnext
          exact hindex.displace (ht.proper p (by rw [PathMap.has, hfile]; rfl)) content
        · cases hnext

theorem stageAll_placeable (ht : t.Tidy) (hindex : index.Placeable) :
    Tree.Placeable (stageAll t index).2 := by
  unfold stageAll
  split
  · exact hindex
  · exact stagePaths_placeable ht _ hindex

theorem stageFile_placeable {text : String} (hindex : index.Placeable) (h : stageFile t text index = .ok next) :
    next.Placeable := by
  unfold stageFile at h
  split at h
  · cases h
  · split at h
    · cases h
    · cases h
    · split at h
      · cases h
      · split at h
        · cases h
          exact hindex.displace (segments_proper text) _
        · cases h

end

/-! ## Checking out -/

theorem Checkout.run_placeable (old : Tree) {new : Tree} {c : Checkout} (hindex : c.index.Placeable)
    (hnew : new.Placeable) : Tree.Placeable (c.run old new).2.index := by
  have hwrites {ps : List Path} {c : Checkout} (hindex : c.index.Placeable) (hps : ∀ p ∈ ps, p.Proper) :
      Tree.Placeable (writeAll new ps c).2.index := by
    induction ps generalizing c with
    | nil => exact hindex
    | cons p rest ih =>
      obtain ⟨hp, hrest⟩ := List.forall_mem_cons.mp hps
      unfold writeAll
      split
      · exact hindex
      · rename_i next hnext
        refine ih ?_ hrest
        rw [(write_eq_some hnext).2]
        exact hindex.displace hp _
  rw [run_eq]
  apply hwrites
  · refine hindex.of_has fun q hq => ?_
    rw [PathMap.has, index_swept] at hq
    split at hq
    · cases hq
    · exact hq
  · exact fun p hp => hnew.proper p (has_of_mem_written hp)

/-! ## Repositories -/

namespace Repository

variable {r r' : Repository}

/-- The files of the index, as it is and as it was written, and those of every commit could stand in one
working tree. -/
structure Placeable (r : Repository) : Prop where
  index : r.index.Placeable
  saved : r.saved.Placeable
  commits : ∀ id, (r.history.tree id).Placeable

theorem Placeable.empty (branch : String) : (Repository.empty branch).Placeable :=
  ⟨.empty, .empty, fun _ => .empty⟩

theorem Placeable.withIndex (hr : r.Placeable) {index saved : Tree} (hindex : index.Placeable)
    (hsaved : saved.Placeable) : Placeable { r with index, saved } := ⟨hindex, hsaved, hr.commits⟩

/-- What the index has stays where no commit is added. -/
theorem Placeable.of_history (hr : r.Placeable) (hindex : r'.index = r.index) (hsaved : r'.saved = r.saved)
    (hhist : r'.history = r.history) : r'.Placeable :=
  ⟨hindex ▸ hr.index, hsaved ▸ hr.saved, hhist ▸ hr.commits⟩

theorem tree_add (h : History) (c : Commit) (id : CommitId) :
    (h.add c).tree id = if id = h.length then c.tree else h.tree id := by
  unfold History.tree
  rw [History.get?_add]
  split <;> rfl

theorem Recorded.placeable {c : Commit} (hrec : r.Recorded c r') (hr : r.Placeable)
    (hc : c.tree.Placeable) : r'.Placeable := by
  refine ⟨hrec.index ▸ hr.index, hrec.saved ▸ hr.saved, fun id => ?_⟩
  rw [hrec.history, tree_add]
  split
  · exact hc
  · exact hr.commits id

theorem Added.placeable {name : String} {new : Ref} (ha : r.Added name new r') (hr : r.Placeable) :
    r'.Placeable := hr.of_history ha.index ha.saved ha.history

/-- The names of references are such as can be looked up and written. -/
def Named (r : Repository) : Prop :=
  ∀ name ref, r.ref? name = some ref → RefName.normal? name = some name ∧ RefName.tooLong name = false

theorem Named.of_refs (hr : r.Named) (hrefs : ∀ name, r'.ref? name = r.ref? name) : r'.Named := by
  intro name ref href
  rw [hrefs] at href
  exact hr name ref href

theorem Named.setRef (hr : r.Named) (new : Ref) {name : String} (hnormal : RefName.normal? name = some name)
    (hshort : RefName.tooLong name = false) : (r.setRef name new).Named := by
  intro other ref href
  rw [ref?_setRef] at href
  split at href
  · rename_i heq
    exact heq ▸ ⟨hnormal, hshort⟩
  · exact hr other ref href

theorem Named.advance (hr : r.Named) {id : CommitId} (h : r.advance id = .ok r') : r'.Named := by
  unfold Repository.advance at h
  split at h
  · cases h
    exact hr
  · split at h
    · cases h
    · rename_i hname
      split at h
      · cases h
      · rename_i hshort
        cases h
        have hset := hr.setRef ⟨id, none⟩ (RefName.normal?_normal? hname) (Bool.eq_false_iff.mpr hshort)
        exact hset.of_refs fun other => by simp

theorem Named.record (hr : r.Named) {c : Commit} {id : CommitId} (h : r.record c = .ok (id, r')) : r'.Named := by
  unfold Repository.record at h
  obtain ⟨r₁, hadvance, hp⟩ := bind_eq_ok.mp h
  cases hp
  exact Named.advance (r := { r with history := r.history.add c }) hr hadvance

/-- The names of new references are, too. -/
theorem freshName_named {group text name : String} (h : r.freshName group text = .ok name) :
    RefName.normal? name = some name ∧ RefName.tooLong name = false := by
  refine ⟨RefName.normal?_normal? (freshName_spec h).1, ?_⟩
  unfold freshName at h
  repeat' split at h
  all_goals first
    | cases h; done
    | (rename_i hshort; cases h; exact Bool.eq_false_iff.mpr hshort)

theorem Named.addBranch (hr : r.Named) {text : String} {id : CommitId} (h : r.addBranch text id = .ok r') :
    r'.Named := by
  unfold Repository.addBranch at h
  obtain ⟨name, hname, hp⟩ := bind_eq_ok.mp h
  cases hp
  obtain ⟨hnormal, hshort⟩ := freshName_named hname
  exact (hr.setRef ⟨id, none⟩ hnormal hshort).of_refs fun other => by simp

theorem Named.addTag (hr : r.Named) {text : String} {id : CommitId} {note : Option TagNote}
    (h : r.addTag text id note = .ok r') : r'.Named := by
  unfold Repository.addTag at h
  obtain ⟨name, hname, hp⟩ := bind_eq_ok.mp h
  cases hp
  obtain ⟨hnormal, hshort⟩ := freshName_named hname
  exact hr.setRef _ hnormal hshort

end Repository

/-! ## Every call -/

namespace Workspace

variable {dir : String} {tree : FileTree} {w : Workspace} {r : Repository}

theorem headTree_placeable (hr : r.Placeable) : (headTree r).Placeable := by
  unfold headTree
  split
  · exact hr.commits _
  · exact .empty

/-- Whatever comes of a call, the files of the index and of the commits could stand in one working tree. -/
theorem Answers.placeable {c : Call} {o : Outcome} (h : w.repository = some r) (ht : w.tree.Tidy)
    (hr : r.Placeable) (ha : Answers w r c o) : ∃ r', o.2.repository = some r' ∧ r'.Placeable := by
  have hrun {old new : Tree} {a : Except Fault Unit} {co : Checkout} (hnew : new.Placeable)
      (hc : Checkout.run ⟨w.tree, r.index⟩ old new = (a, co)) : co.index.Placeable := by
    have hplaceable := Checkout.run_placeable old (c := ⟨w.tree, r.index⟩) hr.index hnew
    rw [hc] at hplaceable
    exact hplaceable
  cases ha with
  | refused c e => exact ⟨r, h, hr⟩
  | reopened branch => exact ⟨_, rfl, hr.withIndex hr.saved hr.saved⟩
  | told name => exact ⟨r, h, hr⟩
  | stagedAll hs =>
    have hstaged := stageAll_placeable ht hr.index
    rw [hs] at hstaged
    exact ⟨_, rfl, hr.withIndex hstaged hstaged⟩
  | stagedSome hs =>
    have hstaged := stageAll_placeable ht hr.index
    rw [hs] at hstaged
    exact ⟨_, rfl, hr.withIndex hstaged hr.saved⟩
  | stagedFile hs =>
    have hstaged := stageFile_placeable hr.index hs
    exact ⟨_, rfl, hr.withIndex hstaged hstaged⟩
  | committed hparent hparents htree hbears hrec => exact ⟨_, rfl, hrec.placeable hr (htree ▸ hr.index)⟩
  | branched hid hfull hadd => exact ⟨_, rfl, hadd.placeable hr⟩
  | tagged hid hfull hadd => exact ⟨_, rfl, hadd.placeable hr⟩
  | annotated hid hfull hname hmessage htagger hadd => exact ⟨_, rfl, hadd.placeable hr⟩
  | @turned reference id c hid hc =>
    have hindex := hrun (hr.commits id) hc
    exact ⟨_, rfl, hindex, hindex, hr.commits⟩
  | @turnedPartly reference id c e hid hc =>
    exact ⟨_, rfl, hr.withIndex (hrun (hr.commits id) hc) hr.saved⟩
  | contained hours htheirs hin => exact ⟨r, h, hr⟩
  | @forwarded reference info policy ours theirs r' c hours htheirs hin hhist hm hc =>
    rw [hm.index, hhist] at hc
    have hindex := hrun (hr.commits theirs) hc
    exact ⟨_, rfl, hindex, hindex, hhist ▸ hr.commits⟩
  | @forwardedPartly reference info policy ours theirs r' c e hours htheirs hin hhist hm hc =>
    rw [hm.index, hhist] at hc
    exact ⟨_, rfl, hrun (hr.commits theirs) hc, hm.saved ▸ hr.saved, hhist ▸ hr.commits⟩
  | @merged reference info fastForward policy ours theirs c r' hours htheirs hin hff hparents htree hbears
      hrec =>
    refine ⟨_, rfl, hrec.placeable hr (.of_resolve htree ?_)⟩
    -- a merge brings in no new path
    have hcommits (id : CommitId) (p : Path) (hp : (r.history.tree id).has p = true) : p.Proper :=
      (hr.commits id).proper p hp
    obtain ⟨hfiles, hconflicts⟩ := of_has_mergeTrees (P := Path.Proper) policy.favor false
      (of_has_baseTree hcommits policy.favor r.history.length (r.history.mergeBases [ours] theirs))
      (hcommits ours) (hcommits theirs)
    exact of_has_resolve hfiles hconflicts htree
  | wrote hc hin hw => exact ⟨r, h, hr⟩
  | wroteNothing hc hin hw => exact ⟨r, h, hr⟩

theorem write_tree_tidy (ht : w.tree.Tidy) (path : String) (new : Option String → String) :
    (w.write path new).2.tree.Tidy := by
  unfold write
  split
  · exact ht
  · rename_i hin
    have hwritten := ht.write (by simpa using hin) new
    split
    · rename_i t hw
      rw [hw] at hwritten
      exact hwritten
    · rename_i e t hw
      rw [hw] at hwritten
      exact hwritten

theorem Answers.tree_tidy {c : Call} {o : Outcome} (ht : w.tree.Tidy) (hr : r.Placeable) (ha : Answers w r c o) :
    o.2.tree.Tidy := by
  have hrun {r' : Repository} {old new : Tree} {a : Except Fault Unit} {co : Checkout} (hnew : new.Placeable)
      (hc : Checkout.run ⟨w.tree, r'.index⟩ old new = (a, co)) : co.tree.Tidy :=
    Checkout.run_tidy (c := ⟨w.tree, r'.index⟩) ht hnew hc
  have hwrite {path : String} {new : Option String → String} {a : Except IoFault Unit} {t : FileTree}
      (hin : FileTree.isInside path = true) (hw : w.tree.write path new = (a, t)) : t.Tidy := by
    have htidy := ht.write hin new
    rw [hw] at htidy
    exact htidy
  cases ha with
  | @turned reference id c hid hc => exact hrun (hr.commits id) hc
  | @turnedPartly reference id c e hid hc => exact hrun (hr.commits id) hc
  | @forwarded reference info policy ours theirs r' c hours htheirs hin hhist hm hc =>
    rw [hhist] at hc
    exact hrun (hr.commits theirs) hc
  | @forwardedPartly reference info policy ours theirs r' c e hours htheirs hin hhist hm hc =>
    rw [hhist] at hc
    exact hrun (hr.commits theirs) hc
  | wrote hc hin hw => exact hwrite hin hw
  | wroteNothing hc hin hw => exact hwrite hin hw
  | _ => exact ht

/-- A tidy working tree over files that could stand in one. -/
structure Fit (w : Workspace) : Prop where
  tree : w.tree.Tidy
  repository : ∀ r, w.repository = some r → r.Placeable

theorem Fit.answer (hw : w.Fit) (dir : String) (c : Call) : (Workspace.answer dir c w).2.Fit := by
  cases h : w.repository with
  | some r =>
    have ha := answer_answers dir h c
    obtain ⟨r', h', hr'⟩ := ha.placeable h hw.tree (hw.repository r h)
    refine ⟨ha.tree_tidy hw.tree (hw.repository r h), fun r'' h'' => ?_⟩
    rw [h'] at h''
    cases h''
    exact hr'
  | none =>
    constructor
    · cases c with
      | init branch =>
        show (w.init branch).2.tree.Tidy
        unfold init
        split
        · exact hw.tree
        · rw [h]
          exact hw.tree
      | writeFile path content => exact write_tree_tidy hw.tree path _
      | appendFile path content => exact write_tree_tidy hw.tree path _
      | _ =>
        simp only [Workspace.answer, h]
        exact hw.tree
    · intro r' h'
      rcases answer_of_none dir h c with hnone | ⟨branch, hsome⟩
      · rw [hnone] at h'
        cases h'
      · rw [hsome] at h'
        cases h'
        exact .empty branch

theorem Reachable.fit (hw : Reachable dir tree w) (ht : tree.Tidy) : w.Fit :=
  hw.keeps ⟨ht, fun _ h => nomatch h⟩ fun c _ hw => hw.answer dir c

theorem Reachable.placeable (hw : Reachable dir tree w) (ht : tree.Tidy) (h : w.repository = some r) :
    r.Placeable := (hw.fit ht).repository r h

theorem Reachable.tidy (hw : Reachable dir tree w) (ht : tree.Tidy) : w.tree.Tidy := (hw.fit ht).tree

/-! ## Names of references -/

theorem named_of_keep (hr : r.Named) :
    ∀ r₁, (w.keep r).repository = some r₁ → r₁.Named := by
  rintro r₁ h
  cases h
  exact hr

theorem named_of_same (h : w.repository = some r) (hr : r.Named) : ∀ r₁, w.repository = some r₁ → r₁.Named := by
  rintro r₁ h₁
  rw [h] at h₁
  cases h₁
  exact hr

theorem commit_named (h : w.repository = some r) (hr : r.Named) (info : CommitInfo) :
    ∀ r', (w.commit r info).2.repository = some r' → r'.Named := by
  unfold commit
  dsimp only
  split
  · rename_i r₁ hstep
    obtain ⟨c, -, hstep⟩ := bind_eq_ok.mp hstep
    obtain ⟨parent, -, hstep⟩ := bind_eq_ok.mp hstep
    obtain ⟨⟨id, r₂⟩, hrec, hstep⟩ := bind_eq_ok.mp hstep
    cases hstep
    exact named_of_keep (hr.record hrec)
  · exact named_of_same h hr

theorem createBranch_named (h : w.repository = some r) (hr : r.Named) (name : String) :
    ∀ r', (w.createBranch r name).2.repository = some r' → r'.Named := by
  unfold createBranch
  split
  · exact named_of_same h hr
  · split
    · rename_i r₁ hadd
      exact named_of_keep (hr.addBranch hadd)
    · exact named_of_same h hr

theorem tag_named (h : w.repository = some r) (hr : r.Named) (name : String) (info : Option CommitInfo) :
    ∀ r', (w.tag r name info).2.repository = some r' → r'.Named := by
  unfold tag
  split
  · exact named_of_same h hr
  · dsimp only
    split
    · rename_i r₁ hbind
      obtain ⟨note, -, hadd⟩ := bind_eq_ok.mp hbind
      exact named_of_keep (hr.addTag hadd)
    · exact named_of_same h hr

theorem merge_named (h : w.repository = some r) (hr : r.Named) (reference : String) (info : CommitInfo)
    (fastForward : Bool) (policy : Policy) :
    ∀ r', (w.merge r reference info fastForward policy).2.repository = some r' → r'.Named := by
  unfold merge
  dsimp only
  split
  · exact named_of_same h hr
  · split
    · exact named_of_same h hr
    · split
      · split
        · exact named_of_same h hr
        · rename_i r₁ hadvance
          have hnamed := hr.advance hadvance
          unfold checkOut
          split
          · exact named_of_keep (hnamed.of_refs fun _ => rfl)
          · exact named_of_keep (hnamed.of_refs fun _ => rfl)
      · unfold recordMerge
        split
        · exact named_of_same h hr
        · split
          · rename_i id r₁ hbind
            obtain ⟨c, -, hrec⟩ := bind_eq_ok.mp hbind
            exact named_of_keep (hr.record hrec)
          · exact named_of_same h hr

/-- Only commits, merges, branches and tags set references. -/
theorem answerIn_named (h : w.repository = some r) (hr : r.Named) (c : Call) :
    ∀ r', (w.answerIn r c).2.repository = some r' → r'.Named := by
  -- the other calls leave all references as they are
  have hstill (hmoves : c.movesHead = false) (hadd : c.addition? = none) :
      ∀ r', (w.answerIn r c).2.repository = some r' → r'.Named := by
    obtain ⟨r₁, h₁, hahead⟩ := (answerIn_answers h c).ahead h
    have hrefs (name : String) : r₁.ref? name = r.ref? name := by
      by_contra hne
      rcases hahead.changed name hne with ⟨hmoves', -⟩ | ⟨hadd', -⟩
      · rw [hmoves] at hmoves'
        cases hmoves'
      · rw [hadd] at hadd'
        cases hadd'
    exact named_of_same h₁ (hr.of_refs hrefs)
  cases c with
  | commit info => exact commit_named h hr info
  | createBranch name => exact createBranch_named h hr name
  | merge theirs info fastForward policy => exact merge_named h hr theirs info fastForward policy
  | tag name => exact tag_named h hr name none
  | annotatedTag name info => exact tag_named h hr name (some info)
  | _ => exact hstill rfl rfl

theorem Reachable.named (hw : Reachable dir tree w) (h : w.repository = some r) : r.Named := by
  refine hw.keeps (P := fun w => ∀ r, w.repository = some r → r.Named) ?_ ?_ r h
  · intro r h
    cases h
  · intro c w ih r' h'
    cases h : w.repository with
    | none =>
      rcases answer_of_none dir h c with hnone | ⟨branch, hsome⟩
      · rw [hnone] at h'
        cases h'
      · rw [hsome] at h'
        cases h'
        intro name ref href
        cases href
    | some r =>
      rw [answer_of_some dir h] at h'
      exact answerIn_named h (ih r h) c r' h'

end Workspace

end Chronicle
