import Chronicle.Proofs.Workspace.Run
import Mathlib.Data.List.Induction

/-!
# Calls that fail

What a call that fails leaves is told by the call (`Workspace.Spared`). Where it makes commits and
references only, **everything is as it was**. A checkout keeps what is written down of the repository, and
everything where no files are checked out by halves (`Workspace.ChecksOutWhole`); a file that could not
be written leaves at most directories with no file in them.

Before an `init` was answered (`Workspace.Opened`) there is no repository, nothing but `init` makes one,
and a call that needs one fails and leaves everything as it was.
-/

namespace Chronicle

open Outcome

/-! ## Files that are not written -/

namespace FileTree

variable {t t' : FileTree}

/-- Nothing is new but directories on a way, and no file stands below them. -/
structure OnlyDirsOn (way : Path) (t t' : FileTree) : Prop where
  files : t'.files = t.files
  kept : ∀ q, t.isDir q = true → t'.isDir q = true
  new : ∀ q, t'.isDir q = true → t.isDir q = false → q ∈ way.parents ∧ t'.files.hasBelow q = false

theorem OnlyDirsOn.refl (way : Path) (t : FileTree) : OnlyDirsOn way t t where
  files := rfl
  kept _ hq := hq
  new q hq hnot := by
    rw [hq] at hnot
    cases hnot

/-- Files stand below directories only. -/
theorem Sound.hasBelow_eq_false (ht : t.Sound) {q : Path} (hq : t.isDir q = false) :
    t.files.hasBelow q = false := by
  apply Bool.eq_false_iff.mpr
  intro hbelow
  obtain ⟨p, hp, habove⟩ := PathMap.hasBelow_iff.mp hbelow
  have hne : q ≠ [] := by
    rintro rfl
    cases hq
  have hdir := ht.files p hp q (Path.mem_parents.mpr ⟨hne, habove⟩)
  rw [hq] at hdir
  cases hdir

theorem Sound.onlyDirsOn_makeDirs (ht : t.Sound) {p : Path} (hnames : ∀ s ∈ p, s ≠ "..") :
    OnlyDirsOn p t (FileTree.makeDirs p.dropLast t).2 := by
  unfold FileTree.makeDirs
  split
  · exact .refl p t
  · have hfiles := files_makeDirsFrom [] p.dropLast t
    refine ⟨hfiles, fun q hq => isDir_makeDirsFrom [] p.dropLast hq, ?_⟩
    intro q hq hnew
    have hup : ∀ s ∈ p.dropLast, s ≠ ".." := fun s hs => hnames s (List.dropLast_subset p hs)
    rcases isDir_of_makeDirsFrom hup hq with hold | ⟨_, hfront, hne, rfl⟩
    · rw [hold] at hnew
      cases hnew
    · -- what leads to the last name but not to its end stands above it
      have hshort : q.length < p.length := by
        have hle := hfront.length_le
        have hpos := List.length_pos_iff.mpr hne
        rw [List.length_dropLast] at hle
        omega
      have habove := Path.above_iff.mpr ⟨hfront.trans (List.dropLast_prefix p), hshort⟩
      refine ⟨Path.mem_parents.mpr ⟨hne, habove⟩, ?_⟩
      rw [hfiles]
      exact ht.hasBelow_eq_false hnew

/-- **A file that could not be written** leaves the files as they were, and maybe new directories on its
way. -/
theorem Sound.onlyDirsOn_of_write (ht : t.Sound) {text : String} {new : Option String → String}
    {e : IoFault} (hin : isInside text = true) (h : t.write text new = (.error e, t')) :
    OnlyDirsOn (Path.normal text) t t' := by
  have hmade := ht.onlyDirsOn_makeDirs (ne_up_of_isInside hin)
  unfold FileTree.write at h
  dsimp only at h
  split at h
  · rename_i e' t'' hdirs
    rw [hdirs] at hmade
    cases h
    exact hmade
  · rename_i t'' hdirs
    rw [hdirs] at hmade
    split at h
    · cases h
      exact hmade
    · cases h

end FileTree

/-- Files are checked out as a whole or not at all. -/
def Checkout.Whole (c : Checkout) (old new : Tree) : Prop :=
  ∀ e out, c.run old new = (.error e, out) → out = c

theorem Checkout.whole_iff {c : Checkout} {old new : Tree} :
    c.Whole old new ↔ (c.run old new).1.isOk = true ∨ (c.run old new).2 = c := by
  unfold Whole
  rcases h : c.run old new with ⟨_ | _, out⟩ <;> simp [Except.isOk, Except.toBool]

instance (c : Checkout) (old new : Tree) : Decidable (c.Whole old new) :=
  decidable_of_iff _ Checkout.whole_iff.symm

namespace Workspace

variable {dir : String} {tree : FileTree} {w w' : Workspace} {r : Repository} {calls : List Call}

/-! ## What a failed call leaves -/

/-- Where `reference` leads to a commit, its files are checked out as a whole or not at all. -/
def ChecksOutWhole (w : Workspace) (reference : String) : Prop :=
  ∀ r ∈ w.repository, Yields
    (fun id => Checkout.Whole ⟨w.tree, r.index⟩ (headTree r) (r.history.tree id)) (r.resolve reference)

instance (w : Workspace) (reference : String) : Decidable (w.ChecksOutWhole reference) :=
  inferInstanceAs (Decidable (∀ r ∈ w.repository, Yields _ _))

/-- What there is to be read of the repository when it is opened again. -/
def writtenDown (w : Workspace) : Option Repository := w.repository.map Repository.reopened

/-- What a call that fails may leave of `w`. A merge that may just move the head ahead is left out: it has
moved it when a file cannot be written. -/
def Spared (w w' : Workspace) : Call → Prop
  | .init _ | .currentBranch | .commit _ | .createBranch _ | .tag _ | .annotatedTag _ _
  | .merge _ _ false _ => w' = w
  | .stage _ => w'.tree = w.tree ∧ w'.writtenDown = w.writtenDown
  | .checkout reference => w'.writtenDown = w.writtenDown ∧ (w.ChecksOutWhole reference → w' = w)
  | .writeFile path _ | .appendFile path _ =>
    w'.repository = w.repository ∧ w.tree.OnlyDirsOn (Path.normal path) w'.tree
  | .merge _ _ true _ => True

theorem Spared.refl (w : Workspace) (c : Call) : Spared w w c := by
  cases c with
  | merge theirs info fastForward policy =>
    cases fastForward with
    | false => rfl
    | true => trivial
  | stage paths => exact ⟨rfl, rfl⟩
  | checkout reference => exact ⟨rfl, fun _ => rfl⟩
  | writeFile path content => exact ⟨rfl, .refl _ _⟩
  | appendFile path content => exact ⟨rfl, .refl _ _⟩
  | _ => rfl

theorem write_error (ht : w.tree.Sound) {path : String} {new : Option String → String}
    {e : RepositoryError} (h : w.write path new = (.error e, w')) :
    w'.repository = w.repository ∧ w.tree.OnlyDirsOn (Path.normal path) w'.tree := by
  unfold write at h
  split at h
  · cases h
    exact ⟨rfl, .refl _ _⟩
  · rename_i hin
    split at h
    · cases h
    · rename_i e' t hw
      cases h
      exact ⟨rfl, ht.onlyDirsOn_of_write (by simpa using hin) hw⟩

/-- Whatever comes of a call, if it is an error, the workspace is spared. -/
theorem Answers.spared {c : Call} {o : Outcome} (ht : w.tree.Sound) (hr : w.repository = some r)
    (ha : Answers w r c o) {e : RepositoryError} (he : o.1 = .error e) : Spared w o.2 c := by
  -- entries of the index that are not written down are lost when the repository is opened again
  have hdown (t : FileTree) (index : Tree) :
      ({ w with tree := t }.keep { r with index }).writtenDown = w.writtenDown := by
    simp [writtenDown, keep, hr, Repository.reopened]
  cases ha with
  | refused c e => exact .refl w c
  | stagedSome hs => exact ⟨rfl, hdown w.tree _⟩
  | turnedPartly hid hc =>
    refine ⟨hdown _ _, fun hwhole => ?_⟩
    cases hwhole r hr _ hid _ _ hc
    show { w with tree := w.tree, repository := some r } = w
    rw [← hr]
  | forwardedPartly hours htheirs hin hhist hm hc => trivial
  | @wroteNothing c path new tree e' hc hin hw =>
    have hspared := ht.onlyDirsOn_of_write hin hw
    cases c <;> cases hc <;> exact ⟨rfl, hspared⟩
  | _ => cases he

/-! ## Without a repository -/

theorem isInitialized_eq_false : w.isInitialized = false ↔ w.repository = none := by
  simp [isInitialized]

/-- A call that needs a repository fails where there is none, and leaves everything as it was. -/
theorem answer_of_uninitialized (dir : String) (h : w.isInitialized = false) {c : Call}
    (hwrites : written? c = none) (hinit : ∀ branch, c ≠ .init branch) :
    answer dir c w = (.error (noRepository dir), w) := by
  have hnone := isInitialized_eq_false.mp h
  cases c with
  | init branch => exact absurd rfl (hinit branch)
  | writeFile path content => cases hwrites
  | appendFile path content => cases hwrites
  | _ =>
    simp only [answer, hnone]
    rfl

/-- **Calls that fail spare the workspace**, with or without a repository in it. -/
theorem spared_of_error (ht : w.tree.Sound) {c : Call} {e : RepositoryError}
    (h : answer dir c w = (.error e, w')) : Spared w w' c := by
  cases hr : w.repository with
  | some r =>
    have hanswer := answer_answers dir hr c
    rw [h] at hanswer
    exact hanswer.spared ht hr rfl
  | none =>
    have hinit := isInitialized_eq_false.mpr hr
    cases c with
    | init branch =>
      have hans : w.init branch = (.error e, w') := h
      unfold init at hans
      split at hans
      · cases hans
        exact .refl w _
      · rw [hr] at hans
        cases hans
    | writeFile path content => exact write_error ht h
    | appendFile path content => exact write_error ht h
    | _ =>
      rw [answer_of_uninitialized dir hinit rfl (by simp)] at h
      cases h
      exact .refl w _

/-! ## Opening -/

/-- An `init` among the calls was answered. -/
def Opened (dir : String) (tree : FileTree) (calls : List Call) : Prop :=
  ∃ before branch after a, calls = before ++ .init branch :: after ∧
    (answer dir (.init branch) (run dir { tree } before)).1 = .ok a

/-- A repository is made by an `init` that is answered, and by no other call. -/
theorem isInitialized_answer (h : w.isInitialized = false) (c : Call) :
    (answer dir c w).2.isInitialized = true ↔ ∃ branch a, c = .init branch ∧ (answer dir c w).1 = .ok a := by
  have hnone := isInitialized_eq_false.mp h
  have hwrite (path : String) (new : Option String → String) :
      (w.write path new).2.isInitialized = false :=
    isInitialized_eq_false.mpr ((repository_write w path new).trans hnone)
  cases c with
  | init branch =>
    show (w.init branch).2.isInitialized = true ↔
      ∃ branch' a, Call.init branch = .init branch' ∧ (w.init branch).1 = .ok a
    unfold init
    split
    · simp [failed, h]
    · rw [hnone]
      simp [done, keep, isInitialized]
  | writeFile path content => simp [answer, hwrite]
  | appendFile path content => simp [answer, hwrite]
  | _ => rw [answer_of_uninitialized dir h rfl (by simp)]; simp [h]

theorem Reachable.isInitialized_run (hw : Reachable dir tree w) (h : w.isInitialized = true)
    (calls : List Call) : (Workspace.run dir w calls).isInitialized = true := by
  obtain ⟨r, hr⟩ := Option.isSome_iff_exists.mp h
  obtain ⟨r', hr', _⟩ := @run_sound dir w r hr (hw.sound hr) calls
  simp [isInitialized, hr']

/-- **There is a repository from the first `init` on that is answered.** By induction on the calls, the
last one taken off. -/
theorem isInitialized_run_iff (dir : String) (tree : FileTree) (calls : List Call) :
    (run dir { tree } calls).isInitialized = true ↔ Opened dir tree calls := by
  constructor
  · induction calls using List.reverseRecOn with
    | nil => intro h; cases h
    | append_singleton calls c ih =>
      intro h
      rw [run_append] at h
      cases hw : (run dir { tree } calls).isInitialized with
      | true =>
        obtain ⟨before, branch, after, a, rfl, hok⟩ := ih hw
        exact ⟨before, branch, after ++ [c], a, by simp, hok⟩
      | false =>
        obtain ⟨branch, a, rfl, hok⟩ := (isInitialized_answer hw c).mp h
        exact ⟨calls, branch, [], a, rfl, hok⟩
  · rintro ⟨before, branch, after, a, rfl, hok⟩
    have hstart : Reachable dir tree (run dir { tree } before) := ⟨before, rfl⟩
    rw [run_append]
    have hthere : (answer dir (.init branch) (run dir { tree } before)).2.isInitialized = true := by
      cases hw : (run dir { tree } before).isInitialized with
      | true => exact hstart.isInitialized_run hw [.init branch]
      | false => exact (isInitialized_answer hw _).mpr ⟨branch, a, rfl, hok⟩
    exact (hstart.answer (.init branch)).isInitialized_run hthere after

/-- **Calls that fail leave no trace.** Of a workspace that calls led to, every further call that fails
leaves what `Spared` says. It has a repository if and only if an `init` was answered; without one the
head is at no commit, and every call but `init` and the writing of files fails and changes nothing. -/
theorem failed_calls_leave_no_trace (ht : tree.Sound) (hw : run dir { tree } calls = w) :
    (∀ c e w', answer dir c w = (.error e, w') → Spared w w' c) ∧
      (w.isInitialized = true ↔ Opened dir tree calls) ∧
      (¬ Opened dir tree calls → w.headCommit = .ok none ∧
        ∀ c, written? c = none → (∀ branch, c ≠ .init branch) →
          answer dir c w = (.error (noRepository dir), w)) := by
  have hreach : Reachable dir tree w := ⟨calls, hw⟩
  have hopened : w.isInitialized = true ↔ Opened dir tree calls := by
    rw [← hw]
    exact isInitialized_run_iff dir tree calls
  refine ⟨fun c e w' h => spared_of_error (hreach.tree_sound ht) h, hopened, fun hnot => ?_⟩
  have hno : w.isInitialized = false := Bool.eq_false_iff.mpr fun h => hnot (hopened.mp h)
  refine ⟨?_, fun c => answer_of_uninitialized dir hno⟩
  simp [headCommit, isInitialized_eq_false.mp hno]

/-- A file of a branch is merged, which does not bring it into the working tree. -/
def joined : List Call :=
  [.init "main", .commit ⟨"one", "ann", "ann@mail"⟩, .createBranch "side", .checkout "side",
    .writeFile "a/b" "1", .stage .all, .commit ⟨"two", "ann", "ann@mail"⟩, .checkout "main",
    .merge "side" ⟨"three", "ann", "ann@mail"⟩ false .theirs]

/-- The next commit is without the file, which the branch changes. -/
def crossed : List Call :=
  joined ++ [.commit ⟨"four", "ann", "ann@mail"⟩, .checkout "side", .writeFile "a/b" "2", .stage .all,
    .commit ⟨"five", "ann", "ann@mail"⟩, .checkout "main"]

/-- A file is written where the merged one has its directory. -/
def overlaid : List Call := joined ++ [.writeFile "a" "3"]

/-- A file is written, and the `init` is refused. -/
def unopened : List Call := [.writeFile "x" "1", .init "ma\x00in"]

/-- A merge with a conflict, a checkout that finds a file in its way, a file that is written with a slash
at its end, and a commit without a repository. -/
theorem failed_calls_leave_no_trace_crossed :
    (∃ e, answer "." (.merge "side" ⟨"six", "ann", "ann@mail"⟩ false .fail) (run "." {} crossed) =
      (.error e, run "." {} crossed)) ∧
    (∃ e, answer "." (.checkout "main") (run "." {} overlaid) = (.error e, run "." {} overlaid)) ∧
    (∃ e w', answer "." (.writeFile "d/e/" "5") (run "." {} overlaid) = (.error e, w') ∧
      w' ≠ run "." {} overlaid ∧ (run "." {} overlaid).tree.OnlyDirsOn ["d", "e"] w'.tree) ∧
    ¬ Opened "." {} unopened ∧
    answer "." (.commit ⟨"one", "ann", "ann@mail"⟩) (run "." {} unopened) =
      (.error (noRepository "."), run "." {} unopened) := by
  have hrefused : ∃ e, (answer "." (.merge "side" ⟨"six", "ann", "ann@mail"⟩ false .fail)
      (run "." {} crossed)).1 = .error e := ⟨.conflict "side" ["a/b"], by decide +kernel⟩
  have hblocked : ∃ e, (answer "." (.checkout "main") (run "." {} overlaid)).1 = .error e :=
    ⟨.refused .general, by decide +kernel⟩
  have hslash : ∃ e, (answer "." (.writeFile "d/e/" "5") (run "." {} overlaid)).1 = .error e :=
    ⟨.io .isADirectory, by decide +kernel⟩
  have hwhole : (run "." {} overlaid).ChecksOutWhole "main" := by decide +kernel
  have hnew : (answer "." (.writeFile "d/e/" "5") (run "." {} overlaid)).2 ≠ run "." {} overlaid := by
    decide +kernel
  have hno : (run "." {} unopened).isInitialized = false := by decide +kernel
  obtain ⟨hcrossed, -, -⟩ := failed_calls_leave_no_trace .empty (rfl : run "." {} crossed = _)
  obtain ⟨hoverlaid, -, -⟩ := failed_calls_leave_no_trace .empty (rfl : run "." {} overlaid = _)
  obtain ⟨-, hopened, hunopened⟩ := failed_calls_leave_no_trace .empty (rfl : run "." {} unopened = _)
  have hnot : ¬ Opened "." {} unopened := by
    rw [← hopened, hno]
    exact Bool.false_ne_true
  refine ⟨?_, ?_, ?_, hnot, (hunopened hnot).2 _ rfl (by simp)⟩
  · obtain ⟨e, he⟩ := hrefused
    exact ⟨e, Prod.ext he (hcrossed _ e _ (Prod.ext he rfl))⟩
  · obtain ⟨e, he⟩ := hblocked
    exact ⟨e, Prod.ext he ((hoverlaid _ e _ (Prod.ext he rfl)).2 hwhole)⟩
  · obtain ⟨e, he⟩ := hslash
    refine ⟨e, _, Prod.ext he rfl, hnew, ?_⟩
    have hdirs := (hoverlaid _ e _ (Prod.ext he rfl)).2
    have hway : Path.normal "d/e/" = ["d", "e"] := by decide +kernel
    rw [hway] at hdirs
    exact hdirs

end Workspace

end Chronicle
