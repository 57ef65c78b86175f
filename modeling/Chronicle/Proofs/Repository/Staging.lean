import Chronicle.Proofs.FileTree.Sound
import Chronicle.Repository.Index

/-!
# Staging everything

Staging goes over the paths at which index and tree differ. At each it makes the index agree with the
tree, and what a new entry takes the place of is a path where the tree has no file, since no file lies
above another (`stagePath_agrees`). So **once all is staged the index is the tree**, whatever it was
before (`stageAll_agrees`), as long as no file says what is to be ignored (`FileTree.Unruled`) and an
index takes the paths of all files (`FileTree.Stageable`).
-/

namespace Chronicle

/-! ## Trees without rules -/

/-- No file of the tree lists what is ignored or gives attributes to others. -/
def FileTree.Unruled (t : FileTree) : Prop :=
  ∀ p, t.files.has p = true →
    p.getLast? ≠ some IgnoreRule.fileName ∧ p.getLast? ≠ some ".gitattributes"

/-- An index takes the paths of all files. -/
def FileTree.Stageable (t : FileTree) : Prop :=
  ∀ p, t.files.has p = true → p.isStageable = true

namespace FileTree

variable {t : FileTree}

instance (t : FileTree) : Decidable t.Unruled :=
  decidable_of_iff (∀ p ∈ t.files.paths,
    p.getLast? ≠ some IgnoreRule.fileName ∧ p.getLast? ≠ some ".gitattributes")
    (by simp [Unruled, PathMap.mem_paths])

instance (t : FileTree) : Decidable t.Stageable :=
  decidable_of_iff (∀ p ∈ t.files.paths, p.isStageable = true)
    (by simp [Stageable, PathMap.mem_paths])

theorem Unruled.verdict_eq_none (ht : t.Unruled) (p : Path) (isDir : Bool) :
    t.verdict p isDir = none := by
  unfold verdict
  rw [List.findSome?_eq_none_iff]
  intro dir _
  have hnone : t.files.get? (dir ++ [IgnoreRule.fileName]) = none := by
    cases h : t.files.get? (dir ++ [IgnoreRule.fileName]) with
    | none => rfl
    | some text =>
      have hhas : t.files.has (dir ++ [IgnoreRule.fileName]) = true := by
        rw [PathMap.has, h]
        rfl
      exact absurd List.getLast?_concat (ht _ hhas).1
  unfold verdictOf
  rw [hnone]

/-- Without rules nothing is ignored. -/
theorem Unruled.isIgnored_eq_false (ht : t.Unruled) (p : Path) (isDir : Bool) :
    t.isIgnored p isDir = false := by
  have hfold (dirs : List Path) :
      dirs.foldl (fun lot dir => (t.verdict dir true).getD lot) false = false := by
    induction dirs with
    | nil => rfl
    | cons dir rest ih => rw [List.foldl_cons, ht.verdict_eq_none, Option.getD_none, ih]
  unfold isIgnored
  dsimp only
  rw [ht.verdict_eq_none, hfold]
  rfl

end FileTree

/-- The name of a repository's own directory is reserved, in whatever case. -/
theorem isReserved_of_isOwnName {s : String} (h : isOwnName s = true) : isReserved s = true := by
  have hlower : s.toList.map Char.toLower = ['.', 'g', 'i', 't'] := by
    have heq : s.map Char.toLower = ".git" := beq_iff_eq.mp h
    rw [← String.toList_map, heq]
    rfl
  have hlen : s.toList.length = 4 := by
    rw [← List.length_map Char.toLower, hlower]
    rfl
  have hdrop : s.toList.drop ".git".length = [] := by
    rw [List.drop_eq_nil_iff, hlen]
    decide
  simp [isReserved, hlower, hdrop]

theorem Path.isOwnName_eq_false {p : Path} (h : p.isStageable = true) : p.any isOwnName = false := by
  rw [List.any_eq_false]
  intro s hs hown
  have hfit := List.all_eq_true.mp h s hs
  rw [isReserved_of_isOwnName hown, Bool.not_true, Bool.and_false] at hfit
  cases hfit

/-! ## The paths to go over -/

section

variable {t : FileTree} {index : Tree}

/-- Nothing keeps a file from being staged that an index takes. -/
theorem FileTree.Unruled.isNew (ht : t.Unruled) {p : Path} (hp : p.isStageable = true) :
    t.isNew index p = true := by
  simp only [FileTree.isNew, FileTree.isReached, ht.isIgnored_eq_false, Path.isOwnName_eq_false hp]
  simp

theorem FileTree.Unruled.mem_changes (ht : t.Unruled) (hpaths : t.Stageable) {p : Path}
    (hne : index.get? p ≠ t.files.get? p) : p ∈ t.changes index := by
  unfold FileTree.changes
  rw [List.mem_filter, Path.mem_sorted, List.mem_append, PathMap.mem_paths, PathMap.mem_paths]
  cases hold : index.get? p with
  | none =>
    cases hnew : t.files.get? p with
    | none => exact absurd (hold.trans hnew.symm) hne
    | some content =>
      have hfile : t.files.has p = true := by simp [PathMap.has, hnew]
      exact ⟨.inr hfile, ht.isNew (hpaths p hfile)⟩
  | some old =>
    refine ⟨.inl (by simp [PathMap.has, hold]), ?_⟩
    cases hnew : t.files.get? p with
    | none => rfl
    | some content =>
      rw [hold, hnew] at hne
      simpa using hne

/-! ## Going over them -/

/-- At the path itself the index comes to agree with the tree; elsewhere it stays, or agrees too. -/
theorem stagePath_agrees (ht : t.Sound) {p : Path} {next : Tree} (hs : stagePath t p index = .ok next)
    (q : Path) :
    next.get? q = t.files.get? q ∨ q ≠ p ∧ next.get? q = index.get? q := by
  unfold stagePath at hs
  cases hp : t.files.get? p with
  | none =>
    simp only [hp] at hs
    cases hs
    rw [PathMap.get?_erase]
    by_cases hq : q = p
    · rw [if_pos hq, hq, hp]
      exact .inl rfl
    · rw [if_neg hq]
      exact .inr ⟨hq, rfl⟩
  | some content =>
    simp only [hp] at hs
    split at hs
    · cases hs
      rw [PathMap.get?_displace]
      by_cases hq : q = p
      · rw [if_pos hq, hq, hp]
        exact .inl rfl
      · rw [if_neg hq]
        split
        · -- what lies above or below a file is no file
          rename_i hnear
          left
          cases hfile : t.files.get? q with
          | none => rfl
          | some other =>
            have hhasp : t.files.has p = true := by simp [PathMap.has, hp]
            have hhasq : t.files.has q = true := by simp [PathMap.has, hfile]
            rw [ht.not_above hhasp hhasq, ht.not_above hhasq hhasp] at hnear
            cases hnear
        · exact .inr ⟨hq, rfl⟩
    · cases hs

/-- By induction on the paths: those at which index and tree differ are among those still to come. -/
theorem stagePaths_agrees (ht : t.Sound) {ps : List Path} {index' : Tree}
    (hdiffer : ∀ q, index.get? q ≠ t.files.get? q → q ∈ ps)
    (hs : stagePaths t ps index = (.ok (), index')) (q : Path) :
    index'.get? q = t.files.get? q := by
  induction ps generalizing index with
  | nil =>
    cases hs
    by_cases hq : index'.get? q = t.files.get? q
    · exact hq
    · exact absurd (hdiffer q hq) List.not_mem_nil
  | cons p rest ih =>
    unfold stagePaths at hs
    cases hp : stagePath t p index with
    | error e =>
      rw [hp] at hs
      cases hs
    | ok next =>
      rw [hp] at hs
      refine ih ?_ hs
      intro q' hq'
      -- a path that still differs was left alone, so it was to come and is not `p`
      rcases stagePath_agrees ht hp q' with hagree | ⟨hne, hsame⟩
      · exact absurd hagree hq'
      · rw [hsame] at hq'
        rcases List.mem_cons.mp (hdiffer q' hq') with rfl | hmem
        · exact absurd rfl hne
        · exact hmem

/-- **Once everything is staged the index is the tree.** -/
theorem stageAll_agrees (ht : t.Sound) (hrules : t.Unruled) (hpaths : t.Stageable) {index' : Tree}
    (hs : stageAll t index = (.ok (), index')) (q : Path) : index'.get? q = t.files.get? q := by
  unfold stageAll at hs
  split at hs
  · cases hs
  · exact stagePaths_agrees ht (fun _ hne => hrules.mem_changes hpaths hne) hs q

end

end Chronicle
