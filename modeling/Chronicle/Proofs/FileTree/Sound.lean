import Chronicle.Proofs.FileTree.Paths

/-!
# Sound file trees

In a sound tree (`FileTree.Sound`) every place on the way to a file or a directory is a directory, and
no file is one; so **no file lies above another** (`FileTree.Sound.not_above`).

Each way to change a tree keeps it sound: making directories, writing a file (`FileTree.Sound.write`),
taking away what stands at a path (`FileTree.Sound.remove`).
-/

namespace Chronicle.FileTree

/-- Files stand in directories, and these in others, and nothing is both. -/
structure Sound (t : FileTree) : Prop where
  apart : ∀ p, t.files.has p = true → t.isDir p = false
  files : ∀ p, t.files.has p = true → ∀ d ∈ p.parents, t.isDir d = true
  dirs : ∀ p, t.isDir p = true → ∀ d ∈ p.parents, t.isDir d = true

variable {t : FileTree} {p q dir : Path}

theorem isDir_iff : t.isDir p = true ↔ p = [] ∨ p ∈ t.dirs := by
  simp [isDir]

theorem nothingBelow_iff : t.nothingBelow dir = true ↔
    (∀ p, t.files.has p = true → Path.above dir p = false) ∧ ∀ p ∈ t.dirs, Path.above dir p = false := by
  simp only [nothingBelow, Bool.and_eq_true, Bool.not_eq_true', List.any_eq_false, Bool.not_eq_true]
  refine and_congr_left fun _ => ?_
  rw [← Bool.not_eq_true, PathMap.hasBelow_iff]
  simp

theorem Sound.empty : Sound {} := by
  refine ⟨?_, ?_, ?_⟩
  · intro p hp
    cases hp
  · intro p hp
    cases hp
  · intro p hp d hd
    rcases isDir_iff.mp hp with rfl | hp
    · cases hd
    · cases hp

/-- Of two files neither lies above the other. -/
theorem Sound.not_above (ht : t.Sound) (hp : t.files.has p = true) (hq : t.files.has q = true) :
    Path.above p q = false := by
  by_cases hne : p = []
  · -- the start is a directory
    have hroot := ht.apart p hp
    rw [hne] at hroot
    cases hroot
  · apply Bool.eq_false_iff.mpr
    intro habove
    have hdir := ht.files q hq p (Path.mem_parents.mpr ⟨hne, habove⟩)
    rw [ht.apart p hp] at hdir
    cases hdir

/-! ## Adding -/

@[simp] theorem files_addDir (t : FileTree) (p : Path) : (t.addDir p).files = t.files := by
  unfold addDir
  split <;> rfl

theorem isDir_addDir : (t.addDir p).isDir q = true ↔ t.isDir q = true ∨ q = p := by
  unfold addDir
  split
  · rename_i hp
    constructor
    · exact .inl
    · rintro (hq | rfl)
      · exact hq
      · exact hp
  · simp only [isDir_iff, List.mem_append, List.mem_singleton]
    exact or_assoc.symm

theorem Sound.addDir (ht : t.Sound) (hfile : t.files.has p = false)
    (hparents : ∀ d ∈ p.parents, t.isDir d = true) : (t.addDir p).Sound := by
  refine ⟨?_, ?_, ?_⟩
  · intro q hq
    rw [files_addDir] at hq
    apply Bool.eq_false_iff.mpr
    intro hdir
    rcases isDir_addDir.mp hdir with hdir | rfl
    · rw [ht.apart q hq] at hdir
      cases hdir
    · rw [hq] at hfile
      cases hfile
  · intro q hq d hd
    rw [files_addDir] at hq
    exact isDir_addDir.mpr (.inl (ht.files q hq d hd))
  · intro q hq d hd
    apply isDir_addDir.mpr
    rcases isDir_addDir.mp hq with hq | rfl
    · exact .inl (ht.dirs q hq d hd)
    · exact .inl (hparents d hd)

theorem files_foldl_addDir (ps : List Path) (t : FileTree) :
    (ps.foldl FileTree.addDir t).files = t.files := by
  induction ps generalizing t with
  | nil => rfl
  | cons p rest ih => rw [List.foldl_cons, ih, files_addDir]

theorem isDir_foldl_addDir {ps : List Path} {t : FileTree} :
    (ps.foldl FileTree.addDir t).isDir q = true ↔ t.isDir q = true ∨ q ∈ ps := by
  induction ps generalizing t with
  | nil => simp
  | cons p rest ih =>
    rw [List.foldl_cons, ih, isDir_addDir, List.mem_cons]
    exact or_assoc

/-- A file may be put where no directory is, if all around it are there. -/
theorem Sound.insert (ht : t.Sound) (hdir : t.isDir p = false)
    (hparents : ∀ d ∈ p.parents, t.isDir d = true) (content : String) :
    Sound { t with files := t.files.insert p content } := by
  refine ⟨?_, ?_, ht.dirs⟩
  · intro q hq
    rw [PathMap.has_insert, Bool.or_eq_true, beq_iff_eq] at hq
    rcases hq with rfl | hq
    · exact hdir
    · exact ht.apart q hq
  · intro q hq
    rw [PathMap.has_insert, Bool.or_eq_true, beq_iff_eq] at hq
    rcases hq with rfl | hq
    · exact hparents
    · exact ht.files q hq

/-- A file may be added with the directories around it if none of these is a file. -/
theorem Sound.addFile (ht : t.Sound) (hdir : t.isDir p = false)
    (hfiles : ∀ d ∈ p.parents, t.files.has d = false) (content : String) :
    (t.addFile p content).Sound := by
  have haround : Sound (p.parents.foldl FileTree.addDir t) := by
    refine ⟨?_, ?_, ?_⟩
    · intro q hq
      rw [files_foldl_addDir] at hq
      apply Bool.eq_false_iff.mpr
      intro hqdir
      -- a directory was one before or was made for the new file
      rcases isDir_foldl_addDir.mp hqdir with hqdir | hmem
      · rw [ht.apart q hq] at hqdir
        cases hqdir
      · rw [hfiles q hmem] at hq
        cases hq
    · intro q hq d hd
      rw [files_foldl_addDir] at hq
      exact isDir_foldl_addDir.mpr (.inl (ht.files q hq d hd))
    · intro q hq d hd
      apply isDir_foldl_addDir.mpr
      rcases isDir_foldl_addDir.mp hq with hq | hmem
      · exact .inl (ht.dirs q hq d hd)
      · exact .inr (Path.mem_parents_trans hd hmem)
  apply haround.insert
  · apply Bool.eq_false_iff.mpr
    intro hp
    rcases isDir_foldl_addDir.mp hp with hp | hmem
    · rw [hdir] at hp
      cases hp
    · exact Path.not_mem_parents_self p hmem
  · intro d hd
    exact isDir_foldl_addDir.mpr (.inr hd)

/-! ## Writing -/

theorem files_makeDirsFrom (base : Path) (names : List String) (t : FileTree) :
    (makeDirsFrom base names t).2.files = t.files := by
  induction names generalizing base t with
  | nil => rfl
  | cons s rest ih =>
    unfold makeDirsFrom
    dsimp only
    split
    · exact ih _ _
    · split
      · rfl
      · split
        · rfl
        · rw [ih, files_addDir]

theorem isDir_makeDirsFrom (base : Path) (names : List String) (h : t.isDir q = true) :
    (makeDirsFrom base names t).2.isDir q = true := by
  induction names generalizing base t with
  | nil => exact h
  | cons s rest ih =>
    unfold makeDirsFrom
    dsimp only
    split
    · exact ih _ h
    · split
      · exact h
      · split
        · exact h
        · exact ih _ (isDir_addDir.mpr (.inl h))

/-- Only what the names lead through becomes a directory. -/
theorem isDir_of_makeDirsFrom {base : Path} {names : List String} (hnames : ∀ s ∈ names, s ≠ "..")
    (h : (makeDirsFrom base names t).2.isDir q = true) :
    t.isDir q = true ∨ ∃ front, front <+: names ∧ front ≠ [] ∧ q = base ++ front := by
  induction names generalizing base t with
  | nil => exact .inl h
  | cons s rest ih =>
    obtain ⟨hs, hrest⟩ := List.forall_mem_cons.mp hnames
    unfold makeDirsFrom at h
    dsimp only at h
    rw [if_neg (by simpa using hs)] at h
    split at h
    · exact .inl h
    · split at h
      · exact .inl h
      · rcases ih hrest h with hold | ⟨front, hfront, _, rfl⟩
        · rcases isDir_addDir.mp hold with hold | rfl
          · exact .inl hold
          · exact .inr ⟨[s], by simp, by simp, rfl⟩
        · exact .inr ⟨s :: front, List.cons_prefix_cons.mpr ⟨rfl, hfront⟩, by simp, by simp⟩

/-- Directories are made one in the other, and no file comes of it. By induction on the names: what is
made next stands in a directory. -/
theorem Sound.makeDirsFrom {base : Path} {names : List String} (hnames : ∀ s ∈ names, s ≠ "..")
    (ht : t.Sound) (hbase : t.isDir base = true) :
    (FileTree.makeDirsFrom base names t).2.Sound ∧
      ((FileTree.makeDirsFrom base names t).1 = .ok () →
        (FileTree.makeDirsFrom base names t).2.isDir (base ++ names) = true) := by
  induction names generalizing base t with
  | nil =>
    rw [List.append_nil]
    exact ⟨ht, fun _ => hbase⟩
  | cons s rest ih =>
    have hs : (s == "..") = false := beq_eq_false_iff_ne.mpr (hnames s List.mem_cons_self)
    unfold FileTree.makeDirsFrom
    simp only [hs, Bool.false_eq_true, if_false]
    split
    · exact ⟨ht, by simp⟩
    · rename_i hfile
      split
      · exact ⟨ht, by simp⟩
      · -- all around the new directory are directories already
        have hnext : (t.addDir (base ++ [s])).Sound := by
          apply ht.addDir (Bool.eq_false_iff.mpr hfile)
          intro d hd
          rcases Path.mem_parents_concat hd with rfl | hd
          · exact hbase
          · exact ht.dirs base hbase d hd
        have hhere : (t.addDir (base ++ [s])).isDir (base ++ [s]) = true := isDir_addDir.mpr (.inr rfl)
        have hrest := ih (fun s' hs' => hnames s' (List.mem_cons_of_mem s hs')) hnext hhere
        rw [List.append_assoc, List.singleton_append] at hrest
        exact hrest

theorem Sound.makeDirs {names : Path} (hnames : ∀ s ∈ names, s ≠ "..") (ht : t.Sound) :
    (FileTree.makeDirs names t).2.Sound ∧
      ((FileTree.makeDirs names t).1 = .ok () → (FileTree.makeDirs names t).2.isDir names = true) := by
  unfold FileTree.makeDirs
  split
  · exact ⟨ht, by simp⟩
  · exact ht.makeDirsFrom hnames rfl

/-- No file is opened in the place of a directory. -/
theorem isDir_of_openFault {ends : Ending} (h : t.openFault p ends = none) : t.isDir p = false := by
  unfold openFault at h
  split at h
  · cases h
  · cases ends with
    | slash => cases h
    | name =>
      dsimp only at h
      split at h
      · cases h
      · rename_i hdir
        exact Bool.eq_false_iff.mpr hdir
    | dot =>
      dsimp only at h
      split at h
      · cases h
      · split at h <;> cases h

/-- A segment leads out of the tree or into a repository's own directory by being `..` or `.git`. -/
theorem all_staysInside_iff {names : List String} :
    (names.filterMap Path.Component.ofSegment?).all staysInside = true ↔ ∀ s ∈ names, s ≠ ".." ∧ s ≠ ".git" := by
  have hone (s : String) :
      (∀ c, Path.Component.ofSegment? s = some c → staysInside c = true) ↔ s ≠ ".." ∧ s ≠ ".git" := by
    unfold Path.Component.ofSegment?
    split <;> simp_all [staysInside]
  rw [List.all_eq_true]
  constructor
  · intro h s hs
    exact (hone s).mp fun c hc => h c (List.mem_filterMap.mpr ⟨s, hs, hc⟩)
  · intro h c hc
    obtain ⟨s, hs, hsc⟩ := List.mem_filterMap.mp hc
    exact (hone s).mpr (h s hs) c hsc

/-- **What leads inside** is told by the text between its slashes alone: it is not empty, does not begin
with a slash, and none of its segments is `..` or `.git`. -/
theorem isInside_iff {text : String} : isInside text = true ↔
    text ≠ "" ∧ Path.isAbsolute text = false ∧ ∀ s ∈ segments text, s ≠ ".." ∧ s ≠ ".git" := by
  unfold isInside Path.components
  rw [Bool.and_eq_true, List.all_append, Bool.and_eq_true, all_staysInside_iff]
  cases Path.isAbsolute text with
  | true => simp [staysInside]
  | false =>
    by_cases hdot : ((segments text).head? == some ".") = true <;> simp [hdot, staysInside]

/-- Nothing on the way that a text names leads back out of the tree. -/
theorem ne_up_of_isInside {text : String} (hin : isInside text = true) :
    ∀ s ∈ Path.normal text, s ≠ ".." := by
  intro s hs
  exact ((isInside_iff.mp hin).2.2 s (List.mem_filter.mp hs).1).1

theorem Sound.write (ht : t.Sound) {text : String} (hin : isInside text = true)
    (new : Option String → String) : (t.write text new).2.Sound := by
  have hnames := ne_up_of_isInside hin
  have hmade := ht.makeDirs (fun s hs => hnames s (List.dropLast_subset _ hs))
  unfold FileTree.write
  dsimp only
  split
  · rename_i e t' hdirs
    rw [hdirs] at hmade
    exact hmade.1
  · rename_i t' hdirs
    rw [hdirs] at hmade
    obtain ⟨ht', hlast⟩ := hmade
    split
    · exact ht'
    · rename_i hopen
      have hdir := isDir_of_openFault hopen
      apply ht'.insert hdir
      intro d hd
      -- a path with nothing on it is no file
      have hne : Path.normal text ≠ [] := by
        intro hnil
        rw [hnil] at hdir
        cases hdir
      rw [← List.dropLast_concat_getLast hne] at hd
      rcases Path.mem_parents_concat hd with rfl | hd
      · exact hlast rfl
      · exact ht'.dirs _ (hlast rfl) d hd

/-! ## Removing -/

theorem Sound.cut (ht : t.Sound) (p : Path) : (t.cut p).Sound := by
  -- what stays stands in what stays
  have hkept {q d : Path} (hq : ¬ p <+: q) (hd : d ∈ Path.parents q) : ¬ p <+: d := by
    intro hpd
    exact hq (hpd.trans (Path.above_iff.mp (Path.mem_parents.mp hd).2).1)
  have hpre {q : Path} : (!p.isPrefixOf q) = true ↔ ¬ p <+: q := by
    rw [Bool.not_eq_true', ← Bool.not_eq_true, List.isPrefixOf_iff_prefix]
  have hdir {q : Path} : (t.cut p).isDir q = true ↔ q = [] ∨ (q ∈ t.dirs ∧ ¬ p <+: q) := by
    rw [isDir_iff, FileTree.cut, List.mem_filter, hpre]
  have hfile {q : Path} : (t.cut p).files.has q = true ↔ ¬ p <+: q ∧ t.files.has q = true := by
    rw [FileTree.cut, PathMap.has_restrict, Bool.and_eq_true, hpre]
  have hway {q d : Path} (hd : d ∈ Path.parents q) (htd : t.isDir d = true) (hq : ¬ p <+: q) :
      (t.cut p).isDir d = true := by
    rw [hdir]
    rcases isDir_iff.mp htd with hroot | hmem
    · exact .inl hroot
    · exact .inr ⟨hmem, hkept hq hd⟩
  refine ⟨?_, ?_, ?_⟩
  · intro q hq
    have hapart := ht.apart q (hfile.mp hq).2
    apply Bool.eq_false_iff.mpr
    intro hqdir
    rw [Bool.eq_false_iff] at hapart
    rcases hdir.mp hqdir with hroot | hmem
    · exact hapart (isDir_iff.mpr (.inl hroot))
    · exact hapart (isDir_iff.mpr (.inr hmem.1))
  · intro q hq d hd
    obtain ⟨hnot, hq⟩ := hfile.mp hq
    exact hway hd (ht.files q hq d hd) hnot
  · intro q hq d hd
    rcases hdir.mp hq with rfl | ⟨hmem, hnot⟩
    · cases hd
    · exact hway hd (ht.dirs q (isDir_iff.mpr (.inr hmem)) d hd) hnot

/-- A directory that nothing stands in may go. -/
theorem Sound.eraseDir (ht : t.Sound) {d : Path} (hd : t.nothingBelow d = true) :
    Sound { t with dirs := t.dirs.erase d } := by
  simp only [nothingBelow, Bool.and_eq_true, Bool.not_eq_true', List.any_eq_false] at hd
  obtain ⟨hnofile, hnodir⟩ := hd
  have hdir {q : Path} (hq : isDir { t with dirs := t.dirs.erase d } q = true) : t.isDir q = true := by
    rcases isDir_iff.mp hq with hroot | hmem
    · exact isDir_iff.mpr (.inl hroot)
    · exact isDir_iff.mpr (.inr (List.mem_of_mem_erase hmem))
  have hkept {q : Path} (hq : t.isDir q = true) (hne : q ≠ d) :
      isDir { t with dirs := t.dirs.erase d } q = true := by
    rcases isDir_iff.mp hq with hroot | hmem
    · exact isDir_iff.mpr (.inl hroot)
    · exact isDir_iff.mpr (.inr ((List.mem_erase_of_ne hne).mpr hmem))
  refine ⟨?_, ?_, ?_⟩
  · intro q hq
    apply Bool.eq_false_iff.mpr
    intro hqdir
    exact Bool.eq_false_iff.mp (ht.apart q hq) (hdir hqdir)
  · intro q hq e he
    apply hkept (ht.files q hq e he)
    -- the directory that goes has no file below it
    rintro rfl
    have hbelow := PathMap.hasBelow_iff.mpr ⟨q, hq, (Path.mem_parents.mp he).2⟩
    rw [hnofile] at hbelow
    cases hbelow
  · intro q hq e he
    apply hkept (ht.dirs q (hdir hq) e he)
    rintro rfl
    rcases isDir_iff.mp (hdir hq) with rfl | hmem
    · cases he
    · exact hnodir q hmem (Path.mem_parents.mp he).2

theorem Sound.prune (ht : t.Sound) (up : List Path) : (t.prune up).Sound := by
  induction up generalizing t with
  | nil => exact ht
  | cons d rest ih =>
    unfold FileTree.prune
    split
    · rename_i hd
      exact ih (ht.eraseDir hd)
    · exact ht

theorem Sound.remove (ht : t.Sound) (p : Path) : (t.remove p).Sound := (ht.cut p).prune _

end Chronicle.FileTree
