import Chronicle.Proofs.Repository.Refresh

/-!
# What clearing a path takes away

Clearing a path takes away the file that stands at it, below it or on the way to it, and the directories that
are left with nothing in them. Two paths are `Near` each other when one leads through the other, and what a
tree `Holds` at a path is a file or a directory. In a tidy tree, which lists no directory twice
(`FileTree.Tidy`), however many paths are cleared, and in whatever order, **a file goes when it is near one of
them** (`FileTree.Tidy.has_clearAll`), **and a directory stays when something is held at it or below it that is
near none** (`FileTree.Tidy.isDir_clearAll`).
-/

namespace Chronicle

/-! ## Near paths -/

namespace Path

variable {p q d x : Path}

/-- One of the two paths leads through the other. -/
def Near (p q : Path) : Prop := p <+: q ∨ q <+: p

instance (p q : Path) : Decidable (Near p q) := inferInstanceAs (Decidable (_ ∨ _))

theorem Near.symm (h : Near p q) : Near q p := Or.symm h

theorem Near.refl (p : Path) : Near p p := .inl List.prefix_rfl

/-- Two paths are near each other when they are the same or one lies above the other. -/
theorem near_iff : Near p q ↔ p = q ∨ Path.above p q = true ∨ Path.above q p = true := by
  constructor
  · intro h
    by_cases heq : p = q
    · exact .inl heq
    · rcases h with hpre | hpre
      · exact .inr (.inl (above_of_prefix_ne hpre heq))
      · exact .inr (.inr (above_of_prefix_ne hpre (Ne.symm heq)))
  · rintro (rfl | habove | habove)
    · exact .refl p
    · exact .inl (above_iff.mp habove).1
    · exact .inr (above_iff.mp habove).1

/-- What is near a path further down is near every path on the way. -/
theorem Near.of_prefix (h : Near p x) (hd : d <+: x) : Near p d := by
  rcases h with hpx | hxp
  · exact List.prefix_or_prefix_of_prefix hpx hd
  · exact .inr (hd.trans hxp)

/-- Each place on the way to a path lies above those that come after it. -/
theorem pairwise_parents (p : Path) : p.parents.Pairwise fun d e => Path.above d e = true := by
  induction p with
  | nil => exact .nil
  | cons s rest ih =>
    cases rest with
    | nil => exact .nil
    | cons s' rest =>
      refine .cons ?_ ?_
      · intro e he
        obtain ⟨d, hd, rfl⟩ := List.mem_map.mp he
        exact above_iff_append.mpr ⟨d, rfl, (mem_parents.mp hd).1⟩
      · refine List.pairwise_map.mpr (ih.imp ?_)
        intro d e hde
        obtain ⟨names, rfl, hne⟩ := above_iff_append.mp hde
        exact above_iff_append.mpr ⟨names, rfl, hne⟩

end Path

namespace FileTree

variable {t : FileTree} {p q d x : Path}

/-- A sound tree that lists no directory twice, and whose files have proper paths. -/
structure Tidy (t : FileTree) : Prop extends t.Sound where
  nodup : t.dirs.Nodup
  proper : ∀ p, t.files.has p = true → p.Proper

/-- A file or a directory stands at the path. -/
def Holds (t : FileTree) (p : Path) : Prop := t.files.has p = true ∨ t.isDir p = true

theorem isDir_of_ne (hne : d ≠ []) : t.isDir d = true ↔ d ∈ t.dirs := by
  rw [isDir_iff]
  exact or_iff_right hne

theorem Sound.ne_nil (ht : t.Sound) (hp : t.files.has p = true) : p ≠ [] := by
  rintro rfl
  have hroot := ht.apart [] hp
  cases hroot

/-- A file has nothing below it. -/
theorem Sound.not_above_holds (ht : t.Sound) (hp : t.files.has p = true) (hx : t.Holds x) :
    Path.above p x = false := by
  rcases hx with hx | hx
  · exact ht.not_above hp hx
  · apply Bool.eq_false_iff.mpr
    intro habove
    have hdir := ht.dirs x hx p (Path.mem_parents.mpr ⟨ht.ne_nil hp, habove⟩)
    rw [ht.apart p hp] at hdir
    cases hdir

theorem Sound.files_of_isDir (ht : t.Sound) (hd : t.isDir d = true) : t.files.get? d = none := by
  apply Option.not_isSome_iff_eq_none.mp
  intro hfile
  rw [ht.apart d hfile] at hd
  cases hd

/-- What is on the way to what a sound tree holds is a directory. -/
theorem Sound.isDir_of_above (ht : t.Sound) (hx : t.Holds x) (hd : Path.above d x = true) :
    t.isDir d = true := by
  by_cases hne : d = []
  · exact isDir_iff.mpr (.inl hne)
  · rcases hx with hx | hx
    · exact ht.files x hx d (Path.mem_parents.mpr ⟨hne, hd⟩)
    · exact ht.dirs x hx d (Path.mem_parents.mpr ⟨hne, hd⟩)

/-! ## Removing directories that are left empty -/

theorem nodup_prune (hn : t.dirs.Nodup) (up : List Path) : (t.prune up).dirs.Nodup := by
  induction up generalizing t with
  | nil => exact hn
  | cons e rest ih =>
    unfold prune
    split
    · exact ih (hn.erase e)
    · exact hn

/-- A directory of `up` stays when something stands below it that is not a directory of `up` itself. By
induction on `up`, deepest first: where one stays, so do those above it. -/
theorem mem_dirs_prune (hn : t.dirs.Nodup) {up : List Path}
    (hup : up.Pairwise fun d e => Path.above e d = true) :
    d ∈ (t.prune up).dirs ↔ d ∈ t.dirs ∧
      (d ∈ up → ∃ x, Path.above d x = true ∧ (t.files.has x = true ∨ x ∈ t.dirs ∧ x ∉ up)) := by
  induction up generalizing t with
  | nil => simp [prune]
  | cons e rest ih =>
    obtain ⟨habove, hrest⟩ := List.pairwise_cons.mp hup
    unfold prune
    split
    · rename_i hnothing
      rw [ih (hn.erase e) hrest]
      simp only [hn.mem_erase_iff, List.mem_cons, not_or]
      constructor
      · rintro ⟨⟨hne, hd⟩, hkept⟩
        refine ⟨hd, ?_⟩
        rintro (rfl | hmem)
        · exact absurd rfl hne
        · obtain ⟨x, hx, hfile | ⟨⟨hxe, hdir⟩, hnot⟩⟩ := hkept hmem
          · exact ⟨x, hx, .inl hfile⟩
          · exact ⟨x, hx, .inr ⟨hdir, hxe, hnot⟩⟩
      · rintro ⟨hd, hkept⟩
        refine ⟨⟨?_, hd⟩, ?_⟩
        · -- nothing stands below the directory that goes
          rintro rfl
          obtain ⟨x, hx, hfile | ⟨hdir, _⟩⟩ := hkept (.inl rfl)
          · rw [(nothingBelow_iff.mp hnothing).1 x hfile] at hx
            cases hx
          · rw [(nothingBelow_iff.mp hnothing).2 x hdir] at hx
            cases hx
        · intro hmem
          obtain ⟨x, hx, hfile | ⟨hdir, hxe, hnot⟩⟩ := hkept (.inr hmem)
          · exact ⟨x, hx, .inl hfile⟩
          · exact ⟨x, hx, .inr ⟨⟨hxe, hdir⟩, hnot⟩⟩
    · rename_i hsome
      refine ⟨fun hd => ⟨hd, ?_⟩, fun h => h.1⟩
      -- what stands below the deepest one stands below all of them
      have hbelow : ∃ x, Path.above e x = true ∧ (t.files.has x = true ∨ x ∈ t.dirs) := by
        by_contra hnone
        refine hsome (nothingBelow_iff.mpr ⟨fun x hfile => ?_, fun x hdir => ?_⟩)
        · exact Bool.eq_false_iff.mpr fun hx => hnone ⟨x, hx, .inl hfile⟩
        · exact Bool.eq_false_iff.mpr fun hx => hnone ⟨x, hx, .inr hdir⟩
      obtain ⟨x, hx, hholds⟩ := hbelow
      have hlong (f : Path) (hf : f ∈ e :: rest) : f.length ≤ e.length := by
        rcases List.mem_cons.mp hf with rfl | hf
        · exact Nat.le_refl _
        · exact Nat.le_of_lt (Path.above_iff.mp (habove f hf)).2
      have hnot : x ∉ e :: rest := by
        intro hmem
        have hlt := (Path.above_iff.mp hx).2
        have hle := hlong x hmem
        omega
      intro hmem
      refine ⟨x, ?_, hholds.imp_right fun hdir => ⟨hdir, hnot⟩⟩
      rcases List.mem_cons.mp hmem with rfl | hmem
      · exact hx
      · exact Path.above_trans (habove d hmem) hx

theorem nodup_addDir (hn : t.dirs.Nodup) (p : Path) : (t.addDir p).dirs.Nodup := by
  unfold addDir
  split
  · exact hn
  · rename_i hdir
    refine List.nodup_append.mpr ⟨hn, List.pairwise_singleton _ p, ?_⟩
    rintro q hq q' hq' rfl
    rw [List.mem_singleton.mp hq'] at hq
    exact hdir (isDir_iff.mpr (.inr hq))

theorem nodup_foldl_addDir (hn : t.dirs.Nodup) (ps : List Path) : (ps.foldl addDir t).dirs.Nodup := by
  induction ps generalizing t with
  | nil => exact hn
  | cons p rest ih => exact ih (nodup_addDir hn p)

theorem nodup_makeDirsFrom (hn : t.dirs.Nodup) (base : Path) (names : List String) :
    (makeDirsFrom base names t).2.dirs.Nodup := by
  induction names generalizing base t with
  | nil => exact hn
  | cons s rest ih =>
    unfold makeDirsFrom
    dsimp only
    split
    · exact ih hn _
    · split
      · exact hn
      · split
        · exact hn
        · exact ih (nodup_addDir hn _) _

theorem nodup_write (hn : t.dirs.Nodup) (text : String) (new : Option String → String) :
    (t.write text new).2.dirs.Nodup := by
  have hmade (p : Path) : (makeDirs p t).2.dirs.Nodup := by
    unfold makeDirs
    split
    · exact hn
    · exact nodup_makeDirsFrom hn [] p
  have hdirs := hmade (Path.normal text).dropLast
  unfold write
  dsimp only
  split
  · rename_i e t' hmakes
    rw [hmakes] at hdirs
    exact hdirs
  · rename_i t' hmakes
    rw [hmakes] at hdirs
    split
    · exact hdirs
    · exact hdirs

/-! ## Removing what stands at a path -/

theorem mem_dirs_cut : q ∈ (t.cut p).dirs ↔ q ∈ t.dirs ∧ ¬ p <+: q := by
  rw [cut, List.mem_filter, Bool.not_eq_true', ← Bool.not_eq_true, List.isPrefixOf_iff_prefix]

theorem get?_cut : (t.cut p).files.get? q = if p <+: q then none else t.files.get? q := by
  rw [cut, PathMap.get?_restrict]
  by_cases hpre : p <+: q
  · rw [if_pos hpre, List.isPrefixOf_iff_prefix.mpr hpre]
    rfl
  · have hnot : p.isPrefixOf q = false := Bool.eq_false_iff.mpr fun h => hpre (List.isPrefixOf_iff_prefix.mp h)
    rw [if_neg hpre, hnot]
    rfl

theorem has_cut : (t.cut p).files.has q = true ↔ ¬ p <+: q ∧ t.files.has q = true := by
  rw [PathMap.has, get?_cut, PathMap.has]
  by_cases hpre : p <+: q <;> simp [hpre]

theorem nodup_remove (hn : t.dirs.Nodup) (p : Path) : (t.remove p).dirs.Nodup := by
  have hcut : (t.cut p).dirs.Nodup := hn.filter _
  exact nodup_prune hcut _

section Remove

variable (ht : t.Tidy) (hway : ∀ d ∈ p.parents, t.files.has d = false)
include ht hway

/-- Where no file is on the way, a file near a path stands at it or below it. -/
theorem Tidy.near_iff_prefix (hx : t.files.has x = true) : Path.Near p x ↔ p <+: x := by
  refine ⟨?_, .inl⟩
  rintro (hpre | hpre)
  · exact hpre
  · by_cases hxp : x = p
    · exact hxp ▸ List.prefix_rfl
    · have hmem := Path.mem_parents.mpr ⟨ht.ne_nil hx, Path.above_of_prefix_ne hpre hxp⟩
      rw [hway x hmem] at hx
      cases hx

theorem Tidy.get?_remove (x : Path) :
    (t.remove p).files.get? x = if Path.Near p x then none else t.files.get? x := by
  rw [FileTree.remove, files_prune, get?_cut]
  cases hx : t.files.get? x with
  | none => simp
  | some content =>
    have hhas : t.files.has x = true := by rw [PathMap.has, hx]; rfl
    simp only [ht.near_iff_prefix hway hhas]

/-- A directory on the way to a path stays for what stands below it and not near the path. -/
theorem Tidy.isDir_remove (hd : d ≠ []) : (t.remove p).isDir d = true ↔
    t.isDir d = true ∧ ∃ x, d <+: x ∧ t.Holds x ∧ ¬ Path.Near p x := by
  have hup : p.parents.reverse.Pairwise fun d e => Path.above e d = true :=
    List.pairwise_reverse.mpr (Path.pairwise_parents p)
  have hcut : (t.cut p).dirs.Nodup := ht.nodup.filter _
  have hof {x : Path} (hx : x ∈ p.parents.reverse) : x <+: p :=
    (Path.above_iff.mp (Path.mem_parents.mp (List.mem_reverse.mp hx)).2).1
  have hto {x : Path} (hx : x ≠ []) (hpre : x <+: p) (hnot : ¬ p <+: x) : x ∈ p.parents.reverse := by
    have hne : x ≠ p := by
      rintro rfl
      exact hnot List.prefix_rfl
    exact List.mem_reverse.mpr (Path.mem_parents.mpr ⟨hx, Path.above_of_prefix_ne hpre hne⟩)
  rw [isDir_of_ne hd, isDir_of_ne hd, FileTree.remove, mem_dirs_prune hcut hup, mem_dirs_cut]
  constructor
  · rintro ⟨⟨hmem, hnot⟩, hkept⟩
    refine ⟨hmem, ?_⟩
    by_cases hdp : d <+: p
    · obtain ⟨x, hx, hfile | ⟨hdir, hx'⟩⟩ := hkept (hto hd hdp hnot)
      · obtain ⟨hpre, hhas⟩ := has_cut.mp hfile
        exact ⟨x, (Path.above_iff.mp hx).1, .inl hhas, fun h => hpre ((ht.near_iff_prefix hway hhas).mp h)⟩
      · obtain ⟨hmem', hpre⟩ := mem_dirs_cut.mp hdir
        have hxne : x ≠ [] := by
          rintro rfl
          exact absurd (Path.above_iff.mp hx).2 (Nat.not_lt_zero _)
        refine ⟨x, (Path.above_iff.mp hx).1, .inr ((isDir_of_ne hxne).mpr hmem'), ?_⟩
        rintro (h | h)
        · exact hpre h
        · exact hx' (hto hxne h hpre)
    · exact ⟨d, List.prefix_rfl, .inr ((isDir_of_ne hd).mpr hmem), fun h => h.elim hnot hdp⟩
  · rintro ⟨hmem, x, hdx, hholds, hfar⟩
    refine ⟨⟨hmem, fun hpre => hfar (.inl (hpre.trans hdx))⟩, fun hmem' => ?_⟩
    have hxne : x ≠ [] := fun h => hd (List.prefix_nil.mp (h ▸ hdx))
    have hxd : d ≠ x := by
      rintro rfl
      exact hfar (.inr (hof hmem'))
    refine ⟨x, Path.above_of_prefix_ne hdx hxd, ?_⟩
    rcases hholds with hhas | hdir
    · exact .inl (has_cut.mpr ⟨fun h => hfar (.inl h), hhas⟩)
    · exact .inr ⟨mem_dirs_cut.mpr ⟨(isDir_of_ne hxne).mp hdir, fun h => hfar (.inl h)⟩,
        fun hx => hfar (.inr (hof hx))⟩

end Remove

/-- What is taken away with a path, where no file is on the way, are the files near it and the directories
that then hold nothing. -/
theorem Tidy.remove (ht : t.Tidy) (p : Path) : (t.remove p).Tidy := by
  refine ⟨ht.toSound.remove p, nodup_remove ht.nodup p, ?_⟩
  intro x hx
  rw [FileTree.remove, files_prune] at hx
  exact ht.proper x (has_cut.mp hx).2

/-! ## Clearing paths -/

/-- What is removed when a path is cleared is near all that the path is near. -/
theorem Sound.clear_eq (ht : t.Sound) (p : Path) :
    ∃ q, t.clear p = t.remove q ∧ (∀ d ∈ q.parents, t.files.has d = false) ∧
      ∀ x, t.Holds x → (Path.Near q x ↔ Path.Near p x) := by
  unfold FileTree.clear
  split
  · rename_i b hb
    have hfile : t.files.has b = true := List.find?_some hb
    have habove := (Path.mem_parents.mp (List.mem_of_find?_eq_some hb)).2
    have hpre := (Path.above_iff.mp habove).1
    refine ⟨b, rfl, ?_, ?_⟩
    · intro d hd
      apply Bool.eq_false_iff.mpr
      intro hd'
      have hnot := ht.not_above hd' hfile
      rw [(Path.mem_parents.mp hd).2] at hnot
      cases hnot
    · intro x hx
      constructor
      · rintro (hbx | hxb)
        · -- nothing stands below the file in the way
          by_cases heq : b = x
          · exact .inr (heq ▸ hpre)
          · have hnot := ht.not_above_holds hfile hx
            rw [Path.above_of_prefix_ne hbx heq] at hnot
            cases hnot
        · exact .inr (hxb.trans hpre)
      · intro hnear
        exact (hnear.symm.of_prefix hpre).symm
  · rename_i hnone
    refine ⟨p, rfl, fun d hd => ?_, fun _ _ => Iff.rfl⟩
    exact Bool.eq_false_iff.mpr (List.find?_eq_none.mp hnone d hd)

theorem Tidy.clear (ht : t.Tidy) (p : Path) :
    (t.clear p).Tidy ∧
      (∀ x, (t.clear p).files.get? x = if Path.Near p x then none else t.files.get? x) ∧
      ∀ d, d ≠ [] → ((t.clear p).isDir d = true ↔
        t.isDir d = true ∧ ∃ x, d <+: x ∧ t.Holds x ∧ ¬ Path.Near p x) := by
  obtain ⟨q, heq, hway, hnear⟩ := ht.toSound.clear_eq p
  rw [heq]
  refine ⟨ht.remove q, ?_, ?_⟩
  · intro x
    rw [ht.get?_remove hway]
    cases hx : t.files.get? x with
    | none => simp
    | some content =>
      have hholds : t.Holds x := .inl (by rw [PathMap.has, hx]; rfl)
      simp only [hnear x hholds]
  · intro d hd
    rw [ht.isDir_remove hway hd]
    refine and_congr_right fun _ => exists_congr fun x => and_congr_right fun _ => ?_
    exact and_congr_right fun hx => not_congr (hnear x hx)

/-- Clears paths one after the other. -/
def clearAll (t : FileTree) (ps : List Path) : FileTree := ps.foldl clear t

theorem nodup_clearAll (hn : t.dirs.Nodup) (ps : List Path) : (t.clearAll ps).dirs.Nodup := by
  induction ps generalizing t with
  | nil => exact hn
  | cons p rest ih =>
    apply ih
    unfold clear
    split
    · exact nodup_remove hn _
    · exact nodup_remove hn p

/-- **What clearing paths takes away** is told by which of them are near: by induction on the paths, as what is
near a path further down is near all on the way. -/
theorem Tidy.clearAll (ht : t.Tidy) (ps : List Path) :
    (t.clearAll ps).Tidy ∧
      (∀ x, (t.clearAll ps).files.get? x =
        if ∃ p ∈ ps, Path.Near p x then none else t.files.get? x) ∧
      ∀ d, d ≠ [] → ((t.clearAll ps).isDir d = true ↔
        t.isDir d = true ∧ ∃ x, d <+: x ∧ t.Holds x ∧ ∀ p ∈ ps, ¬ Path.Near p x) := by
  induction ps generalizing t with
  | nil =>
    refine ⟨ht, fun x => by simp [FileTree.clearAll], fun d _ => ⟨fun hd => ⟨hd, d, ?_⟩, fun h => h.1⟩⟩
    exact ⟨List.prefix_rfl, .inr hd, fun p hp => absurd hp List.not_mem_nil⟩
  | cons p rest ih =>
    obtain ⟨htidy, hfiles, hdirs⟩ := ht.clear p
    obtain ⟨htidy', hfiles', hdirs'⟩ := ih htidy
    have hhas (x : Path) : (t.clear p).files.has x = true ↔ t.files.has x = true ∧ ¬ Path.Near p x := by
      rw [PathMap.has, hfiles, PathMap.has]
      by_cases hnear : Path.Near p x <;> simp [hnear]
    refine ⟨htidy', ?_, ?_⟩
    · intro x
      rw [FileTree.clearAll, List.foldl_cons, ← FileTree.clearAll, hfiles', hfiles]
      by_cases hnear : Path.Near p x
      · simp [hnear]
      · simp only [hnear, if_false, List.mem_cons, exists_eq_or_imp, false_or]
    · intro d hd
      rw [FileTree.clearAll, List.foldl_cons, ← FileTree.clearAll, hdirs' d hd, hdirs d hd]
      simp only [List.forall_mem_cons]
      constructor
      · rintro ⟨⟨hdir, -⟩, x, hdx, hholds, hfar⟩
        have hxne : x ≠ [] := fun h => hd (List.prefix_nil.mp (h ▸ hdx))
        refine ⟨hdir, ?_⟩
        rcases hholds with hfile | hxdir
        · obtain ⟨hx, hnot⟩ := (hhas x).mp hfile
          exact ⟨x, hdx, .inl hx, hnot, hfar⟩
        · obtain ⟨-, y, hxy, hy, hnot⟩ := (hdirs x hxne).mp hxdir
          exact ⟨y, hdx.trans hxy, hy, hnot, fun p' hp' hnear => hfar p' hp' (hnear.of_prefix hxy)⟩
      · rintro ⟨hdir, x, hdx, hholds, hnot, hfar⟩
        have hxne : x ≠ [] := fun h => hd (List.prefix_nil.mp (h ▸ hdx))
        refine ⟨⟨hdir, x, hdx, hholds, hnot⟩, x, hdx, ?_, hfar⟩
        rcases hholds with hfile | hxdir
        · exact .inl ((hhas x).mpr ⟨hfile, hnot⟩)
        · exact .inr ((hdirs x hxne).mpr ⟨hxdir, x, List.prefix_rfl, .inr hxdir, hnot⟩)

/-- A file goes when it is near a path that is cleared. -/
theorem Tidy.has_clearAll (ht : t.Tidy) (ps : List Path) :
    (t.clearAll ps).files.has x = true ↔ t.files.has x = true ∧ ∀ p ∈ ps, ¬ Path.Near p x := by
  rw [PathMap.has, (ht.clearAll ps).2.1, PathMap.has]
  by_cases hnear : ∃ p ∈ ps, Path.Near p x
  · rw [if_pos hnear]
    obtain ⟨p, hp, hx⟩ := hnear
    exact iff_of_false (by simp) fun h => h.2 p hp hx
  · rw [if_neg hnear]
    exact (and_iff_left fun p hp hx => hnear ⟨p, hp, hx⟩).symm

/-- A directory stays when something is held at it or below it that is near none of the paths. -/
theorem Tidy.isDir_clearAll (ht : t.Tidy) (ps : List Path) (hd : d ≠ []) :
    (t.clearAll ps).isDir d = true ↔
      t.isDir d = true ∧ ∃ x, d <+: x ∧ t.Holds x ∧ ∀ p ∈ ps, ¬ Path.Near p x :=
  (ht.clearAll ps).2.2 d hd

end FileTree

end Chronicle
