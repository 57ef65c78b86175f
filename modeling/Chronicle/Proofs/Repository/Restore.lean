import Chronicle.Proofs.Repository.Switch

/-!
# Going back to the commit that one is at

Checking out the commit that one is at gives its files back and takes away what was staged besides them
(`Checkout.Restores`, `Checkout.restores_run`). It succeeds if and only if no file that has to be written is
barred by something that was never staged (`Checkout.run_same_isOk_iff`), and it leaves everything as it is if
and only if there is nothing to give back and nothing to take away (`Checkout.run_same_eq_iff`).
-/

namespace Chronicle.Checkout

variable {c c' : Checkout} {m : Tree} {p x : Path}

/-- What was never staged is in the way of a file: another file, above or below it, or a directory without files
where there is one with some in the place of the file. -/
def Barred (c : Checkout) (p : Path) : Prop :=
  (∃ x, (Path.above x p = true ∨ Path.above p x = true) ∧ c.tree.files.has x = true ∧ c.index.has x = false) ∨
    c.tree.files.hasBelow p = true ∧
      ∃ d, Path.above p d = true ∧ c.tree.isDir d = true ∧ c.tree.files.hasBelow d = false

/-- Nothing bars a file that is there, whatever it says. -/
theorem not_barred (hc : c.tree.Sound) (hp : c.tree.files.has p = true) : ¬ c.Barred p := by
  rintro (⟨x, habove | habove, hx, -⟩ | ⟨hbelow, -⟩)
  · rw [hc.not_above hx hp] at habove
    cases habove
  · rw [hc.not_above hp hx] at habove
    cases habove
  · obtain ⟨x, hx, habove⟩ := PathMap.hasBelow_iff.mp hbelow
    rw [hc.not_above hp hx] at habove
    cases habove

theorem mem_written_same : p ∈ c.written m m ↔ m.has p = true ∧ c.tree.files.get? p ≠ m.get? p := by
  rw [mem_written]
  refine and_congr_right fun hp => ?_
  rw [hp]
  simp

theorem not_supplanted_same (hm : m.Placeable) (hp : m.has p = true) : ¬ c.Supplanted m p := by
  rintro ⟨hbelow, -⟩
  obtain ⟨q, hq, habove⟩ := PathMap.hasBelow_iff.mp hbelow
  rw [hm.not_above p q hp hq] at habove
  cases habove

/-- A file goes only because it was staged. -/
theorem file_near_cleared_same (hc : c.tree.Tidy) (hx : c.tree.files.has x = true) :
    (∃ q ∈ c.cleared m m, Path.Near q x) ↔ m.has x = false ∧ c.index.has x = true := by
  constructor
  · rintro ⟨q, hq, hnear⟩
    rcases mem_cleared.mp hq with ⟨hq, hremove⟩ | hstray
    · -- an empty directory has no file near it
      exfalso
      obtain ⟨hplace, hbelow, -⟩ := Deed.remove_same (hq.elim id id) hremove
      have hdir := (place_eq_directory hplace).2
      rcases Path.near_iff.mp hnear with rfl | habove | habove
      · rw [hc.apart q hx] at hdir
        cases hdir
      · rw [PathMap.hasBelow_iff.mpr ⟨x, hx, habove⟩] at hbelow
        cases hbelow
      · rw [hc.toSound.not_above_holds hx (.inr hdir)] at habove
        cases habove
    · obtain ⟨hq, hnone, hstaged⟩ := mem_strays.mp hstray
      obtain rfl := hc.placeable.eq_of_near hq hx hnear
      exact ⟨hnone, hstaged⟩
  · rintro ⟨hnone, hstaged⟩
    exact ⟨x, mem_cleared.mpr (.inr (mem_strays.mpr ⟨hx, hnone, hstaged⟩)), .refl x⟩

section

variable (hc : c.tree.Tidy) (hm : m.Placeable)
include hc hm

/-- A directory in the place of a file goes when there are no files in that place, or one that was staged is
below it. -/
theorem dir_near_cleared_same (hp : m.has p = true) (hx : c.tree.isDir x = true) (hpx : p <+: x) :
    (∃ q ∈ c.cleared m m, Path.Near q x) ↔ c.tree.files.hasBelow p = false ∨
      ∃ y, Path.above x y = true ∧ c.tree.files.has y = true ∧ m.has y = false ∧ c.index.has y = true := by
  constructor
  · rintro ⟨q, hq, hnear⟩
    rcases mem_cleared.mp hq with ⟨hq, hremove⟩ | hstray
    · have hq := hq.elim id id
      obtain rfl := hm.eq_of_near hq hp (hnear.of_prefix hpx)
      exact .inl (Deed.remove_same hq hremove).2.1
    · obtain ⟨hq, hnone, hstaged⟩ := mem_strays.mp hstray
      rcases Path.near_iff.mp hnear with rfl | habove | habove
      · rw [hc.apart q hq] at hx
        cases hx
      · rw [hc.toSound.not_above_holds hq (.inr hx)] at habove
        cases habove
      · exact .inr ⟨q, habove, hq, hnone, hstaged⟩
  · rintro (hbelow | ⟨y, habove, hy, hnone, hstaged⟩)
    · have hdir : c.tree.isDir p = true := by
        by_cases heq : p = x
        · exact heq ▸ hx
        · exact hc.toSound.isDir_of_above (.inr hx) (Path.above_of_prefix_ne hpx heq)
      have hplace := Deed.place_directory hdir (hc.toSound.files_of_isDir hdir)
      refine ⟨p, mem_cleared.mpr (.inl ⟨.inl hp, ?_⟩), .inl hpx⟩
      rw [Deed.at_same hp, hplace, hbelow]
      rfl
    · exact ⟨y, mem_cleared.mpr (.inr (mem_strays.mpr ⟨hy, hnone, hstaged⟩)), .inr (Path.above_iff.mp habove).1⟩

/-- **The files of the commit can be given back** if and only if none of those that are not as they should be is
barred. -/
theorem run_same_isOk_iff : (∃ c', c.run m m = (.ok (), c')) ↔
    ∀ p, m.has p = true → c.tree.files.get? p ≠ m.get? p → ¬ c.Barred p := by
  rw [run_isOk_iff hc hm]
  simp only [mem_written_same, and_imp]
  refine forall₃_congr fun p hp _ => ?_
  constructor
  · rintro ⟨hway, hplace⟩ (⟨x, hx | hx, hfile, hnone⟩ | ⟨hbelow, d, hd, hdir, hempty⟩)
    · rw [((file_near_cleared_same hc hfile).mp (hway x hx hfile)).2] at hnone
      cases hnone
    · have hdir := hc.toSound.isDir_of_above (.inl hfile) hx
      have hgoes := hplace hdir x (Path.above_iff.mp hx).1 (.inl hfile)
      rw [((file_near_cleared_same hc hfile).mp hgoes).2] at hnone
      cases hnone
    · have hpd := (Path.above_iff.mp hd).1
      have hgoes := hplace (hc.toSound.isDir_of_above (.inr hdir) hd) d hpd (.inr hdir)
      rcases (dir_near_cleared_same hc hm hp hdir hpd).mp hgoes with hnone | ⟨y, hy, hfile, -⟩
      · rw [hbelow] at hnone
        cases hnone
      · rw [PathMap.hasBelow_iff.mpr ⟨y, hfile, hy⟩] at hempty
        cases hempty
  · intro hfree
    have hstaged {x : Path} (hx : Path.above x p = true ∨ Path.above p x = true)
        (hfile : c.tree.files.has x = true) : m.has x = false ∧ c.index.has x = true :=
      ⟨hm.has_of_above hp hx, by
        by_contra hnone
        exact hfree (.inl ⟨x, hx, hfile, Bool.eq_false_iff.mpr hnone⟩)⟩
    refine ⟨fun d habove hfile => (file_near_cleared_same hc hfile).mpr (hstaged (.inl habove) hfile), ?_⟩
    intro hdir x hpx hx
    have hbelow {y : Path} (hy : Path.above x y = true) : Path.above p y = true := by
      obtain ⟨hpre, hlt⟩ := Path.above_iff.mp hy
      exact Path.above_iff.mpr ⟨hpx.trans hpre, Nat.lt_of_le_of_lt hpx.length_le hlt⟩
    rcases hx with hfile | hxdir
    · have hne : p ≠ x := by
        rintro rfl
        rw [hc.apart p hfile] at hdir
        cases hdir
      exact (file_near_cleared_same hc hfile).mpr (hstaged (.inr (Path.above_of_prefix_ne hpx hne)) hfile)
    · rw [dir_near_cleared_same hc hm hp hxdir hpx]
      by_cases hempty : c.tree.files.hasBelow p = true
      · right
        -- there is a file below every directory in the place
        have hfull : c.tree.files.hasBelow x = true := by
          by_contra hnone
          by_cases heq : p = x
          · exact hnone (heq ▸ hempty)
          · exact hfree (.inr ⟨hempty, x, Path.above_of_prefix_ne hpx heq, hxdir, Bool.eq_false_iff.mpr hnone⟩)
        obtain ⟨y, hy, habove⟩ := PathMap.hasBelow_iff.mp hfull
        exact ⟨y, habove, hy, hstaged (.inr (hbelow habove)) hy⟩
      · exact .inl (Bool.eq_false_iff.mpr hempty)

end

/-- What checking out a commit comes to for one who is at it. -/
structure Restores (m : Tree) (c c' : Checkout) : Prop where
  /-- The files of the commit are there; of the others those go that were staged. -/
  files : ∀ p, c'.tree.files.get? p =
    if m.has p then m.get? p else if c.index.has p then none else c.tree.files.get? p
  /-- A file of the commit is staged, unless it was as it should be. -/
  staged : ∀ p, m.has p = true →
    c'.index.get? p = if c.tree.files.get? p = m.get? p then c.index.get? p else m.get? p
  /-- Of what else was staged there is no file. -/
  unstaged : ∀ p, m.has p = false →
    c'.index.get? p = none ∨ c'.index.get? p = c.index.get? p ∧ c.tree.files.get? p = none

section

variable (hc : c.tree.Tidy) (hm : m.Placeable)
include hc hm

/-- **Checking out the commit that one is at restores it.** -/
theorem restores_run (h : c.run m m = (.ok (), c')) : Restores m c c' := by
  have hleads := leads_run hc hm hm h
  have hfree := (run_same_isOk_iff hc hm).mp ⟨c', h⟩
  refine ⟨?_, ?_, hleads.unstaged⟩
  · intro p
    by_cases hp : m.has p = true
    · rw [if_pos hp]
      exact hleads.present p hp (not_supplanted_same hm hp)
    · have hp := Bool.eq_false_iff.mpr hp
      rw [hp, if_neg Bool.false_ne_true]
      by_cases hindex : c.index.has p = true
      · rw [if_pos hindex]
        exact PathMap.get?_eq_none.mpr (hleads.gone p hp hindex)
      · have hindex := Bool.eq_false_iff.mpr hindex
        rw [hindex, if_neg Bool.false_ne_true]
        cases hfile : c.tree.files.has p with
        | false =>
          rcases hleads.fewer p hp with hgone | hsame
          · rw [hgone, PathMap.get?_eq_none.mpr hfile]
          · exact hsame
        | true =>
          -- nothing of the commit is near, as it would be barred
          have hfar (q : Path) (hq : m.has q = true) : ¬ Path.Near q p := by
            intro hnear
            have hne : q ≠ p := by
              rintro rfl
              rw [hp] at hq
              cases hq
            have habove : Path.above p q = true ∨ Path.above q p = true :=
              ((Path.near_iff.mp hnear).resolve_left hne).symm
            refine hfree q hq (fun hsame => ?_) (.inl ⟨p, habove, hfile, hindex⟩)
            have hqfile : c.tree.files.has q = true := by rw [PathMap.has, hsame, ← PathMap.has, hq]
            exact hne (hc.placeable.eq_of_near hqfile hfile hnear)
          refine (hleads.untracked p hindex hfar).2 ?_
          rintro (hover | hover | ⟨q, hq, habove, -⟩)
          · exact hfar p hover (.refl p)
          · obtain ⟨q, hq, habove⟩ := PathMap.hasBelow_iff.mp hover
            exact hfar q hq (.inr (Path.above_iff.mp habove).1)
          · exact hfar q hq (.inl (Path.above_iff.mp habove).1)
  · intro p hp
    rw [index_run hm h]
    by_cases hsame : c.tree.files.get? p = m.get? p
    · have hfile : c.tree.files.has p = true := by rw [PathMap.has, hsame, ← PathMap.has, hp]
      have hnot : p ∉ c.written m m := fun hmem => (mem_written_same.mp hmem).2 hsame
      have hkept := not_near_of_same hc hm hm hp rfl hfile
      rw [if_neg hnot, if_pos hsame, if_neg]
      rintro (⟨q, hq, hnear⟩ | hforgotten)
      · obtain rfl := hm.eq_of_near (has_of_mem_written hq) hp hnear
        exact hnot hq
      · exact hkept p (mem_cleared_of_forgotten hforgotten) (.refl p)
    · rw [if_pos (mem_written_same.mpr ⟨hp, hsame⟩), if_neg hsame]

/-- It leaves everything as it is if and only if the working tree has every file of the commit, and no other that
was staged. -/
theorem run_same_eq_iff : c.run m m = (.ok (), c) ↔
    (∀ p, m.has p = true → c.tree.files.get? p = m.get? p) ∧
      ∀ p, c.index.has p = true → c.tree.files.has p = true → m.has p = true := by
  constructor
  · intro h
    have hfiles := (restores_run hc hm h).files
    refine ⟨fun p hp => ?_, fun p hindex hfile => ?_⟩
    · rw [hfiles, if_pos hp]
    · by_contra hp
      have hgone := hfiles p
      rw [if_neg hp, if_pos hindex, PathMap.get?_eq_none] at hgone
      rw [hgone] at hfile
      cases hfile
  · rintro ⟨hfiles, hindex⟩
    exact run_eq_self hfiles hindex

end

end Chronicle.Checkout
