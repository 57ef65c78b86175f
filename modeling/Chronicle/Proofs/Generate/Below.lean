import Chronicle.Proofs.Generate.Inside
import Chronicle.Proofs.Generate.Joined
import Mathlib.Data.List.Induction

/-!
# Writing below a directory

A file of a directory is written by going the way to the directory and on from there (`FileTree.writeAt`).
On a way that can be gone (`FileTree.Trodden`) this comes to the same as writing in what stands below the
directory, seen from there (`FileTree.Mounted.writeAt`), and **nothing changes but places below the
directory, on the way that the text of the file names** (`FileTree.Trodden.agrees_writeAt`).
-/

namespace Chronicle.FileTree

variable {t t' inner : FileTree} {dir way before rest names p q : Path}

/-- Opens a file in a directory that is there, and gives it its text. -/
def openAndWrite (p : Path) (ends : Ending) (new : Option String → String) (t : FileTree) :
    Except IoFault Unit × FileTree :=
  match t.openFault p ends with
  | some e => (.error e, t)
  | none => (.ok (), { t with files := t.files.insert p (new (t.files.get? p)) })

/-- Writes the file that names lead to, which may lead back on their way; `ends` is how the text ends that
they were read from. -/
def writeAt (way : Path) (ends : Ending) (new : Option String → String) (t : FileTree) :
    Except IoFault Unit × FileTree :=
  match makeDirs way.dropLast t with
  | (.error e, t) => (.error e, t)
  | (.ok (), t) => t.openAndWrite (Path.settled way) ends new

/-- What leads inside is written to where its names lead from the start. -/
theorem write_eq_writeAt {text : String} (hin : isInside text = true) (new : Option String → String) (t : FileTree) :
    t.write text new = t.writeAt (Path.normal text) (ending text) new := by
  rw [writeAt, Path.settled_eq (ne_up_of_isInside hin)]
  rfl

/-! ## Ways that can be gone -/

/-- A way that can be gone: its names are such as a directory can have, and it leads through directories
only. -/
structure Trodden (t : FileTree) (way : Path) : Prop where
  names : ∀ name ∈ way, hasNul name = false ∧ tooLong name = false
  isDir : ∀ before, before <+: way → t.isDir (Path.settled before) = true
  noFile : ∀ before, before <+: way → t.files.has (Path.settled before) = false

theorem Trodden.isDir_settled (ht : t.Trodden way) : t.isDir (Path.settled way) = true := ht.isDir way (List.prefix_refl way)

theorem Trodden.noFile_settled (ht : t.Trodden way) : t.files.has (Path.settled way) = false :=
  ht.noFile way (List.prefix_refl way)

theorem mem_of_mem_settled {name : String} (h : name ∈ Path.settled p) : name ∈ p := by
  induction p using List.reverseRecOn with
  | nil => exact h
  | append_singleton before s ih =>
    rw [settled_concat] at h
    split at h
    · exact List.mem_append_left _ (ih (List.dropLast_subset _ h))
    · rcases List.mem_append.mp h with h | h
      · exact List.mem_append_left _ (ih h)
      · exact List.mem_append_right _ h

/-- A directory that is there is not made again. By induction on the names that are left of the way. -/
theorem Trodden.makeDirsFrom (ht : t.Trodden way) (hway : way = before ++ rest) (names : List String) :
    FileTree.makeDirsFrom (Path.settled before) (rest ++ names) t =
      FileTree.makeDirsFrom (Path.settled way) names t := by
  induction rest generalizing before with
  | nil => rw [hway, List.append_nil, List.nil_append]
  | cons s rest ih =>
    have hnext : way = (before ++ [s]) ++ rest := by rw [hway, List.append_assoc, List.singleton_append]
    have hhere : before ++ [s] <+: way := hnext ▸ List.prefix_append _ _
    have hsettled := settled_concat before s
    rw [← ih hnext, List.cons_append]
    rw [FileTree.makeDirsFrom]
    by_cases hup : (s == "..") = true
    · rw [if_pos hup] at hsettled ⊢
      rw [hsettled]
    · rw [if_neg hup] at hsettled ⊢
      have hshort : tooLong s = false := (ht.names s (hway ▸ by simp)).2
      have hthere : t.addDir (Path.settled (before ++ [s])) = t := by
        rw [addDir, ht.isDir _ hhere]
        rfl
      rw [← hsettled, ht.noFile _ hhere, hshort, hthere]
      rfl

/-- Going a way and on, directories are made behind it only. -/
theorem Trodden.makeDirs (ht : t.Trodden way) (names : Path) : FileTree.makeDirs (way ++ names) t =
    if names.any hasNul then (.error .nulInName, t) else FileTree.makeDirsFrom (Path.settled way) names t := by
  have hnul : way.any hasNul = false :=
    List.any_eq_false.mpr fun name hname => Bool.eq_false_iff.mp (ht.names name hname).1
  have hfrom : FileTree.makeDirsFrom (Path.settled []) (way ++ names) t = _ := ht.makeDirsFrom rfl names
  rw [FileTree.makeDirs, List.any_append, hnul, Bool.false_or, ← hfrom]
  rfl

theorem Trodden.of_prefix (ht : t.Trodden way) (h : before <+: way) : t.Trodden before where
  names name hname := ht.names name (h.subset hname)
  isDir p hp := ht.isDir p (hp.trans h)
  noFile p hp := ht.noFile p (hp.trans h)

/-- Where one starts from can be gone to if it is no file. -/
theorem Trodden.start (h : t.files.has [] = false) : t.Trodden [] where
  names name hname := absurd hname List.not_mem_nil
  isDir p hp := by
    rw [List.prefix_nil.mp hp]
    rfl
  noFile p hp := by
    rw [List.prefix_nil.mp hp]
    exact h

/-- A step that makes directories and writes no file in their place leaves a way as it is. -/
theorem Trodden.mono (ht : t.Trodden way) (hdirs : ∀ q, t.isDir q = true → t'.isDir q = true)
    (hfiles : ∀ q, t'.isDir q = true → t.files.has q = false → t'.files.has q = false) : t'.Trodden way where
  names := ht.names
  isDir p hp := hdirs _ (ht.isDir p hp)
  noFile p hp := hfiles _ (hdirs _ (ht.isDir p hp)) (ht.noFile p hp)

/-- The directories around a file that is written behind a way. -/
theorem Trodden.makeDirs_dropLast (ht : t.Trodden way) (names : Path) :
    FileTree.makeDirs (way ++ names).dropLast t =
      if names.dropLast.any hasNul then (.error .nulInName, t)
      else FileTree.makeDirsFrom (Path.settled way) names.dropLast t := by
  cases names with
  | nil =>
    -- all that is written is the directory itself, and the way to it can be gone already
    rw [List.append_nil]
    have hmade := (ht.of_prefix (List.dropLast_prefix way)).makeDirs []
    rw [List.append_nil] at hmade
    exact hmade
  | cons s rest =>
    rw [List.dropLast_append_of_ne_nil (List.cons_ne_nil s rest)]
    exact ht.makeDirs _

/-- Writing behind a way starts from the directory that the way leads to. -/
theorem Trodden.writeAt_eq (ht : t.Trodden way) (hnames : ∀ s ∈ names, s ≠ "..") (ends : Ending)
    (new : Option String → String) : t.writeAt (way ++ names) ends new =
      if names.dropLast.any hasNul then (.error .nulInName, t)
      else
        match FileTree.makeDirsFrom (Path.settled way) names.dropLast t with
        | (.error e, t) => (.error e, t)
        | (.ok (), t) => t.openAndWrite (Path.settled way ++ names) ends new := by
  rw [writeAt, ht.makeDirs_dropLast, Path.settled_append hnames]
  cases names.dropLast.any hasNul <;> rfl

/-! ## Ways that have been made -/

theorem Trodden.concat {s : String} (ht : t.Trodden before) (hname : hasNul s = false ∧ tooLong s = false)
    (hdir : t.isDir (Path.settled (before ++ [s])) = true)
    (hfile : t.files.has (Path.settled (before ++ [s])) = false) : t.Trodden (before ++ [s]) where
  names name h := by
    rcases List.mem_append.mp h with h | h
    · exact ht.names name h
    · rw [List.mem_singleton.mp h]
      exact hname
  isDir p hp := by
    rcases List.prefix_concat_iff.mp hp with rfl | hp
    · exact hdir
    · exact ht.isDir p hp
  noFile p hp := by
    rcases List.prefix_concat_iff.mp hp with rfl | hp
    · exact hfile
    · exact ht.noFile p hp

/-- A way can be gone once it has been made. By induction on the names that are left: every place above the
one that is reached is a directory, so the way may lead back to it. -/
theorem trodden_of_makeDirsFrom (hnul : ∀ name ∈ rest, hasNul name = false)
    (habove : ∀ q, q <+: Path.settled before → t.isDir q = true ∧ t.files.has q = false)
    (ht : t.Trodden before) (h : makeDirsFrom (Path.settled before) rest t = (.ok (), t')) :
    t'.Trodden (before ++ rest) := by
  induction rest generalizing before t with
  | nil =>
    cases h
    rw [List.append_nil]
    exact ht
  | cons s rest ih =>
    obtain ⟨hs, hrest⟩ := List.forall_mem_cons.mp hnul
    have hsettled := settled_concat before s
    rw [List.append_cons]
    unfold makeDirsFrom at h
    dsimp only at h
    split at h
    · -- back to a place above
      rename_i hup
      rw [if_pos hup] at hsettled
      have hback (q : Path) (hq : q <+: Path.settled (before ++ [s])) : t.isDir q = true ∧ t.files.has q = false :=
        habove q (hq.trans (hsettled ▸ List.dropLast_prefix _))
      have hshort : tooLong s = false := by
        rw [beq_iff_eq.mp hup]
        decide
      have hhere := hback _ (List.prefix_refl _)
      rw [← hsettled] at h
      exact ih hrest hback (ht.concat ⟨hs, hshort⟩ hhere.1 hhere.2) h
    · -- on to a directory, which is made unless it is there
      rename_i hup
      rw [if_neg hup] at hsettled
      split at h
      · cases h
      · rename_i hfile
        split at h
        · cases h
        · rename_i hshort
          rw [← hsettled] at h hfile
          have hadded : (t.addDir (Path.settled (before ++ [s]))).Trodden before := by
            refine ht.mono (fun q hq => isDir_addDir.mpr (.inl hq)) fun q _ hq => ?_
            rw [files_addDir]
            exact hq
          have hon (q : Path) (hq : q <+: Path.settled (before ++ [s])) :
              (t.addDir (Path.settled (before ++ [s]))).isDir q = true ∧
                (t.addDir (Path.settled (before ++ [s]))).files.has q = false := by
            rw [isDir_addDir, files_addDir]
            rw [hsettled] at hq ⊢
            rcases List.prefix_concat_iff.mp hq with rfl | hq
            · exact ⟨.inr rfl, hsettled ▸ Bool.eq_false_iff.mpr hfile⟩
            · exact ⟨.inl (habove q hq).1, (habove q hq).2⟩
          have hhere := hon _ (List.prefix_refl _)
          exact ih hrest hon (hadded.concat ⟨hs, Bool.eq_false_iff.mpr hshort⟩ hhere.1 hhere.2) h

theorem Sound.trodden_of_makeDirs (ht : t.Sound) (h : FileTree.makeDirs way t = (.ok (), t')) : t'.Trodden way := by
  have hroot : t.files.has [] = false := by
    apply Bool.eq_false_iff.mpr
    intro hfile
    have hdir := ht.apart [] hfile
    cases hdir
  unfold FileTree.makeDirs at h
  split at h
  · cases h
  · rename_i hnul
    have hnames : ∀ name ∈ way, hasNul name = false := by simpa using hnul
    refine trodden_of_makeDirsFrom hnames ?_ (.start hroot) h
    intro q hq
    rw [List.prefix_nil.mp hq]
    exact ⟨rfl, hroot⟩

/-! ## What changes -/

/-- Two trees have the same at every place but some. -/
def AgreesOff (places : Path → Prop) (t t' : FileTree) : Prop :=
  ∀ q, ¬ places q → t'.files.get? q = t.files.get? q ∧ t'.isDir q = t.isDir q

/-- The places below a directory that are no repository's own. -/
def Below (dir q : Path) : Prop := ∃ names, q = dir ++ names ∧ names ≠ [] ∧ ∀ s ∈ names, s ≠ ".." ∧ s ≠ ".git"

theorem AgreesOff.refl (places : Path → Prop) (t : FileTree) : AgreesOff places t t := fun _ _ => ⟨rfl, rfl⟩

theorem AgreesOff.trans {places : Path → Prop} {t'' : FileTree} (h : AgreesOff places t t')
    (h' : AgreesOff places t' t'') : AgreesOff places t t'' := by
  intro q hq
  obtain ⟨hfiles, hdirs⟩ := h q hq
  obtain ⟨hfiles', hdirs'⟩ := h' q hq
  exact ⟨hfiles'.trans hfiles, hdirs'.trans hdirs⟩

theorem agreesOff_addDir {places : Path → Prop} (h : places p) (t : FileTree) : AgreesOff places t (t.addDir p) := by
  intro q hq
  rw [files_addDir]
  refine ⟨rfl, ?_⟩
  rw [Bool.eq_iff_iff, isDir_addDir]
  constructor
  · rintro (hold | rfl)
    · exact hold
    · exact absurd h hq
  · exact .inl

/-- Directories that are made one inside the other are below the one they start from. -/
theorem agreesOff_makeDirsFrom (hbefore : ∀ s ∈ before, s ≠ ".." ∧ s ≠ ".git")
    (hnames : ∀ s ∈ names, s ≠ ".." ∧ s ≠ ".git") (t : FileTree) :
    AgreesOff (Below dir) t (makeDirsFrom (dir ++ before) names t).2 := by
  induction names generalizing before t with
  | nil => exact .refl _ t
  | cons s rest ih =>
    obtain ⟨hs, hrest⟩ := List.forall_mem_cons.mp hnames
    have hhere : ∀ s' ∈ before ++ [s], s' ≠ ".." ∧ s' ≠ ".git" := by
      simpa [or_imp, forall_and] using ⟨⟨fun a ha => (hbefore a ha).1, hs.1⟩, fun a ha => (hbefore a ha).2, hs.2⟩
    have hbelow : Below dir (dir ++ (before ++ [s])) := ⟨before ++ [s], rfl, by simp, hhere⟩
    unfold makeDirsFrom
    dsimp only
    rw [if_neg (by simpa using hs.1)]
    split
    · exact .refl _ t
    · split
      · exact .refl _ t
      · rw [List.append_assoc]
        exact (agreesOff_addDir hbelow t).trans (ih hhere hrest _)

/-- What is written was no directory. -/
theorem agreesOff_openAndWrite {places : Path → Prop} (h : t.isDir p = false → places p) (ends : Ending)
    (new : Option String → String) : AgreesOff places t (t.openAndWrite p ends new).2 := by
  unfold openAndWrite
  split
  · exact .refl _ t
  · rename_i hopen
    intro q hq
    refine ⟨?_, rfl⟩
    have hne : q ≠ p := by
      rintro rfl
      exact hq (h (isDir_of_openFault hopen))
    rw [PathMap.get?_insert, if_neg hne]

/-- **Writing behind a way changes nothing but places below the directory that the way leads to.** -/
theorem Trodden.agrees_writeAt (ht : t.Trodden way) (hnames : ∀ s ∈ names, s ≠ ".." ∧ s ≠ ".git")
    (ends : Ending) (new : Option String → String) :
    AgreesOff (Below (Path.settled way)) t (t.writeAt (way ++ names) ends new).2 := by
  have hmade : AgreesOff (Below (Path.settled way)) t
      (FileTree.makeDirsFrom (Path.settled way ++ []) names.dropLast t).2 :=
    agreesOff_makeDirsFrom (by simp) (fun s hs => hnames s (List.dropLast_subset names hs)) t
  rw [List.append_nil] at hmade
  rw [ht.writeAt_eq (fun s hs => (hnames s hs).1)]
  split
  · exact .refl _ t
  · split
    · rename_i h
      rw [h] at hmade
      exact hmade
    · rename_i t' h
      rw [h] at hmade
      refine hmade.trans (agreesOff_openAndWrite (fun hdir => ⟨names, rfl, ?_, hnames⟩) ends new)
      -- the directory itself is there and stays one
      rintro rfl
      have hstill := isDir_makeDirsFrom (Path.settled way) (List.dropLast []) ht.isDir_settled
      rw [h, ← List.append_nil (Path.settled way), hdir] at hstill
      cases hstill

theorem Trodden.writeAt (ht : t.Trodden way) (hnames : ∀ s ∈ names, s ≠ "..") (ends : Ending)
    (new : Option String → String) : ((t.writeAt (way ++ names) ends new).2).Trodden way := by
  have hmade : ((FileTree.makeDirsFrom (Path.settled way) names.dropLast t).2).Trodden way := by
    refine ht.mono (fun q hq => isDir_makeDirsFrom _ _ hq) fun q _ hq => ?_
    rw [files_makeDirsFrom]
    exact hq
  rw [ht.writeAt_eq hnames]
  split
  · exact ht
  · split
    · rename_i h
      rw [h] at hmade
      exact hmade
    · rename_i t' h
      rw [h] at hmade
      unfold openAndWrite
      split
      · exact hmade
      · rename_i hopen
        refine hmade.mono (fun q hq => hq) fun q hdir hq => ?_
        have hne : (q == Path.settled way ++ names) = false := by
          rw [beq_eq_false_iff_ne]
          rintro rfl
          exact Bool.false_ne_true ((isDir_of_openFault hopen).symm.trans hdir)
        rw [PathMap.has_insert, hne, hq]
        rfl

/-! ## Seen from the directory -/

/-- A tree is what stands below a directory of another one. -/
structure Mounted (dir : Path) (inner t : FileTree) : Prop where
  files : ∀ p, t.files.get? (dir ++ p) = inner.files.get? p
  dirs : ∀ p, t.isDir (dir ++ p) = inner.isDir p

theorem Mounted.has (hm : Mounted dir inner t) (p : Path) : t.files.has (dir ++ p) = inner.files.has p := by
  rw [PathMap.has, PathMap.has, hm.files]

theorem Mounted.addDir (hm : Mounted dir inner t) (p : Path) : Mounted dir (inner.addDir p) (t.addDir (dir ++ p)) := by
  refine ⟨fun q => ?_, fun q => ?_⟩
  · rw [files_addDir, files_addDir, hm.files]
  · rw [Bool.eq_iff_iff, isDir_addDir, isDir_addDir, hm.dirs, List.append_cancel_left_eq]

theorem Mounted.insert (hm : Mounted dir inner t) (p : Path) (content : String) :
    Mounted dir { inner with files := inner.files.insert p content }
      { t with files := t.files.insert (dir ++ p) content } := by
  refine ⟨fun q => ?_, hm.dirs⟩
  simp only [PathMap.get?_insert, List.append_cancel_left_eq, hm.files]

/-- Directories are made at both places alike. By induction on their names. -/
theorem Mounted.makeDirsFrom (hm : Mounted dir inner t) (hnames : ∀ s ∈ names, s ≠ "..") (before : Path) :
    (FileTree.makeDirsFrom (dir ++ before) names t).1 = (FileTree.makeDirsFrom before names inner).1 ∧
      Mounted dir (FileTree.makeDirsFrom before names inner).2
        (FileTree.makeDirsFrom (dir ++ before) names t).2 := by
  induction names generalizing before t inner with
  | nil => exact ⟨rfl, hm⟩
  | cons s rest ih =>
    obtain ⟨hs, hrest⟩ := List.forall_mem_cons.mp hnames
    have hup : (s == "..") = false := beq_eq_false_iff_ne.mpr hs
    unfold FileTree.makeDirsFrom
    simp only [hup, Bool.false_eq_true, if_false, List.append_assoc, hm.has]
    split
    · exact ⟨rfl, hm⟩
    · split
      · exact ⟨rfl, hm⟩
      · exact ih (hm.addDir (before ++ [s])) hrest (before ++ [s])

/-- A file is opened at both places alike, if the names of the directory are not refused themselves. -/
theorem Mounted.openFault (hm : Mounted dir inner t)
    (hdir : ∀ name ∈ dir, hasNul name = false ∧ tooLong name = false) (p : Path) (ends : Ending) :
    t.openFault (dir ++ p) ends = inner.openFault p ends := by
  have hnul : dir.any hasNul = false :=
    List.any_eq_false.mpr fun name hname => Bool.eq_false_iff.mp (hdir name hname).1
  have hlong : dir.any tooLong = false :=
    List.any_eq_false.mpr fun name hname => Bool.eq_false_iff.mp (hdir name hname).2
  unfold FileTree.openFault
  rw [List.any_append, List.any_append, hnul, hlong, Bool.false_or, Bool.false_or, hm.dirs]
  unfold place
  rw [hm.files, hm.dirs]
  cases inner.files.get? p with
  | some content => rfl
  | none =>
    cases inner.isDir p with
    | true => rfl
    | false =>
      cases (dir ++ p).parents.any t.files.has <;> cases p.parents.any inner.files.has <;> rfl

/-- **Writing behind a way is writing in what stands below the directory.** -/
theorem Mounted.writeAt (hm : Mounted (Path.settled way) inner t) (ht : t.Trodden way)
    (hnames : ∀ s ∈ names, s ≠ "..") (ends : Ending) (new : Option String → String) :
    (t.writeAt (way ++ names) ends new).1 = (inner.writeAt names ends new).1 ∧
      Mounted (Path.settled way) (inner.writeAt names ends new).2 (t.writeAt (way ++ names) ends new).2 := by
  have hinner : inner.Trodden [] := by
    apply Trodden.start
    rw [← hm.has, List.append_nil]
    exact ht.noFile_settled
  have hdir : ∀ name ∈ Path.settled way, hasNul name = false ∧ tooLong name = false :=
    fun name hname => ht.names name (mem_of_mem_settled hname)
  have hout := ht.writeAt_eq hnames ends new
  have hin := hinner.writeAt_eq hnames ends new
  have hmade := hm.makeDirsFrom (fun s hs => hnames s (List.dropLast_subset names hs)) []
  rw [List.append_nil] at hmade
  rw [List.nil_append, show Path.settled [] = [] from rfl, List.nil_append] at hin
  rw [hout, hin]
  cases names.dropLast.any hasNul with
  | true => exact ⟨rfl, hm⟩
  | false =>
    simp only [Bool.false_eq_true, if_false]
    rcases hi : FileTree.makeDirsFrom [] names.dropLast inner with ⟨a, inner'⟩
    rcases ho : FileTree.makeDirsFrom (Path.settled way) names.dropLast t with ⟨b, t'⟩
    rw [hi, ho] at hmade
    obtain ⟨rfl, hm'⟩ := hmade
    cases b with
    | error e => exact ⟨rfl, hm'⟩
    | ok u =>
      dsimp only
      unfold openAndWrite
      rw [hm'.openFault hdir, hm'.files]
      cases inner'.openFault names ends with
      | some e => exact ⟨rfl, hm'⟩
      | none => exact ⟨rfl, hm'.insert _ _⟩

/-! ## Putting it back -/

/-- What stands below a directory that can be gone to is seen from there. -/
theorem Trodden.mounted (ht : t.Trodden way) : Mounted (Path.settled way) (t.inside (Path.settled way)) t := by
  refine ⟨fun p => ?_, fun p => (isDir_inside ht.isDir_settled p).symm⟩
  by_cases hp : p = []
  · rw [hp, List.append_nil, get?_inside_nil]
    exact Option.isNone_iff_eq_none.mp (by simpa [PathMap.has] using ht.noFile_settled)
  · exact (get?_inside hp t _).symm

/-- A tree that differs from another one below a directory only is that one with what is seen from the
directory put back. -/
theorem Mounted.withInside (hm : Mounted dir inner t') (hdir : t.isDir dir = true)
    (hfile : t.files.has dir = false) (h : AgreesOff (Below dir) t t') (q : Path) :
    (t.withInside dir inner).files.get? q = t'.files.get? q ∧ (t.withInside dir inner).isDir q = t'.isDir q := by
  have hnotself : ¬ Below dir dir := by
    rintro ⟨names, heq, hne, _⟩
    exact hne (List.self_eq_append_right.mp heq)
  have hroot : inner.files.get? [] = none := by
    rw [← hm.files, List.append_nil, (h dir hnotself).1]
    exact Option.isNone_iff_eq_none.mp (by simpa [PathMap.has] using hfile)
  by_cases hq : Path.above dir q = true
  · obtain ⟨p, rfl, hp⟩ := Path.above_iff_append.mp hq
    refine ⟨(get?_withInside_below hp t dir).trans (hm.files p).symm, ?_⟩
    rw [hm.dirs, Bool.eq_iff_iff, isDir_iff, isDir_iff]
    simp [FileTree.withInside, hp, hq]
  · rw [Bool.not_eq_true] at hq
    have hoff : ¬ Below dir q := by
      rintro ⟨names, rfl, hne, _⟩
      rw [Path.above_append hne dir] at hq
      cases hq
    obtain ⟨hfiles, hdirs⟩ := h q hoff
    refine ⟨(get?_withInside_off hroot hq t).trans hfiles.symm, ?_⟩
    rw [hdirs, Bool.eq_iff_iff, isDir_iff, isDir_iff, FileTree.withInside, List.mem_append, List.mem_filter,
      hq, List.mem_map]
    constructor
    · rintro (hnil | ⟨hmem, _⟩ | ⟨p, _, rfl⟩)
      · exact .inl hnil
      · exact .inr hmem
      · by_cases hp : p = []
        · rw [hp, List.append_nil]
          exact isDir_iff.mp hdir
        · rw [Path.above_append hp dir] at hq
          cases hq
    · rintro (hnil | hmem)
      · exact .inl hnil
      · exact .inr (.inl ⟨hmem, rfl⟩)

end Chronicle.FileTree
