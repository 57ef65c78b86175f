import Chronicle.Proofs.Generate.Below
import Chronicle.Proofs.Replay.Basic
import Chronicle.Repository.Workspace

/-!
# Writing stays inside

Commands that write files are replayed on what stands below a directory. `Site.writer` writes the same
files where they are: the text of each is joined to that of the directory and read as a path from the start
of the disk. One call comes to the same at both places (`Site.Writing.write`), and so does a whole run
(`Site.Writing.replay`). Hence **whatever such a run makes or changes lies below the directory and in no
repository's own** (`Site.writing_stays_inside`).
-/

namespace Chronicle

/-- The commands that write a file and do nothing else. -/
def Command.writes : Command → Bool
  | createFile .. | changeContent .. | appendContent .. => true
  | _ => false

namespace Site

/-- Writes the file that a text names in the directory that `base` names, where it is on the disk. -/
def writeJoined (here : Target) (base path : String) (new : Option String → String) (t : FileTree) :
    Except RepositoryError (Option String) × FileTree :=
  if !FileTree.isInside path then (.error (.invalidPath path), t)
  else
    match t.writeAt (Target.ofText here (Path.join base path)).way (FileTree.ending (Path.join base path)) new with
    | (.ok (), t) => (.ok none, t)
    | (.error e, t) => (.error (.io e), t)

/-- The backend that writes files of the directory that `base` names, and answers nothing else. -/
def writer (here : Target) (base : String) : Backend FileTree RepositoryError where
  answer
    | .writeFile path content => writeJoined here base path (FileTree.replaced content)
    | .appendFile path content => writeJoined here base path (FileTree.extended content)
    | _ => fun t => (.error (Workspace.noRepository base), t)

/-- A workspace of the directory that `base` names, and the disk. -/
structure Writing (here : Target) (base : String) (w : Workspace) (t : FileTree) : Prop where
  trodden : t.Trodden (Target.ofText here base).way
  mounted : FileTree.Mounted (Target.ofText here base).dir w.tree t

variable {here : Target} {base : String} {w : Workspace} {t : FileTree}

/-- A file is written at both places alike, and nothing but places below the directory changes. -/
theorem Writing.write (hs : Writing here base w t) (path : String) (new : Option String → String) :
    (writeJoined here base path new t).1 = (w.write path new).1 ∧
      Writing here base (w.write path new).2 (writeJoined here base path new t).2 ∧
      (w.write path new).2.repository = w.repository ∧
      FileTree.AgreesOff (FileTree.Below (Target.ofText here base).dir) t (writeJoined here base path new t).2 := by
  unfold writeJoined Workspace.write
  cases hin : FileTree.isInside path with
  | false => exact ⟨rfl, hs, rfl, .refl _ t⟩
  | true =>
    obtain ⟨_, habsolute, hsegments⟩ := FileTree.isInside_iff.mp hin
    have hnames : ∀ s ∈ Path.normal path, s ≠ ".." ∧ s ≠ ".git" :=
      fun s hmem => hsegments s (List.mem_filter.mp hmem).1
    have hup : ∀ s ∈ Path.normal path, s ≠ ".." := fun s hmem => (hnames s hmem).1
    obtain ⟨hsame, hmounted⟩ := hs.mounted.writeAt hs.trodden hup (FileTree.ending path) new
    have htrodden := hs.trodden.writeAt hup (FileTree.ending path) new
    have hagrees := hs.trodden.agrees_writeAt hnames (FileTree.ending path) new
    rw [Target.way_join here base habsolute, FileTree.ending_join base hin, FileTree.write_eq_writeAt hin]
    simp only [Bool.not_true, Bool.false_eq_true, if_false]
    rcases ho : t.writeAt ((Target.ofText here base).way ++ Path.normal path) (FileTree.ending path) new
      with ⟨a, t'⟩
    rcases hi : w.tree.writeAt (Path.normal path) (FileTree.ending path) new with ⟨b, inner⟩
    rw [ho, hi] at hsame hmounted
    rw [ho] at htrodden hagrees
    -- the two answers are one, so what becomes of both places is told by one case split
    obtain rfl : a = b := hsame
    cases a with
    | error e => exact ⟨rfl, ⟨htrodden, hmounted⟩, rfl, hagrees⟩
    | ok u => exact ⟨rfl, ⟨htrodden, hmounted⟩, rfl, hagrees⟩

/-- A command that writes is one call, which writes a file. -/
theorem runOn_writes {c : Command} (hc : c.writes = true) (here : Target) (base : String) :
    ∃ path new,
      (∀ w, (c.replay (Workspace.backend base)).runOn w =
        ((w.write path new).1.map fun _ => (), (w.write path new).2)) ∧
      ∀ t, (c.replay (writer here base)).runOn t =
        ((writeJoined here base path new t).1.map fun _ => (), (writeJoined here base path new t).2) := by
  cases c with
  | createFile file content =>
    exact ⟨file, FileTree.replaced content, fun w => Steps.runOn_discard w _, fun t => Steps.runOn_discard t _⟩
  | changeContent file content =>
    exact ⟨file, FileTree.replaced content, fun w => Steps.runOn_discard w _, fun t => Steps.runOn_discard t _⟩
  | appendContent file content newLine =>
    exact ⟨file, FileTree.extended (appended content newLine), fun w => Steps.runOn_discard w _,
      fun t => Steps.runOn_discard t _⟩
  | init _ | commit _ | branch _ | checkout _ | merge _ _ | tag _ _ | add _ => cases hc

/-- By induction on the commands; a run ends at both places with the same command, if one fails. -/
theorem Writing.replay {cs : List Command} (hcs : ∀ c ∈ cs, c.writes = true) (hs : Writing here base w t) :
    ((Chronicle.replay (writer here base) cs).runOn t).1 =
        ((Chronicle.replay (Workspace.backend base) cs).runOn w).1 ∧
      Writing here base ((Chronicle.replay (Workspace.backend base) cs).runOn w).2
        ((Chronicle.replay (writer here base) cs).runOn t).2 ∧
      ((Chronicle.replay (Workspace.backend base) cs).runOn w).2.repository = w.repository ∧
      FileTree.AgreesOff (FileTree.Below (Target.ofText here base).dir) t
        ((Chronicle.replay (writer here base) cs).runOn t).2 := by
  induction cs generalizing w t with
  | nil => exact ⟨rfl, hs, rfl, .refl _ t⟩
  | cons c rest ih =>
    obtain ⟨hc, hrest⟩ := List.forall_mem_cons.mp hcs
    obtain ⟨path, new, hinner, houter⟩ := runOn_writes hc here base
    obtain ⟨hsame, hs', hrepository, hagrees⟩ := hs.write path new
    unfold Chronicle.replay
    rw [Steps.runOn_bind, Steps.runOn_bind, hinner, houter]
    rcases ho : writeJoined here base path new t with ⟨a, t'⟩
    rcases hi : w.write path new with ⟨b, w'⟩
    rw [ho] at hsame hs' hagrees
    rw [hi] at hsame hs' hrepository
    obtain rfl : a = b := hsame
    cases a with
    | error e => exact ⟨rfl, hs', hrepository, hagrees⟩
    | ok answer =>
      obtain ⟨hsame, hs'', hrepository', hagrees'⟩ := ih hrest hs'
      exact ⟨hsame, hs'', hrepository'.trans hrepository, hagrees.trans hagrees'⟩

/-- A directory that was made is there to be written in, and what is written there is put back. -/
theorem replay_withInside {tree made : FileTree} (htree : tree.Sound)
    (hmade : tree.makeDirs (Target.ofText here base).way = (.ok (), made)) {cs : List Command}
    (hcs : ∀ c ∈ cs, c.writes = true) (r : Option Repository) :
    let inner := (Chronicle.replay (Workspace.backend base) cs).runOn ⟨made.inside (Target.ofText here base).dir, r⟩
    let disk := (Chronicle.replay (writer here base) cs).runOn made
    disk.1 = inner.1 ∧ inner.2.repository = r ∧
      FileTree.AgreesOff (FileTree.Below (Target.ofText here base).dir) made disk.2 ∧
      ∀ q, (made.withInside (Target.ofText here base).dir inner.2.tree).files.get? q = disk.2.files.get? q ∧
        (made.withInside (Target.ofText here base).dir inner.2.tree).isDir q = disk.2.isDir q := by
  have htrodden : made.Trodden (Target.ofText here base).way := htree.trodden_of_makeDirs hmade
  have hs : Writing here base ⟨made.inside (Target.ofText here base).dir, r⟩ made := ⟨htrodden, htrodden.mounted⟩
  obtain ⟨hsame, hs', hrepository, hagrees⟩ := hs.replay hcs
  exact ⟨hsame, hrepository, hagrees,
    hs'.mounted.withInside htrodden.isDir_settled htrodden.noFile_settled hagrees⟩

/-- A place at which two trees differ, if they agree off the places below a directory. -/
theorem below_of_differs {dir q : Path} {t t' : FileTree} (h : FileTree.AgreesOff (FileTree.Below dir) t t')
    (hq : t'.files.get? q ≠ t.files.get? q ∨ t'.isDir q ≠ t.isDir q) : FileTree.Below dir q := by
  by_contra hoff
  obtain ⟨hfiles, hdirs⟩ := h q hoff
  rcases hq with hq | hq
  · exact hq hfiles
  · exact hq hdirs

/-- **Writing stays inside.** A text is taken for the path of a file just when it is not empty, does not
begin with a slash, and none of its segments is `..` or `.git`; joined to the text of a directory it leads
below that directory, to what its segments name, empty ones and dots left out. So commands that write
files, replayed on a directory that was made, come to the same on what stands below it, with a repository or
without, as on the disk, where each text is joined to that of the directory. However the run ends, the places
at which it makes or changes a file or a directory are below the directory, and neither a `.git` nor inside
one. The same holds of the places that generating with such commands changes once the directory is made. -/
theorem writing_stays_inside :
    (∀ text, FileTree.isInside text = true ↔
      text ≠ "" ∧ text.startsWith "/" = false ∧ ∀ s ∈ segments text, s ≠ ".." ∧ s ≠ ".git") ∧
    (∀ (here : Target) (base text : String), FileTree.isInside text = true →
      (Target.ofText here (Path.join base text)).dir =
        (Target.ofText here base).dir ++ (segments text).filter fun s => s != "" && s != ".") ∧
    (∀ (here : Target) (base : String) (tree made : FileTree) (r : Option Repository) (cs : List Command),
      tree.Sound → tree.makeDirs (Target.ofText here base).way = (.ok (), made) →
      (∀ c ∈ cs, c.writes = true) →
      let inner :=
        (Chronicle.replay (Workspace.backend base) cs).runOn ⟨made.inside (Target.ofText here base).dir, r⟩
      let disk := (Chronicle.replay (writer here base) cs).runOn made
      disk.1 = inner.1 ∧ inner.2.repository = r ∧
      (∀ q, (made.withInside (Target.ofText here base).dir inner.2.tree).files.get? q = disk.2.files.get? q ∧
        (made.withInside (Target.ofText here base).dir inner.2.tree).isDir q = disk.2.isDir q) ∧
      ∀ q, (disk.2.files.get? q ≠ made.files.get? q ∨ disk.2.isDir q ≠ made.isDir q) →
        ∃ names, q = (Target.ofText here base).dir ++ names ∧ names ≠ [] ∧ ∀ s ∈ names, s ≠ ".." ∧ s ≠ ".git") ∧
    (∀ (here : Target) (base : String) (s : Site) (made : FileTree) (cs : List Command), s.tree.Sound →
      s.holdsRepository (Target.ofText here base) = false →
      s.tree.makeDirs (Target.ofText here base).way = (.ok (), made) → (∀ c ∈ cs, c.writes = true) →
      (s.generateFrom (Target.ofText here base) cs).2.repository = none ∧
      ∀ q, ((s.generateFrom (Target.ofText here base) cs).2.tree.files.get? q ≠ made.files.get? q ∨
          (s.generateFrom (Target.ofText here base) cs).2.tree.isDir q ≠ made.isDir q) →
        ∃ names, q = (Target.ofText here base).dir ++ names ∧ names ≠ [] ∧
          ∀ s ∈ names, s ≠ ".." ∧ s ≠ ".git") := by
  refine ⟨fun _ => FileTree.isInside_iff, fun here base _ hin => Target.ofText_join here base hin, ?_, ?_⟩
  · intro here base tree made r cs htree hmade hcs
    obtain ⟨hsame, hrepository, hagrees, hback⟩ := replay_withInside htree hmade hcs r
    exact ⟨hsame, hrepository, hback, fun q hq => below_of_differs hagrees hq⟩
  · intro here base s made cs htree hfree hmade hcs
    obtain ⟨_, hrepository, hagrees, hback⟩ := replay_withInside htree hmade hcs none
    have hafter : (s.generateFrom (Target.ofText here base) cs).2 =
        ⟨made.withInside (Target.ofText here base).dir
          ((Chronicle.replay (Workspace.backend base) cs).runOn
            ⟨made.inside (Target.ofText here base).dir, none⟩).2.tree, none⟩ := by
      have hname : (Target.ofText here base).name = base := rfl
      unfold generateFrom requireNone
      rw [hfree, hmade, hname]
      rcases hrun : (Chronicle.replay (Workspace.backend base) cs).runOn
        ⟨made.inside (Target.ofText here base).dir, none⟩ with ⟨a, w⟩
      rw [hrun] at hrepository
      -- a run that fails has its tree put back too, and nothing but `init` brings a repository
      simp only [Bool.false_eq_true, if_false, hrun]
      rw [← hrepository]
      cases a <;> rfl
    rw [hafter]
    refine ⟨rfl, fun q hq => below_of_differs hagrees ?_⟩
    rw [← (hback q).1, ← (hback q).2]
    exact hq

/-- Three files to write: by way of empty segments and dots, once more by another spelling, and outside. -/
def threeFiles : List Command :=
  [.createFile "src//./a" "1", .appendContent "./src/a/" "2" true, .changeContent "src/../b" "3"]

/-- On an empty disk, where the directory `out` is made first, the files are written below it and nowhere
else. -/
theorem writing_stays_inside_out :
    (generateFrom ⟨"out", ["out"]⟩ threeFiles {}).2.repository = none ∧
    ∀ q, ((generateFrom ⟨"out", ["out"]⟩ threeFiles {}).2.tree.files.get? q ≠ none ∨
        (generateFrom ⟨"out", ["out"]⟩ threeFiles {}).2.tree.isDir q ≠ FileTree.isDir { dirs := [["out"]] } q) →
      ∃ names, q = "out" :: names ∧ names ≠ [] ∧ ∀ s ∈ names, s ≠ ".." ∧ s ≠ ".git" := by
  have hplace : Target.ofText ⟨".", []⟩ "out" = ⟨"out", ["out"]⟩ := by
    have hrelative : Path.isAbsolute "out" = false := by
      rw [Bool.eq_false_iff, Ne, Path.isAbsolute_iff]
      decide
    simp only [Target.ofText, hrelative]
    rfl
  have hwrites : ∀ c ∈ threeFiles, c.writes = true := by simp [threeFiles, Command.writes]
  have hall := writing_stays_inside.2.2.2 ⟨".", []⟩ "out" {} { dirs := [["out"]] } threeFiles .empty
  rw [hplace] at hall
  exact hall rfl rfl hwrites

end Site

end Chronicle
