import Chronicle.Proofs.Generate.Writing

/-!
# Writing files as updates of a map

What the files of a tree say is a map from paths to texts, and a command that writes a file updates it at one
path (`Command.revise`), which is what the text of the path names however it is spelt. **A run of such commands
comes to the updates one after the other** (`Workspace.replay_revises`): nothing else becomes of the files, the
directories that are new are those around the files, and the repository, if there is one, has no part in it.
-/

namespace Chronicle

open Steps

/-! ## Spellings -/

/-- Where a text goes on behind a slash, its path goes on too. -/
theorem Path.normal_append_slash (before after : String) :
    Path.normal (before ++ "/" ++ after) = Path.normal before ++ Path.normal after := by
  rw [Path.normal, segments_append_slash, List.filter_append]
  rfl

/-- One slash more, a dot between slashes, and a dot in front lead nowhere. -/
theorem Path.normal_respelt (before after : String) :
    Path.normal (before ++ "//" ++ after) = Path.normal (before ++ "/" ++ after) ∧
    Path.normal (before ++ "/./" ++ after) = Path.normal (before ++ "/" ++ after) ∧
    Path.normal ("./" ++ after) = Path.normal after := by
  have htwice : before ++ "//" ++ after = before ++ "/" ++ "" ++ "/" ++ after := by
    simp [← String.toList_inj]
  have hdot : before ++ "/./" ++ after = before ++ "/" ++ "." ++ "/" ++ after := by
    simp [← String.toList_inj]
  have hfront : "./" ++ after = "." ++ "/" ++ after := by simp
  have hempty : Path.normal "" = [] := rfl
  have hhere : Path.normal "." = [] := rfl
  rw [htwice, hdot, hfront]
  simp only [Path.normal_append_slash, hempty, hhere, List.append_nil, List.nil_append, and_self]

namespace FileTree

variable {t t' : FileTree} {q base names : Path} {text text' : String} {new : Option String → String}

/-! ## Writing one file -/

/-- The directories that were asked for are there once they are made. -/
theorem isDir_of_makeDirsFrom_ok (hnames : ∀ s ∈ names, s ≠ "..") (h : makeDirsFrom base names t = (.ok (), t'))
    {front : Path} (hfront : front <+: names) (hne : front ≠ []) : t'.isDir (base ++ front) = true := by
  induction names generalizing base t front with
  | nil => exact absurd (List.prefix_nil.mp hfront) hne
  | cons s rest ih =>
    obtain ⟨hs, hrest⟩ := List.forall_mem_cons.mp hnames
    unfold makeDirsFrom at h
    dsimp only at h
    rw [if_neg (by simpa using hs)] at h
    split at h
    · cases h
    · split at h
      · cases h
      · obtain ⟨x, more, rfl⟩ := List.exists_cons_of_ne_nil hne
        obtain ⟨rfl, hmore⟩ := List.cons_prefix_cons.mp hfront
        by_cases hlast : more = []
        · -- the first one is made here and stays
          have hmade : (t.addDir (base ++ [x])).isDir (base ++ [x]) = true := isDir_addDir.mpr (.inr rfl)
          have hkept := isDir_makeDirsFrom (base ++ [x]) rest hmade
          rw [h] at hkept
          rw [hlast]
          exact hkept
        · rw [List.append_cons]
          exact ih hrest h hmore hlast

/-- Making directories leaves all files alone; what is new are the directories on the way. -/
theorem makeDirs_ok (hnames : ∀ s ∈ names, s ≠ "..") (h : makeDirs names t = (.ok (), t')) :
    t'.files = t.files ∧ ∀ q, t'.isDir q = true ↔ t.isDir q = true ∨ q <+: names ∧ q ≠ [] := by
  unfold makeDirs at h
  split at h
  · cases h
  · have hfiles := files_makeDirsFrom [] names t
    rw [h] at hfiles
    refine ⟨hfiles, fun q => ⟨fun hq => ?_, ?_⟩⟩
    · have hmade : (makeDirsFrom [] names t).2.isDir q = true := by rwa [h]
      rcases isDir_of_makeDirsFrom hnames hmade with hold | ⟨front, hfront, hne, rfl⟩
      · exact .inl hold
      · exact .inr ⟨hfront, hne⟩
    · rintro (hold | ⟨hfront, hne⟩)
      · have hkept := isDir_makeDirsFrom [] names hold
        rwa [h] at hkept
      · exact isDir_of_makeDirsFrom_ok hnames h hfront hne

/-- The beginnings of a path without its last name are the places on its way. -/
theorem mem_parents_iff_dropLast {p : Path} : q ∈ p.parents ↔ q <+: p.dropLast ∧ q ≠ [] := by
  rw [Path.mem_parents, Path.above_iff, and_comm]
  refine and_congr_left fun hne => ⟨fun ⟨hpre, hlt⟩ => ?_, fun hpre => ?_⟩
  · rw [List.prefix_iff_eq_take] at hpre ⊢
    rw [List.dropLast_eq_take, List.take_take, Nat.min_eq_left (by omega)]
    exact hpre
  · have hpos := List.length_pos_iff.mpr hne
    have hle := hpre.length_le
    rw [List.length_dropLast] at hle
    exact ⟨hpre.trans (List.dropLast_prefix p), by omega⟩

/-- **A file that is written** has its new text at the path that it is named by, and directories around it. -/
theorem write_ok (hin : isInside text = true) (h : t.write text new = (.ok (), t')) :
    t'.files = t.files.insert (Path.normal text) (new (t.files.get? (Path.normal text))) ∧
      ∀ q, t'.isDir q = true ↔ t.isDir q = true ∨ q ∈ (Path.normal text).parents := by
  have hnames : ∀ s ∈ (Path.normal text).dropLast, s ≠ ".." :=
    fun s hs => ne_up_of_isInside hin s (List.dropLast_subset _ hs)
  unfold write at h
  dsimp only at h
  split at h
  · cases h
  · rename_i made hmade
    obtain ⟨hfiles, hdirs⟩ := makeDirs_ok hnames hmade
    split at h
    · cases h
    · cases h
      refine ⟨by rw [hfiles], fun q => ?_⟩
      rw [mem_parents_iff_dropLast]
      exact hdirs q

/-- No file is opened under a text that ends with a slash or with a dot. -/
theorem ending_of_write_ok (h : t.write text new = (.ok (), t')) : ending text = .name := by
  unfold write at h
  dsimp only at h
  split at h
  · cases h
  · split at h
    · cases h
    · rename_i hopen
      unfold openFault at hopen
      split at hopen
      · cases hopen
      · cases hending : ending text with
        | name => rfl
        | slash =>
          rw [hending] at hopen
          cases hopen
        | dot =>
          rw [hending] at hopen
          dsimp only at hopen
          split at hopen
          · cases hopen
          · split at hopen <;> cases hopen

/-- Of two spellings of a path that a file is written under, it does not matter which one is used. -/
theorem write_respelt {t'' : FileTree} (hsame : Path.normal text' = Path.normal text)
    (h : t.write text new = (.ok (), t')) (h' : t.write text' new = (.ok (), t'')) : t'' = t' := by
  have heq : t.write text' new = t.write text new := by
    unfold write
    rw [hsame, ending_of_write_ok h, ending_of_write_ok h']
  rw [heq, h] at h'
  cases h'
  rfl

end FileTree

/-! ## Commands -/

namespace Command

/-- What a command that writes a file makes of the texts at paths. Text that is added to a file that is not
there makes one. -/
def revise (texts : Path → Option String) : Command → Path → Option String
  | createFile file content | changeContent file content =>
    Function.update texts (Path.normal file) (some content)
  | appendContent file content newLine =>
    Function.update texts (Path.normal file)
      (some ((texts (Path.normal file)).getD "" ++ (if newLine then "\n" else "") ++ content))
  | _ => texts

/-- The text of the path that a command writes a file at, and how the file's text comes from the one it had. -/
def writing? : Command → Option (String × (Option String → String))
  | createFile file content | changeContent file content => some (file, FileTree.replaced content)
  | appendContent file content newLine => some (file, FileTree.extended (appended content newLine))
  | _ => none

/-- Two commands write the same, to one path that they may spell in two ways. -/
def Respelt (c d : Command) : Prop :=
  ∃ file file' new, c.writing? = some (file, new) ∧ d.writing? = some (file', new) ∧
    Path.normal file' = Path.normal file

theorem exists_writing {c : Command} (hc : c.writes = true) : ∃ file new, c.writing? = some (file, new) := by
  cases c with
  | createFile | changeContent | appendContent => exact ⟨_, _, rfl⟩
  | init _ | commit _ | branch _ | checkout _ | merge _ _ | tag _ _ | add _ => cases hc

theorem revise_eq {c : Command} {file : String} {new : Option String → String}
    (h : c.writing? = some (file, new)) (texts : Path → Option String) :
    revise texts c = Function.update texts (Path.normal file) (some (new (texts (Path.normal file)))) := by
  cases c with
  | createFile | changeContent =>
    cases h
    rfl
  | appendContent file content newLine =>
    cases h
    cases newLine <;> simp [revise, FileTree.extended, appended, String.append_assoc]
  | init _ | commit _ | branch _ | checkout _ | merge _ _ | tag _ _ | add _ => cases h

end Command

namespace Workspace

variable {dir : String} {w w' w'' : Workspace} {c d : Command} {cs ds : List Command}

/-- A command that writes is one call, which writes a file. -/
theorem runOn_writing {file : String} {new : Option String → String} (h : c.writing? = some (file, new)) :
    (c.replay (backend dir)).runOn w = ((w.write file new).1.map fun _ => (), (w.write file new).2) := by
  cases c with
  | createFile | changeContent | appendContent =>
    cases h
    exact runOn_discard w _
  | init _ | commit _ | branch _ | checkout _ | merge _ _ | tag _ _ | add _ => cases h

/-- What a command came to that wrote a file. -/
theorem write_of_ok {file : String} {new : Option String → String} (hc : c.writing? = some (file, new))
    (h : (c.replay (backend dir)).runOn w = (.ok (), w')) :
    FileTree.isInside file = true ∧ ∃ tree, w.tree.write file new = (.ok (), tree) ∧ w' = { w with tree } := by
  rw [runOn_writing hc] at h
  unfold write at h
  cases hin : FileTree.isInside file with
  | false =>
    rw [hin] at h
    cases h
  | true =>
    refine ⟨rfl, ?_⟩
    rw [hin] at h
    rcases hw : w.tree.write file new with ⟨e | _, tree⟩
    · rw [hw] at h
      cases h
    · rw [hw] at h
      cases h
      exact ⟨tree, rfl, rfl⟩

/-- What the files say after some commands, if they say `texts` before, and which directories there are. -/
structure Revised (cs : List Command) (w w' : Workspace) : Prop where
  files : w'.tree.files.get? = cs.foldl Command.revise w.tree.files.get?
  dirs : ∀ q, w'.tree.isDir q = true ↔ w.tree.isDir q = true ∨
    ∃ c ∈ cs, ∃ file new, c.writing? = some (file, new) ∧ q ∈ (Path.normal file).parents
  repository : w'.repository = w.repository

theorem Revised.of_write (hc : c.writes = true) (h : (c.replay (backend dir)).runOn w = (.ok (), w')) :
    Revised [c] w w' := by
  obtain ⟨file, new, hwriting⟩ := Command.exists_writing hc
  obtain ⟨hin, tree, hwrite, rfl⟩ := write_of_ok hwriting h
  obtain ⟨hfiles, hdirs⟩ := FileTree.write_ok hin hwrite
  refine ⟨?_, fun q => ?_, rfl⟩
  · rw [List.foldl_cons, List.foldl_nil, Command.revise_eq hwriting]
    funext q
    rw [hfiles, PathMap.get?_insert, Function.update_apply]
  · rw [hdirs q]
    simp [hwriting]

/-- Two runs one after the other. -/
theorem Revised.cons {rest : List Command} (h : Revised [c] w w') (hrest : Revised rest w' w'') :
    Revised (c :: rest) w w'' := by
  refine ⟨?_, fun q => ?_, hrest.repository.trans h.repository⟩
  · rw [hrest.files, h.files]
    rfl
  · rw [hrest.dirs, h.dirs, or_assoc]
    simp only [List.mem_cons, List.not_mem_nil, or_false, exists_eq_or_imp, exists_eq_left]

/-- By induction on the commands: each starts from what the ones before it left. -/
theorem Revised.of_replay (hcs : ∀ c ∈ cs, c.writes = true)
    (h : (replay (backend dir) cs).runOn w = (.ok (), w')) : Revised cs w w' := by
  induction cs generalizing w with
  | nil =>
    cases h
    exact ⟨rfl, fun q => by simp, rfl⟩
  | cons c rest ih =>
    obtain ⟨hc, hrest⟩ := List.forall_mem_cons.mp hcs
    obtain ⟨_, mid, hfirst, hthen⟩ := bind_of_ok h
    exact (Revised.of_write hc hfirst).cons (ih hrest hthen)

/-- Writing has no regard for the repository. -/
theorem replay_regardless (hcs : ∀ c ∈ cs, c.writes = true)
    (h : (replay (backend dir) cs).runOn w = (.ok (), w')) (r : Option Repository) :
    (replay (backend dir) cs).runOn { w with repository := r } = (.ok (), { w' with repository := r }) := by
  induction cs generalizing w with
  | nil =>
    cases h
    rfl
  | cons c rest ih =>
    obtain ⟨hc, hrest⟩ := List.forall_mem_cons.mp hcs
    obtain ⟨_, mid, hfirst, hthen⟩ := bind_of_ok h
    obtain ⟨file, new, hwriting⟩ := Command.exists_writing hc
    obtain ⟨hin, tree, hwrite, rfl⟩ := write_of_ok hwriting hfirst
    have hhere : (c.replay (backend dir)).runOn { w with repository := r } = (.ok (), ⟨tree, r⟩) := by
      rw [runOn_writing hwriting]
      simp only [write, hin, hwrite]
      rfl
    unfold replay
    rw [runOn_bind, hhere]
    exact ih hrest hthen

/-- An `init` is one call, which leaves the working tree alone. -/
theorem runOn_init (w : Workspace) (branch : String) :
    (replay (backend dir) [.init branch]).runOn w = ((w.init branch).1.map fun _ => (), (w.init branch).2) := by
  have hcall : runOn w ((backend dir).call (.init branch)) = w.init branch := rfl
  have hcommand : (Command.replay (backend dir) (.init branch)).runOn w = _ :=
    runOn_discard w ((backend dir).call (.init branch))
  unfold replay
  rw [runOn_bind, hcommand, hcall]
  rcases w.init branch with ⟨e | _, w₁⟩ <;> rfl

/-- It does not matter whether files are written before an `init` or after it. -/
theorem replay_init (hcs : ∀ c ∈ cs, c.writes = true)
    (h : (replay (backend dir) cs).runOn w = (.ok (), w')) {branch : String} {w₁ : Workspace}
    (hinit : (replay (backend dir) [.init branch]).runOn w = (.ok (), w₁)) :
    (replay (backend dir) cs).runOn w₁ = (replay (backend dir) [.init branch]).runOn w' := by
  have hrepository : w'.repository = w.repository := (Revised.of_replay hcs h).repository
  rw [runOn_init] at hinit ⊢
  unfold init at hinit ⊢
  split at hinit
  · cases hinit
  · rename_i hnul
    rw [if_neg hnul, hrepository]
    cases hr : w.repository <;> rw [hr] at hinit <;> cases hinit <;>
      exact replay_regardless hcs h _

/-- By induction on the commands and their other spellings together. -/
theorem replay_respelt (hcs : List.Forall₂ Command.Respelt cs ds)
    (h : (replay (backend dir) cs).runOn w = (.ok (), w'))
    (h' : (replay (backend dir) ds).runOn w = (.ok (), w'')) : w'' = w' := by
  induction hcs generalizing w with
  | nil =>
    cases h
    cases h'
    rfl
  | cons hcd _ ih =>
    obtain ⟨file, file', new, hwriting, hwriting', hsame⟩ := hcd
    obtain ⟨_, mid, hfirst, hthen⟩ := bind_of_ok h
    obtain ⟨_, mid', hfirst', hthen'⟩ := bind_of_ok h'
    obtain ⟨_, tree, hwrite, rfl⟩ := write_of_ok hwriting hfirst
    obtain ⟨_, tree', hwrite', rfl⟩ := write_of_ok hwriting' hfirst'
    obtain rfl := FileTree.write_respelt hsame hwrite hwrite'
    exact ih hthen hthen'

/-- **Writing files updates a map from paths to texts.** Where commands that write files are replayed and none
fails, the files say afterwards what they said before, updated by the commands in order: each at the path that
its text names, empty segments and single dots left out. No other file is changed, and the directories that are
new are those around the files that were written. The repository stays as it is, and with any other, or with
none, the same comes of the commands, also where an `init` is played before them instead of after them. However
the paths are spelt, a run that does not fail leaves the same. -/
theorem replay_revises (hcs : ∀ c ∈ cs, c.writes = true)
    (h : (replay (backend dir) cs).runOn w = (.ok (), w')) :
    w'.tree.files.get? = cs.foldl Command.revise w.tree.files.get? ∧
    (∀ q, (∀ c ∈ cs, ∀ file new, c.writing? = some (file, new) → Path.normal file ≠ q) →
      w'.tree.files.get? q = w.tree.files.get? q) ∧
    (∀ q, w'.tree.isDir q = true ↔ w.tree.isDir q = true ∨
      ∃ c ∈ cs, ∃ file new, c.writing? = some (file, new) ∧ q ∈ (Path.normal file).parents) ∧
    w'.repository = w.repository ∧
    (∀ r, (replay (backend dir) cs).runOn { w with repository := r } = (.ok (), { w' with repository := r })) ∧
    (∀ branch w₁, (replay (backend dir) [.init branch]).runOn w = (.ok (), w₁) →
      (replay (backend dir) cs).runOn w₁ = (replay (backend dir) [.init branch]).runOn w') ∧
    (∀ ds w'', List.Forall₂ Command.Respelt cs ds →
      (replay (backend dir) ds).runOn w = (.ok (), w'') → w'' = w') ∧
    ∀ before after, Path.normal (before ++ "//" ++ after) = Path.normal (before ++ "/" ++ after) ∧
      Path.normal (before ++ "/./" ++ after) = Path.normal (before ++ "/" ++ after) ∧
      Path.normal ("./" ++ after) = Path.normal after := by
  have hrevised := Revised.of_replay hcs h
  refine ⟨hrevised.files, fun q hq => ?_, hrevised.dirs, hrevised.repository, replay_regardless hcs h,
    fun branch w₁ hinit => replay_init hcs h hinit, fun ds w'' hds h'' => replay_respelt hds h h'',
    Path.normal_respelt⟩
  -- an update elsewhere is not seen at `q`
  rw [hrevised.files]
  generalize w.tree.files.get? = texts
  clear h hrevised
  induction cs generalizing texts with
  | nil => rfl
  | cons c rest ih =>
    obtain ⟨hc, hrest⟩ := List.forall_mem_cons.mp hcs
    obtain ⟨hhere, hthere⟩ := List.forall_mem_cons.mp hq
    obtain ⟨file, new, hwriting⟩ := Command.exists_writing hc
    rw [List.foldl_cons, ih hrest hthere, Command.revise_eq hwriting,
      Function.update_of_ne (Ne.symm (hhere file new hwriting))]

/-- Two files, one of them by three spellings. -/
def spelt : List Command :=
  [.createFile "src//a" "1", .appendContent "src/b" "x" true, .appendContent "./src/a" "2" true,
    .changeContent "src/./b" "y", .appendContent "src/a" "3" false]

/-- Without a repository the files come to what the updates say, and the same is written under other names
after an `init`. -/
theorem replay_revises_spelt : ∃ w', (replay (backend ".") spelt).runOn {} = (.ok (), w') ∧
    w'.tree.files.get? ["src", "a"] = some "1\n23" ∧ w'.tree.files.get? ["src", "b"] = some "y" ∧
    w'.tree.isDir ["src"] = true ∧
    (replay (backend ".") spelt).runOn { repository := some (.empty "main") } =
      (.ok (), { w' with repository := some (.empty "main") }) := by
  have hwrites : ∀ c ∈ spelt, c.writes = true := by decide
  have hrun : ((replay (backend ".") spelt).runOn {}).1 = .ok () := by decide +kernel
  obtain ⟨hfiles, -, hdirs, -, hregardless, -⟩ := replay_revises hwrites (Prod.ext hrun rfl)
  refine ⟨_, Prod.ext hrun rfl, ?_, ?_, ?_, hregardless (some (.empty "main"))⟩
  · rw [hfiles]
    decide +kernel
  · rw [hfiles]
    decide +kernel
  · exact (hdirs ["src"]).mpr (.inr ⟨.createFile "src//a" "1", by simp [spelt], "src//a", _, rfl, by decide +kernel⟩)

end Workspace

end Chronicle
