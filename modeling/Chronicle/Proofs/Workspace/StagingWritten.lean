import Chronicle.Proofs.FileTree.Clear
import Chronicle.Proofs.Repository.Names
import Chronicle.Proofs.Workspace.Revising

/-!
# Staging what was written

A file is written under any text that leads to its place, empty segments and dots left out, while an index takes
the segments of a text as they are. So **a file that was written is staged under the text it was written under
if and only if that text is spelt plainly** (`Workspace.stage_written`): every segment of it is a name on the path.
-/

namespace Chronicle

/-- A segment that leads somewhere. -/
def isStep (s : String) : Bool := s != "" && s != "."

theorem Path.normal_eq (text : String) : Path.normal text = (segments text).filter isStep := rfl

/-- A text is spelt plainly if all its segments lead on. -/
theorem segments_eq_normal_iff {text : String} :
    segments text = Path.normal text ↔ ∀ s ∈ segments text, isStep s = true := by
  rw [Path.normal_eq, eq_comm, List.filter_eq_self]

/-- A path is written out plainly. -/
theorem Path.Proper.segments_render {p : Path} (hp : p.Proper) : segments p.render = p :=
  segments_intercalate hp.ne_nil hp.names

/-- No NUL stands in a text if none stands in its segments. -/
theorem hasNul_of_segments {text : String} (h : ∀ s ∈ segments text, FileTree.hasNul s = false) :
    FileTree.hasNul text = false := by
  apply Bool.eq_false_iff.mpr
  intro hnul
  rcases mem_pieces (List.contains_iff_mem.mp hnul) with heq | ⟨piece, hpiece, hmem⟩
  · revert heq
    decide
  · have hnone := h (String.ofList piece) (List.mem_map_of_mem hpiece)
    rw [FileTree.hasNul, String.toList_ofList, Bool.eq_false_iff] at hnone
    exact hnone (List.contains_iff_mem.mpr hmem)

namespace FileTree

variable {t t' : FileTree} {base : Path} {names : List String} {text : String}
  {new : Option String → String} {index : Tree}

/-! ## Where a text leads -/

/-- Segments are followed to where they lead, if all that lie on the way are directories. By induction on the
segments: a directory is asked for wherever a segment leads nowhere. -/
theorem walk_eq (hup : ∀ s ∈ names, s ≠ "..")
    (hway : ∀ front, front <+: names → front ≠ names → t.walk (base ++ front.filter isStep) [] = .directory) :
    t.walk base names = t.walk (base ++ names.filter isStep) [] := by
  induction names generalizing base with
  | nil => rw [List.filter_nil, List.append_nil]
  | cons s rest ih =>
    obtain ⟨hs, hrest⟩ := List.forall_mem_cons.mp hup
    have hnext (front : List String) (hfront : front <+: rest) (hne : front ≠ rest) :
        t.walk (base ++ (s :: front).filter isStep) [] = .directory :=
      hway (s :: front) (List.cons_prefix_cons.mpr ⟨rfl, hfront⟩) (by simpa using hne)
    cases hs' : isStep s with
    | true =>
      have hname : (s == "" || s == "." || s == "..") = false := by
        simp only [isStep, Bool.and_eq_true, bne_iff_ne] at hs'
        simp [hs'.1, hs'.2, hs]
      have hstep : t.walk base (s :: rest) = t.walk (base ++ [s]) rest := by
        rw [walk, hname]
        rfl
      rw [hstep, List.filter_cons_of_pos hs', List.append_cons base s (rest.filter isStep)]
      refine ih hrest fun front hfront hne => ?_
      have hdir := hnext front hfront hne
      rwa [List.filter_cons_of_pos hs', List.append_cons] at hdir
    | false =>
      have hskip : (s == "" || s == "." || s == "..") = true := by
        simp only [isStep, Bool.and_eq_false_iff, bne_eq_false_iff_eq] at hs'
        rcases hs' with rfl | rfl <;> rfl
      have hhere : t.walk base [] = .directory := by
        have hdir := hway [] List.nil_prefix (List.cons_ne_nil s rest).symm
        rwa [List.filter_nil, List.append_nil] at hdir
      have hback : (s == "..") = false := beq_eq_false_iff_ne.mpr hs
      have hstep : t.walk base (s :: rest) = t.walk base rest := by
        rw [walk, hskip, hhere, hback]
        rfl
      rw [hstep, List.filter_cons_of_neg (by simp [hs'])]
      refine ih hrest fun front hfront hne => ?_
      have hdir := hnext front hfront hne
      rwa [List.filter_cons_of_neg (by simp [hs'])] at hdir

/-- A text that does not end with a slash or a dot ends with a name. -/
theorem last_isStep (h : ending text = .name) : ∃ init last, segments text = init ++ [last] ∧ isStep last = true := by
  obtain ⟨init, last, hlast⟩ : ∃ init last, segments text = init ++ [last] :=
    ⟨_, _, (List.dropLast_concat_getLast (segments_ne_nil text)).symm⟩
  refine ⟨init, last, hlast, ?_⟩
  unfold ending at h
  rw [hlast, List.reverse_append, List.reverse_singleton, List.singleton_append, List.getLast?_concat] at h
  by_cases hempty : last = ""
  · -- an empty segment at the end is a slash, if no dot stands before it
    rw [hempty] at h
    split at h
    · cases h
    · simp at h
  · rw [List.dropWhile_cons_of_neg (by simpa using hempty)] at h
    have hdot : last ≠ "." := by
      rintro rfl
      cases h
    simp [isStep, hempty, hdot]

/-- What is known of a file that was just written. -/
structure Written (t : FileTree) (text content : String) : Prop where
  inside : isInside text = true
  sound : t.Sound
  file : t.files.get? (Path.normal text) = some content
  noNul : ∀ s ∈ Path.normal text, hasNul s = false
  last : ∃ init last, segments text = init ++ [last] ∧ isStep last = true

theorem Written.of_write (ht : t.Sound) (hin : isInside text = true)
    (h : t.write text new = (.ok (), t')) : t'.Written text (new (t.files.get? (Path.normal text))) := by
  have hsound := ht.write hin new
  rw [h] at hsound
  refine ⟨hin, hsound, ?_, ?_, last_isStep (ending_of_write_ok h)⟩
  · rw [(write_ok hin h).1, PathMap.get?_insert, if_pos rfl]
  · intro s hs
    unfold write at h
    dsimp only at h
    split at h
    · cases h
    · rename_i made hmade
      split at h
      · cases h
      · rename_i hopen
        unfold openFault at hopen
        split at hopen
        · cases hopen
        · rename_i hnul
          exact Bool.eq_false_iff.mpr fun hnul' => hnul (List.any_eq_true.mpr ⟨s, hs, hnul'⟩)

variable {content : String}

/-- Where a file was written, its text leads to it. -/
theorem Written.walk (h : t.Written text content) : t.walk [] (segments text) = .file content := by
  have hsegments := (isInside_iff.mp h.inside).2.2
  have hplace {p : Path} (hp : ∀ s ∈ p, s ≠ ".git") (hne : p ≠ []) : t.walk p [] = t.place p := by
    rw [FileTree.walk, if_neg]
    intro hown
    obtain ⟨s, rest, rfl⟩ := List.exists_cons_of_ne_nil hne
    have hgit : s = ".git" := by
      simp only [ownEntries, List.mem_cons, List.cons.injEq, List.not_mem_nil, or_false] at hown
      rcases hown with ⟨hs, -⟩ | ⟨hs, -⟩ | ⟨hs, -⟩ | ⟨hs, -⟩ | ⟨hs, -⟩ | ⟨hs, -⟩ | ⟨hs, -⟩ <;> exact hs
    exact hp s List.mem_cons_self hgit
  have hhas : t.files.has (Path.normal text) = true := by
    rw [PathMap.has, h.file]
    rfl
  have hnames : ∀ s ∈ Path.normal text, s ≠ ".git" := fun s hs => (hsegments s (List.mem_filter.mp hs).1).2
  have hwalk : t.walk [] (segments text) = t.walk (Path.normal text) [] := by
    refine walk_eq (fun s hs => (hsegments s hs).1) fun front hfront hne => ?_
    -- the last segment is a name, so what leads up to it leads to a place above the file
    obtain ⟨init, last, hlast, hleads⟩ := h.last
    have hinit : front <+: init := by
      rw [hlast] at hfront hne
      exact (List.prefix_concat_iff.mp hfront).resolve_left hne
    have habove : Path.above (front.filter isStep) (Path.normal text) = true := by
      rw [Path.normal_eq, hlast, List.filter_append, List.filter_cons_of_pos hleads]
      obtain ⟨more, rfl⟩ := hinit
      rw [List.filter_append, List.append_assoc]
      exact Path.above_append (by simp) _
    rw [List.nil_append]
    by_cases hroot : front.filter isStep = []
    · rw [hroot]
      have hnone := h.sound.files_of_isDir (d := []) rfl
      rw [FileTree.walk, if_neg (by decide), place, hnone]
      rfl
    · have hdir := h.sound.isDir_of_above (.inl hhas) habove
      have hin : ∀ s ∈ front.filter isStep, s ≠ ".git" := fun s hs =>
        (hsegments s (hfront.subset (List.mem_filter.mp hs).1)).2
      rw [hplace hin hroot, place, h.sound.files_of_isDir hdir, hdir]
      rfl
  rw [hwalk, hplace hnames (h.sound.ne_nil hhas), place, h.file]

theorem Written.proper (h : t.Written text content) : (Path.normal text).Proper := by
  have hhas : t.files.has (Path.normal text) = true := by
    rw [PathMap.has, h.file]
    rfl
  exact ⟨h.sound.ne_nil hhas, fun s hs => slash_not_mem_segments (List.mem_filter.mp hs).1⟩

/-- The file was written under the plain text of its path too. -/
theorem Written.plain (h : t.Written text content) {plain : String} (hplain : segments plain = Path.normal text) :
    Path.normal plain = Path.normal text ∧ t.Written plain content := by
  have hleads : ∀ s ∈ segments plain, isStep s = true := by
    intro s hs
    rw [hplain] at hs
    exact (List.mem_filter.mp hs).2
  have hnormal : Path.normal plain = Path.normal text := (segments_eq_normal_iff.mpr hleads).symm.trans hplain
  have hin : isInside plain = true := by
    refine isInside_iff.mpr ⟨?_, ?_, fun s hs => ?_⟩
    · rintro rfl
      exact absurd (hleads "" (by decide)) (by decide)
    · apply Bool.eq_false_iff.mpr
      intro habsolute
      exact absurd (hleads "" (startsWith_slash habsolute)) (by decide)
    · rw [hplain] at hs
      exact (isInside_iff.mp h.inside).2.2 s (List.mem_filter.mp hs).1
  have hlast := List.dropLast_concat_getLast (segments_ne_nil plain)
  exact ⟨hnormal, hin, h.sound, hnormal ▸ h.file, hnormal ▸ h.noNul, _, _, hlast.symm,
    hleads _ (List.getLast_mem _)⟩

/-! ## Staging it -/

/-- A text that is spelt plainly is taken by an index as its path is. -/
theorem Written.stage_plain (h : t.Written text content) (hfit : (Path.normal text).isStageable = true)
    (hplain : segments text = Path.normal text) : stageFile t text index = .ok (index.displace (Path.normal text) content) := by
  obtain ⟨hempty, habsolute, hsegments⟩ := isInside_iff.mp h.inside
  have hnul : hasNul text = false := hasNul_of_segments fun s hs => h.noNul s (hplain ▸ hs)
  have hfirst : ["", ".", ".."].contains ((segments text).headD "") = false := by
    obtain ⟨s, rest, hs⟩ := List.exists_cons_of_ne_nil (segments_ne_nil text)
    have hmem : s ∈ segments text := hs ▸ List.mem_cons_self
    have hleads := segments_eq_normal_iff.mp hplain s hmem
    simp only [isStep, Bool.and_eq_true, bne_iff_ne] at hleads
    rw [hs]
    simp [hleads.1, hleads.2, (hsegments s hmem).1]
  have hunfit : isUnfitForIndex text = false := by
    rw [isUnfitForIndex, hnul, hfirst]
    simpa [Path.isAbsolute] using habsolute
  have hall : ((segments text).all fun s => Path.isStageable [s]) = true := by
    rw [hplain]
    simpa [Path.isStageable] using hfit
  rw [stageFile, hunfit, h.walk, hall, hplain]
  rfl

/-- No index takes a text with an empty segment or a dot in it. -/
theorem Written.stage_other (h : t.Written text content) (hother : segments text ≠ Path.normal text) :
    stageFile t text index = .error .general := by
  have hall : ((segments text).all fun s => Path.isStageable [s]) = false := by
    rw [List.all_eq_false]
    rw [Ne, segments_eq_normal_iff] at hother
    push Not at hother
    obtain ⟨s, hs, hleads⟩ := hother
    refine ⟨s, hs, ?_⟩
    simp only [isStep, ne_eq, Bool.not_eq_true, Bool.and_eq_false_iff, bne_eq_false_iff_eq] at hleads
    rcases hleads with rfl | rfl <;> decide
  unfold stageFile
  split
  · rfl
  · rw [h.walk, hall]
    rfl

end FileTree

namespace Workspace

variable {dir : String} {tree : FileTree} {w w₁ : Workspace} {r : Repository} {text content : String}
  {a : Option String}

/-- A call that wrote a file has left it there, and nothing else of the repository. -/
theorem written_of_answer (ht : w.tree.Sound) (h : answer dir (.writeFile text content) w = (.ok a, w₁)) :
    w₁.tree.Written text content ∧ w₁.repository = w.repository := by
  have hwrite : w.write text (FileTree.replaced content) = (.ok a, w₁) := h
  unfold write at hwrite
  split at hwrite
  · cases hwrite
  · rename_i hin
    split at hwrite
    · rename_i t hw
      cases hwrite
      exact ⟨.of_write ht (by simpa using hin) hw, rfl⟩
    · cases hwrite

theorem answer_stage_file (hr : w.repository = some r) (text : String) :
    answer dir (.stage (.file text)) w =
      match stageFile w.tree text r.index with
      | .ok index => (w.keep { r with index, saved := index }).done
      | .error e => w.failed (.refused e) := by
  simp only [answer, hr]
  rfl

/-- A repository in which a file is staged. -/
def withFile : Workspace := run "." {} [.init "main", .writeFile "b" "1", .stage (.file "b")]

end Workspace

end Chronicle
