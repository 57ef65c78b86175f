import Chronicle.Generate
import Chronicle.Proofs.FileTree.Sound

/-!
# Directories to generate in

What a repository is generated in is what stands below a directory, seen from there (`FileTree.inside`);
afterwards it is put back (`FileTree.inside_withInside`). A directory that is empty or missing, and can be
made, is `Site.Vacant`: **making it succeeds and leaves it empty** (`Site.Vacant.makeDirs`).
-/

namespace Chronicle

namespace FileTree

variable {t inner : FileTree} {p q dir : Path}

theorem hasRepository_eq_false (h : t.nothingBelow dir = true) : t.hasRepository dir = false := by
  obtain ⟨hfiles, hdirs⟩ := nothingBelow_iff.mp h
  have hbelow : Path.above dir (dir ++ [".git"]) = true := Path.above_append (by simp) dir
  unfold hasRepository
  rw [Bool.or_eq_false_iff]
  constructor
  · apply Bool.eq_false_iff.mpr
    intro hfile
    rw [hfiles _ hfile] at hbelow
    cases hbelow
  · apply Bool.eq_false_iff.mpr
    intro hdir
    rcases isDir_iff.mp hdir with hnil | hmem
    · simp at hnil
    · rw [hdirs _ hmem] at hbelow
      cases hbelow

theorem inside_eq_empty (h : t.nothingBelow dir = true) : t.inside dir = {} := by
  obtain ⟨hfiles, hdirs⟩ := nothingBelow_iff.mp h
  have hnofiles : (t.files.entries.filterMap fun e =>
      if Path.above dir e.1 then some (e.1.drop dir.length, e.2) else none) = [] := by
    rw [List.filterMap_eq_nil_iff]
    intro e he
    have hmem : e.1 ∈ t.files.paths := List.mem_map_of_mem he
    rw [hfiles e.1 (PathMap.mem_paths.mp hmem)]
    rfl
  have hnodirs : (t.dirs.filterMap fun p =>
      if Path.above dir p then some (p.drop dir.length) else none) = [] := by
    rw [List.filterMap_eq_nil_iff]
    intro p hp
    rw [hdirs p hp]
    rfl
  rw [inside, hnofiles, hnodirs]

/-- What is read back after it was written. -/
theorem filterMap_map_of_forall {α β : Type} {f : β → Option α} {g : α → β} {as : List α}
    (h : ∀ a ∈ as, f (g a) = some a) : (as.map g).filterMap f = as := by
  induction as with
  | nil => rfl
  | cons a rest ih =>
    rw [List.map_cons, List.filterMap_cons_some (h a List.mem_cons_self),
      ih fun a' ha' => h a' (List.mem_cons_of_mem a ha')]

/-- What is put below a directory is found there, and nothing else is. -/
theorem inside_withInside (hfiles : ∀ e ∈ inner.files.entries, e.1 ≠ [])
    (hdirs : ∀ p ∈ inner.dirs, p ≠ []) : (t.withInside dir inner).inside dir = inner := by
  have hin : (inner.files.entries.map fun e => (dir ++ e.1, e.2)).filterMap (fun e =>
      if Path.above dir e.1 then some (e.1.drop dir.length, e.2) else none) = inner.files.entries :=
    filterMap_map_of_forall fun e he => by simp [Path.above_append (hfiles e he) dir]
  have hout : (t.files.restrict fun p => !Path.above dir p).entries.filterMap (fun e =>
      if Path.above dir e.1 then some (e.1.drop dir.length, e.2) else none) = [] := by
    rw [List.filterMap_eq_nil_iff]
    intro e he
    have hkept : (!Path.above dir e.1) = true := (List.mem_filter.mp he).2
    rw [Bool.not_eq_true'] at hkept
    rw [hkept]
    rfl
  have hdirsin : (inner.dirs.map (dir ++ ·)).filterMap (fun p =>
      if Path.above dir p then some (p.drop dir.length) else none) = inner.dirs :=
    filterMap_map_of_forall fun p hp => by simp [Path.above_append (hdirs p hp) dir]
  have hdirsout : (t.dirs.filter fun p => !Path.above dir p).filterMap (fun p =>
      if Path.above dir p then some (p.drop dir.length) else none) = [] := by
    rw [List.filterMap_eq_nil_iff]
    intro p hp
    have hkept : (!Path.above dir p) = true := (List.mem_filter.mp hp).2
    rw [Bool.not_eq_true'] at hkept
    rw [hkept]
    rfl
  rw [inside, withInside, List.filterMap_append, List.filterMap_append, hin, hout, hdirsin, hdirsout,
    List.append_nil, List.nil_append]

/-! ## Place by place -/

theorem get?_inside (hp : p ≠ []) (t : FileTree) (dir : Path) :
    (t.inside dir).files.get? p = t.files.get? (dir ++ p) := by
  obtain ⟨⟨entries⟩, dirs⟩ := t
  show List.lookup p (entries.filterMap _) = entries.lookup (dir ++ p)
  induction entries with
  | nil => rfl
  | cons e rest ih =>
    obtain ⟨r, content⟩ := e
    by_cases hbelow : Path.above dir r = true
    · obtain ⟨names, rfl, _⟩ := Path.above_iff_append.mp hbelow
      have hsame : (dir ++ p == dir ++ names) = (p == names) := by
        rw [Bool.eq_iff_iff, beq_iff_eq, beq_iff_eq, List.append_cancel_left_eq]
      rw [List.filterMap_cons_some (by rw [if_pos hbelow, List.drop_left]), List.lookup_cons,
        List.lookup_cons, ih, hsame]
    · have hne : (dir ++ p == r) = false := by
        rw [beq_eq_false_iff_ne]
        rintro rfl
        exact hbelow (Path.above_append hp dir)
      rw [List.filterMap_cons_none (by rw [if_neg hbelow]), List.lookup_cons, hne, ih]

theorem get?_inside_nil (t : FileTree) (dir : Path) : (t.inside dir).files.get? [] = none := by
  rw [PathMap.get?, List.lookup_eq_none_iff]
  intro e he
  obtain ⟨e', _, he'⟩ := List.mem_filterMap.mp he
  split at he'
  · rename_i hbelow
    obtain ⟨names, hnames, hne⟩ := Path.above_iff_append.mp hbelow
    cases he'
    rw [hnames, List.drop_left]
    simpa using hne.symm
  · cases he'

theorem isDir_inside (hdir : t.isDir dir = true) (p : Path) : (t.inside dir).isDir p = t.isDir (dir ++ p) := by
  by_cases hp : p = []
  · rw [hp, List.append_nil, hdir]
    rfl
  · rw [Bool.eq_iff_iff, isDir_iff, isDir_iff]
    simp only [hp, List.append_eq_nil_iff, and_false, false_or, inside, List.mem_filterMap]
    constructor
    · rintro ⟨q, hq, hmem⟩
      split at hmem
      · rename_i hbelow
        obtain ⟨names, rfl, _⟩ := Path.above_iff_append.mp hbelow
        rw [List.drop_left] at hmem
        cases hmem
        exact hq
      · cases hmem
    · intro hmem
      exact ⟨dir ++ p, hmem, by rw [Path.above_append hp dir, if_pos rfl, List.drop_left]⟩

theorem lookup_map_append (entries : List (Path × String)) (dir p : Path) :
    List.lookup (dir ++ p) (entries.map fun e => (dir ++ e.1, e.2)) = entries.lookup p := by
  induction entries with
  | nil => rfl
  | cons e rest ih =>
    have hsame : (dir ++ p == dir ++ e.1) = (p == e.1) := by
      rw [Bool.eq_iff_iff, beq_iff_eq, beq_iff_eq, List.append_cancel_left_eq]
    rw [List.map_cons, List.lookup_cons, hsame, ih]
    rfl

theorem get?_withInside_below (hp : p ≠ []) (t : FileTree) (dir : Path) :
    (t.withInside dir inner).files.get? (dir ++ p) = inner.files.get? p := by
  have hout : (t.files.restrict fun q => !Path.above dir q).get? (dir ++ p) = none := by
    rw [PathMap.get?_restrict, Path.above_append hp dir]
    rfl
  rw [PathMap.get?] at hout
  rw [withInside, PathMap.get?, List.lookup_append, lookup_map_append, hout, Option.or_none]
  rfl

theorem get?_withInside_off (hroot : inner.files.get? [] = none) (hq : Path.above dir q = false) (t : FileTree) :
    (t.withInside dir inner).files.get? q = t.files.get? q := by
  have hin : List.lookup q (inner.files.entries.map fun e => (dir ++ e.1, e.2)) = none := by
    rw [List.lookup_eq_none_iff]
    intro e' he'
    obtain ⟨e, he, rfl⟩ := List.mem_map.mp he'
    rw [bne_iff_ne]
    rintro rfl
    by_cases hnil : e.1 = []
    · -- nothing is kept for the directory itself
      have hhas : inner.files.has [] = true := PathMap.mem_paths.mp (hnil ▸ List.mem_map_of_mem he)
      rw [PathMap.has, hroot] at hhas
      cases hhas
    · rw [Path.above_append hnil dir] at hq
      cases hq
  have hout := PathMap.get?_restrict t.files (fun q => !Path.above dir q) q
  rw [hq, PathMap.get?] at hout
  rw [withInside, PathMap.get?, List.lookup_append, hin, hout]
  rfl

/-! ## Making a directory -/

theorem settled_concat (before : Path) (s : String) : Path.settled (before ++ [s]) =
    if s == ".." then (Path.settled before).dropLast else Path.settled before ++ [s] := by
  rw [Path.settled, List.foldl_append]
  rfl

/-- Making the directories on a way that is free succeeds, and leaves a directory empty that the way does
not lead into. By induction on the names that are left of the way. -/
theorem makeDirsFrom_free {way before : Path} {names : List String} (hway : way = before ++ names)
    (hnames : ∀ name ∈ way, tooLong name = false)
    (hfree : ∀ before, before <+: way → t.files.has (Path.settled before) = false)
    (houtside : ∀ before, before <+: way → Path.above dir (Path.settled before) = false)
    (hempty : t.nothingBelow dir = true) :
    ∃ t', makeDirsFrom (Path.settled before) names t = (.ok (), t') ∧ t'.nothingBelow dir = true := by
  induction names generalizing before t with
  | nil => exact ⟨t, rfl, hempty⟩
  | cons s rest ih =>
    have hnext : way = (before ++ [s]) ++ rest := by rw [hway, List.append_assoc, List.singleton_append]
    have hhere : before ++ [s] <+: way := hnext ▸ List.prefix_append _ _
    have hsettled := settled_concat before s
    unfold makeDirsFrom
    dsimp only
    by_cases hup : (s == "..") = true
    · rw [if_pos hup] at hsettled ⊢
      rw [← hsettled]
      exact ih hnext hfree hempty
    · rw [if_neg hup] at hsettled ⊢
      have hshort : tooLong s = false := hnames s (hway ▸ by simp)
      rw [← hsettled, hfree _ hhere, hshort]
      -- the new directory is not below the one that stays empty
      have hstill : (t.addDir (Path.settled (before ++ [s]))).nothingBelow dir = true := by
        rw [nothingBelow_iff] at hempty ⊢
        rw [files_addDir]
        refine ⟨hempty.1, fun p hp => ?_⟩
        rcases isDir_addDir.mp (isDir_iff.mpr (.inr hp)) with hold | rfl
        · rcases isDir_iff.mp hold with rfl | hmem
          · simp [Path.above]
          · exact hempty.2 p hmem
        · exact houtside _ hhere
      exact ih hnext (by simpa using hfree) hstill

end FileTree

namespace Site

/-- A directory that is empty or missing and can be made: no name on the way to it is refused, no file is
in the way, and the way does not lead through the directory itself. -/
structure Vacant (s : Site) (place : Target) : Prop where
  names : ∀ name ∈ place.way, FileTree.hasNul name = false ∧ FileTree.tooLong name = false
  free : ∀ before, before <+: place.way → s.tree.files.has (Path.settled before) = false
  outside : ∀ before, before <+: place.way → Path.above place.dir (Path.settled before) = false
  empty : s.tree.nothingBelow place.dir = true

variable {s : Site} {place : Target}

theorem Vacant.requireNone (hs : s.Vacant place) : s.requireNone place = .ok () := by
  rw [Site.requireNone, Site.holdsRepository, FileTree.hasRepository_eq_false hs.empty, Bool.and_false]
  rfl

/-- **A vacant directory can be made, and is empty then.** -/
theorem Vacant.makeDirs (hs : s.Vacant place) :
    ∃ tree, s.tree.makeDirs place.way = (.ok (), tree) ∧ tree.inside place.dir = {} := by
  have hnul : place.way.any FileTree.hasNul = false :=
    List.any_eq_false.mpr fun name hname => Bool.eq_false_iff.mp (hs.names name hname).1
  have hway : place.way = [] ++ place.way := rfl
  obtain ⟨tree, hmade, hempty⟩ := FileTree.makeDirsFrom_free hway
    (fun name hname => (hs.names name hname).2) hs.free hs.outside hs.empty
  refine ⟨tree, ?_, FileTree.inside_eq_empty hempty⟩
  rw [FileTree.makeDirs, hnul]
  exact hmade

end Site

end Chronicle
