import Chronicle.Proofs.Repository.Checkout
import Mathlib.Tactic.ByContra
import Mathlib.Tactic.Set

/-!
# Checking out the commit that one is at

Going from the files of a commit to these very files only mends what was changed: a file that is not as
the commit has it is written, what is in its way goes, and so does a file that only the index knows. Where
all files could be written, **the working tree has every file of the commit** (`Checkout.files_run_same`),
**and the index agrees with the commit wherever the working tree did not agree with it already**
(`Checkout.index_run_same`). A file that is as it should be is not looked at, and its entry in the index,
whatever it says, stays.
-/

namespace Chronicle

/-! ## Taking files away -/

namespace FileTree

variable {t : FileTree} {p q : Path}

@[simp] theorem files_prune (t : FileTree) (up : List Path) : (t.prune up).files = t.files := by
  induction up generalizing t with
  | nil => rfl
  | cons d rest ih =>
    unfold prune
    split
    · exact ih _
    · rfl

/-- Where no file is on the way to a path, what stands at it and below it is all that goes. -/
theorem get?_clear (hway : ∀ d ∈ p.parents, t.files.has d = false) :
    (t.clear p).files.get? q = if p <+: q then none else t.files.get? q := by
  have hnone : p.parents.find? t.files.has = none :=
    List.find?_eq_none.mpr fun d hd => Bool.eq_false_iff.mp (hway d hd)
  unfold clear
  rw [hnone]
  dsimp only
  rw [remove, files_prune, cut, PathMap.get?_restrict]
  by_cases hpre : p <+: q
  · rw [if_pos hpre, List.isPrefixOf_iff_prefix.mpr hpre]
    rfl
  · rw [if_neg hpre, Bool.eq_false_iff.mpr fun h => hpre (List.isPrefixOf_iff_prefix.mp h)]
    rfl

end FileTree

namespace Checkout

variable {c c' : Checkout} {new : Tree} {p q : Path}

/-- A file goes with its entry in the index, unless that is kept. -/
theorem get?_drop (keep : Bool) (hway : ∀ d ∈ p.parents, c.tree.files.has d = false)
    (hbelow : ∀ q, c.tree.files.has q = true → p <+: q → q = p) (q : Path) :
    (c.drop p keep).tree.files.get? q = (if q = p then none else c.tree.files.get? q) ∧
      (c.drop p keep).index.get? q = if q = p ∧ keep = false then none else c.index.get? q := by
  constructor
  · rw [drop, FileTree.get?_clear hway]
    by_cases hq : q = p
    · rw [if_pos hq, if_pos (hq ▸ List.prefix_rfl)]
    · rw [if_neg hq]
      split
      · -- there is no file below the path
        rename_i hpre
        cases hfile : c.tree.files.get? q with
        | none => rfl
        | some content => exact absurd (hbelow q (by simp [PathMap.has, hfile]) hpre) hq
      · rfl
  · cases keep with
    | true => simp [drop]
    | false => simp [drop, PathMap.get?_erase]

/-- Files go one after the other; what stands in no other's way at the start does so never. -/
theorem get?_foldl_drop {α : Type} (path : α → Path) (keep : α → Bool) {ds : List α}
    (hway : ∀ d ∈ ds, ∀ e ∈ (path d).parents, c.tree.files.has e = false)
    (hbelow : ∀ d ∈ ds, ∀ q, c.tree.files.has q = true → path d <+: q → q = path d) (q : Path) :
    (ds.foldl (fun c d => c.drop (path d) (keep d)) c).tree.files.get? q =
        (if q ∈ ds.map path then none else c.tree.files.get? q) ∧
      (ds.foldl (fun c d => c.drop (path d) (keep d)) c).index.get? q =
        if q ∈ (ds.filter fun d => !keep d).map path then none else c.index.get? q := by
  induction ds generalizing c with
  | nil => exact ⟨rfl, rfl⟩
  | cons d rest ih =>
    have hdrop := get?_drop (keep d) (hway d List.mem_cons_self) (hbelow d List.mem_cons_self)
    have hfewer (e : Path) (he : (c.drop (path d) (keep d)).tree.files.has e = true) :
        c.tree.files.has e = true := by
      rw [PathMap.has, (hdrop e).1] at he
      split at he
      · cases he
      · exact he
    obtain ⟨hfiles, hindex⟩ := ih (c := c.drop (path d) (keep d))
      (fun d' hd' e he => Bool.eq_false_iff.mpr fun hfile =>
        Bool.eq_false_iff.mp (hway d' (List.mem_cons_of_mem d hd') e he) (hfewer e hfile))
      (fun d' hd' e he => hbelow d' (List.mem_cons_of_mem d hd') e (hfewer e he))
    constructor
    · rw [List.foldl_cons, hfiles, (hdrop q).1, List.map_cons]
      by_cases hq : q = path d <;> simp [hq]
    · rw [List.foldl_cons, hindex, (hdrop q).2, List.filter_cons]
      cases hk : keep d with
      | true => simp
      | false =>
        rw [Bool.not_false, if_pos rfl, List.map_cons]
        by_cases hq : q = path d
        · simp [hq]
        · simp only [List.mem_cons, hq, false_or, false_and, if_false]

/-! ## Writing files -/

theorem write_eq_some {content : String} (h : c.write p content = some c') :
    c'.tree.files = c.tree.files.insert p content ∧ c'.index = c.index.displace p content := by
  unfold write FileTree.settle at h
  split at h
  · cases h
  · cases h
    exact ⟨by simp [FileTree.addFile, FileTree.files_foldl_addDir], rfl⟩

/-- Files are written one after the other, and no other file changes. -/
theorem get?_writeAll {ps : List Path} (h : writeAll new ps c = (.ok (), c')) (q : Path) :
    c'.tree.files.get? q = if q ∈ ps then some ((new.get? q).getD "") else c.tree.files.get? q := by
  induction ps generalizing c with
  | nil =>
    cases h
    rfl
  | cons p rest ih =>
    unfold writeAll at h
    split at h
    · cases h
    · rename_i next hnext
      rw [ih h, (write_eq_some hnext).1, PathMap.get?_insert]
      by_cases hq : q = p <;> simp [hq]

/-- What is written is staged, and takes the place of what could not stand beside it. -/
theorem index_writeAll {ps : List Path} (h : writeAll new ps c = (.ok (), c')) (q : Path) :
    c'.index.get? q = (if q ∈ ps then some ((new.get? q).getD "") else c.index.get? q) ∨
      c'.index.get? q = none ∧ ∃ p ∈ ps, (Path.above p q || Path.above q p) = true := by
  induction ps generalizing c with
  | nil =>
    cases h
    exact .inl rfl
  | cons p rest ih =>
    unfold writeAll at h
    split at h
    · cases h
    · rename_i next hnext
      have hstaged := PathMap.get?_displace c.index p q ((new.get? p).getD "")
      rw [← (write_eq_some hnext).2] at hstaged
      rcases ih h with hrest | ⟨hnone, p', hp', hnear⟩
      · rw [hrest, hstaged]
        by_cases hq : q = p
        · simp [hq]
        · by_cases hmem : q ∈ rest
          · simp [hmem]
          · have hnot : q ∉ p :: rest := by simp [hq, hmem]
            rw [if_neg hmem, if_neg hq, if_neg hnot]
            by_cases hnear : (Path.above p q || Path.above q p) = true
            · rw [if_pos hnear]
              exact .inr ⟨rfl, p, List.mem_cons_self, hnear⟩
            · rw [if_neg hnear]
              exact .inl rfl
      · exact .inr ⟨hnone, p', List.mem_cons_of_mem p hp', hnear⟩

/-! ## The whole of it -/

/-- What is done at a path of a commit when it is checked out again. -/
theorem Deed.at_same {t : FileTree} (hp : new.has p = true) : Deed.at t new new p =
    match t.place p with
    | .file content => ⟨false, some content != new.get? p⟩
    | .directory => ⟨!t.files.hasBelow p, true⟩
    | _ => ⟨false, true⟩ := by
  have hsame : Change.at new new p = .same := by
    obtain ⟨content, hcontent⟩ := Option.isSome_iff_exists.mp hp
    simp [Change.at, hcontent]
  simp only [Deed.at, hsame]
  cases t.place p <;> rfl

theorem place_eq_directory {t : FileTree} (h : t.place p = .directory) :
    t.files.get? p = none ∧ t.isDir p = true := by
  unfold FileTree.place at h
  split at h
  · cases h
  · rename_i hfile
    refine ⟨hfile, ?_⟩
    split at h
    · assumption
    · split at h <;> cases h

/-- What goes for a file of the commit is an empty directory, which the file takes the place of. -/
theorem Deed.remove_same {t : FileTree} (hp : new.has p = true)
    (h : (Deed.at t new new p).remove = true) :
    t.place p = .directory ∧ t.files.hasBelow p = false ∧ (Deed.at t new new p).write = true := by
  rw [Deed.at_same hp] at h ⊢
  split at h
  · cases h
  · rename_i hplace
    exact ⟨hplace, by simpa using h, rfl⟩
  · cases h

/-- What is written are the files of the commit that are not in the working tree as they should be. -/
theorem Deed.write_same {t : FileTree} (hp : new.has p = true) :
    (Deed.at t new new p).write = true ↔ t.files.get? p ≠ new.get? p := by
  rw [Deed.at_same hp]
  have hnone {q : Path} (h : t.files.get? q = none) (hq : new.has q = true) :
      t.files.get? q ≠ new.get? q := by
    intro heq
    rw [PathMap.has, ← heq, h] at hq
    cases hq
  cases hfile : t.files.get? p with
  | some content =>
    have hplace : t.place p = .file content := by rw [FileTree.place, hfile]
    rw [hplace]
    exact bne_iff_ne
  | none =>
    have hne := hnone hfile hp
    rw [hfile] at hne
    have hplace : ∀ content, t.place p ≠ .file content := by
      intro content heq
      simp only [FileTree.place, hfile] at heq
      split at heq
      · cases heq
      · split at heq <;> cases heq
    split
    · rename_i content heq
      exact absurd heq (hplace content)
    · exact iff_of_true rfl hne
    · exact iff_of_true rfl hne

/-- Empty directories go, and no file does. -/
theorem get?_clear_dirs {ds : List (Path × Deed)} (hc : c.tree.Sound)
    (hds : ∀ d ∈ ds, c.tree.place d.1 = .directory ∧ c.tree.files.hasBelow d.1 = false ∧
      d.2.write = true) (q : Path) :
    (ds.foldl (fun c d => c.drop d.1 d.2.write) c).tree.files.get? q = c.tree.files.get? q ∧
      (ds.foldl (fun c d => c.drop d.1 d.2.write) c).index.get? q = c.index.get? q := by
  have hway (d : Path × Deed) (hd : d ∈ ds) (e : Path) (he : e ∈ Path.parents d.1) :
      c.tree.files.has e = false := by
    apply Bool.eq_false_iff.mpr
    intro hfile
    have hdir := hc.dirs d.1 (place_eq_directory (hds d hd).1).2 e he
    rw [hc.apart e hfile] at hdir
    cases hdir
  have hbelow (d : Path × Deed) (hd : d ∈ ds) (e : Path) (he : c.tree.files.has e = true)
      (hpre : d.1 <+: e) : e = d.1 := by
    by_contra hne
    have hsome := PathMap.hasBelow_iff.mpr ⟨e, he, Path.above_of_prefix_ne hpre (Ne.symm hne)⟩
    rw [(hds d hd).2.1] at hsome
    cases hsome
  obtain ⟨hfiles, hindex⟩ :=
    get?_foldl_drop (fun d : Path × Deed => d.1) (fun d => d.2.write) hway hbelow q
  have hkept : (ds.filter fun d => !d.2.write) = [] := by
    rw [List.filter_eq_nil_iff]
    intro d hd
    rw [(hds d hd).2.2]
    exact Bool.false_ne_true
  rw [hfiles, hindex, hkept]
  refine ⟨?_, rfl⟩
  split
  · -- there was no file to go
    rename_i hmem
    obtain ⟨d, hd, rfl⟩ := List.mem_map.mp hmem
    exact (place_eq_directory (hds d hd).1).1.symm
  · rfl

theorem mem_strays : p ∈ c.strays new new ↔
    c.tree.files.has p = true ∧ new.has p = false ∧ c.index.has p = true := by
  simp only [strays, Path.mem_sorted, List.mem_filter, PathMap.mem_paths, Bool.and_eq_true,
    Bool.not_eq_true', and_self]

/-- Files that only the index knows go, and with them their entries. -/
theorem get?_sweep (new : Tree) {cleared : Checkout} (hc : c.tree.Sound)
    (hsame : ∀ q, cleared.tree.files.get? q = c.tree.files.get? q) (q : Path) :
    ((c.strays new new).foldl (fun c p => c.drop p false) cleared).tree.files.get? q =
        (if q ∈ c.strays new new then none else cleared.tree.files.get? q) ∧
      ((c.strays new new).foldl (fun c p => c.drop p false) cleared).index.get? q =
        if q ∈ c.strays new new then none else cleared.index.get? q := by
  have hhas (e : Path) : cleared.tree.files.has e = c.tree.files.has e := by
    rw [PathMap.has, hsame, PathMap.has]
  have hway (d : Path) (hd : d ∈ c.strays new new) (e : Path) (he : e ∈ Path.parents d) :
      cleared.tree.files.has e = false := by
    rw [hhas]
    apply Bool.eq_false_iff.mpr
    intro hfile
    have hdir := hc.files d (mem_strays.mp hd).1 e he
    rw [hc.apart e hfile] at hdir
    cases hdir
  have hbelow (d : Path) (hd : d ∈ c.strays new new) (e : Path) (he : cleared.tree.files.has e = true)
      (hpre : d <+: e) : e = d := by
    rw [hhas] at he
    by_contra hne
    have habove := Path.above_of_prefix_ne hpre (Ne.symm hne)
    rw [hc.not_above (mem_strays.mp hd).1 he] at habove
    cases habove
  have hdrop := get?_foldl_drop (fun d : Path => d) (fun _ => false) hway hbelow q
  simpa using hdrop

/-- Checking out again clears away what only the index knows, and then writes the files of the commit that
are not in the working tree as they should be. -/
theorem run_same_writes (hc : c.tree.Sound) (h : c.run new new = (.ok (), c')) :
    ∃ swept ps, writeAll new ps swept = (.ok (), c') ∧
      (∀ q, q ∈ ps ↔ new.has q = true ∧ c.tree.files.get? q ≠ new.get? q) ∧
      (∀ q, swept.tree.files.get? q = if q ∈ c.strays new new then none else c.tree.files.get? q) ∧
      ∀ q, swept.index.get? q = if q ∈ c.strays new new then none else c.index.get? q := by
  unfold run at h
  dsimp only at h
  set deeds := (Path.sorted (new.paths ++ new.paths)).map fun p => (p, Deed.at c.tree new new p)
    with hdeeds
  set cleared := (deeds.filter (·.2.remove)).foldl (fun c d => c.drop d.1 d.2.write) c with hcleared
  have hdeed (d : Path × Deed) (hd : d ∈ deeds) : new.has d.1 = true ∧ d.2 = Deed.at c.tree new new d.1 := by
    obtain ⟨p, hp, rfl⟩ := List.mem_map.mp hd
    rw [Path.mem_sorted, List.mem_append, or_self, PathMap.mem_paths] at hp
    exact ⟨hp, rfl⟩
  have hremoved : ∀ d ∈ deeds.filter (·.2.remove), c.tree.place d.1 = .directory ∧
      c.tree.files.hasBelow d.1 = false ∧ d.2.write = true := by
    intro d hd
    obtain ⟨hd, hremove⟩ := List.mem_filter.mp hd
    obtain ⟨hnew, hat⟩ := hdeed d hd
    rw [hat] at hremove ⊢
    exact Deed.remove_same hnew hremove
  have hkept := get?_clear_dirs hc hremoved
  have hgone := get?_sweep new hc fun q => (hkept q).1
  refine ⟨_, _, h, ?_, ?_, ?_⟩
  · intro q
    rw [List.mem_map]
    constructor
    · rintro ⟨d, hd, rfl⟩
      obtain ⟨hd, hwrite⟩ := List.mem_filter.mp hd
      obtain ⟨hnew, hat⟩ := hdeed d hd
      rw [hat] at hwrite
      exact ⟨hnew, (Deed.write_same hnew).mp hwrite⟩
    · rintro ⟨hnew, hne⟩
      refine ⟨(q, Deed.at c.tree new new q), List.mem_filter.mpr ⟨?_, (Deed.write_same hnew).mpr hne⟩, rfl⟩
      apply List.mem_map_of_mem
      rw [Path.mem_sorted, List.mem_append, or_self, PathMap.mem_paths]
      exact hnew
  · intro q
    rw [(hgone q).1, (hkept q).1]
  · intro q
    rw [(hgone q).2, (hkept q).2]

/-- **Checking out again mends the working tree**: every file of the commit is there. -/
theorem files_run_same (hc : c.tree.Sound) (h : c.run new new = (.ok (), c')) {content : String}
    (hp : new.get? p = some content) : c'.tree.files.get? p = some content := by
  obtain ⟨swept, ps, hwrite, hwrites, hfiles, _⟩ := run_same_writes hc h
  have hnew : new.has p = true := by rw [PathMap.has, hp]; rfl
  -- a file of the commit is no stray, and one that is not written is there already
  have hstays : p ∉ c.strays new new := by
    intro hstray
    rw [(mem_strays.mp hstray).2.1] at hnew
    cases hnew
  rw [get?_writeAll hwrite, hfiles, if_neg hstays]
  by_cases hmem : p ∈ ps
  · rw [if_pos hmem, hp]
    rfl
  · rw [if_neg hmem, ← hp]
    by_contra hne
    exact hmem ((hwrites p).mpr ⟨hnew, hne⟩)

/-- No file of a commit that is checked out again stands where another has a directory. -/
theorem not_above_of_run_same (hc : c.tree.Sound) (h : c.run new new = (.ok (), c')) {q : Path}
    (hp : new.has p = true) (hq : new.has q = true) : Path.above p q = false := by
  have hsound : c'.tree.Sound := by
    have hrun := run_sound hc new new
    rw [h] at hrun
    exact hrun
  have hfile {q : Path} (hq : new.has q = true) : c'.tree.files.has q = true := by
    obtain ⟨content, hcontent⟩ := Option.isSome_iff_exists.mp hq
    rw [PathMap.has, files_run_same hc h hcontent]
    rfl
  exact hsound.not_above (hfile hp) (hfile hq)

/-- Where the working tree was not as the commit has it, the index is when it is checked out again. -/
theorem index_run_same (hc : c.tree.Sound) (h : c.run new new = (.ok (), c')) (p : Path) :
    c'.index.get? p = new.get? p ∨
      c'.index.get? p = c.index.get? p ∧ c.tree.files.get? p = new.get? p := by
  obtain ⟨swept, ps, hwrite, hwrites, _, hindex⟩ := run_same_writes hc h
  have hnone {m : Tree} {q : Path} (hq : m.has q = false) : m.get? q = none :=
    Option.not_isSome_iff_eq_none.mp (Bool.eq_false_iff.mp hq)
  rcases index_writeAll hwrite p with hstaged | ⟨hgoes, q, hq, hnear⟩
  · by_cases hmem : p ∈ ps
    · left
      obtain ⟨content, hcontent⟩ := Option.isSome_iff_exists.mp ((hwrites p).mp hmem).1
      rw [hstaged, if_pos hmem, hcontent]
      rfl
    · rw [if_neg hmem, hindex] at hstaged
      by_cases hstray : p ∈ c.strays new new
      · left
        rw [hstaged, if_pos hstray, hnone (mem_strays.mp hstray).2.1]
      · rw [if_neg hstray] at hstaged
        by_cases hagree : c.tree.files.get? p = new.get? p
        · exact .inr ⟨hstaged, hagree⟩
        · -- a file that the commit does not have, and the index neither
          left
          have hnew : new.has p = false :=
            Bool.eq_false_iff.mpr fun hp => hmem ((hwrites p).mpr ⟨hp, hagree⟩)
          have hfile : c.tree.files.has p = true := by
            by_contra hp
            exact hagree ((hnone (Bool.eq_false_iff.mpr hp)).trans (hnone hnew).symm)
          have hunknown : c.index.has p = false :=
            Bool.eq_false_iff.mpr fun hp => hstray (mem_strays.mpr ⟨hfile, hnew, hp⟩)
          rw [hstaged, hnone hunknown, hnone hnew]
  · -- what gives way to a file of the commit is none itself
    left
    have hnew : new.has p = false := by
      apply Bool.eq_false_iff.mpr
      intro hp
      have hq' := ((hwrites q).mp hq).1
      rw [not_above_of_run_same hc h hq' hp, not_above_of_run_same hc h hp hq'] at hnear
      cases hnear
    rw [hgoes, hnone hnew]

end Checkout

end Chronicle
