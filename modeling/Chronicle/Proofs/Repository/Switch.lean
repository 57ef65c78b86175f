import Chronicle.Proofs.FileTree.Clear
import Chronicle.Proofs.Repository.RefName

/-!
# Going from one commit to another

When a working tree goes from the files of one commit to those of another, some paths are cleared
(`Checkout.cleared`), some entries of the index are forgotten (`Checkout.forgotten`), and some files are
written (`Checkout.written`). It succeeds when no file to be written is left with a directory in its place or
a file in its way (`Checkout.run_isOk_iff`), and then these three tell what there is at every path: the files
(`Checkout.files_run`), the directories (`Checkout.isDir_run`) and the index (`Checkout.index_run`). Wherever it
ends, none of it depends on more of the two commits than the files they have (`Checkout.run_congr`).

What a user sees of it is `Checkout.Leads`, and **every checkout that succeeds leads from the one commit to the
other** (`Checkout.leads_run`). Once there, **it changes nothing to go there again** (`Checkout.run_again`), and
from a working tree with nothing uncommitted **the way back leads to where it began** (`Checkout.run_back`).
-/

namespace Chronicle

namespace Path

/-- The text of a proper path tells it from all others. -/
theorem Proper.render_inj {p q : Path} (hp : p.Proper) (hq : q.Proper) (h : p.render = q.render) : p = q := by
  rw [← segments_intercalate hp.ne_nil hp.names, ← segments_intercalate hq.ne_nil hq.names]
  exact congrArg segments h

/-- There is one order for proper paths. -/
theorem sorted_congr {ps qs : List Path} (hps : ∀ p ∈ ps, p.Proper) (h : ∀ p, p ∈ ps ↔ p ∈ qs) :
    Path.sorted ps = Path.sorted qs := by
  have hle {p q : Path} : Path.le p q = true ↔ p.render ≤ q.render := by
    rw [Path.le, Bool.not_eq_true', decide_eq_false_iff_not, String.not_lt]
  have hpairs (ps : List Path) : (Path.sorted ps).Pairwise fun p q => Path.le p q = true := by
    apply List.pairwise_mergeSort
    · intro p q d hpq hqd
      exact hle.mpr (String.le_trans (hle.mp hpq) (hle.mp hqd))
    · intro p q
      rw [Bool.or_eq_true, hle, hle]
      exact String.le_total _ _
  refine List.Perm.eq_of_pairwise ?_ (hpairs ps) (hpairs qs) ?_
  · intro p q hp hq hpq hqp
    exact (hps p (mem_sorted.mp hp)).render_inj (hps q ((h q).mpr (mem_sorted.mp hq)))
      (String.le_antisymm (hle.mp hpq) (hle.mp hqp))
  · rw [List.perm_ext_iff_of_nodup (nodup_sorted ps) (nodup_sorted qs)]
    intro p
    rw [mem_sorted, mem_sorted, h]

end Path

/-- Paths are proper, and no file lies above another, so that all could stand in one working tree. -/
structure Tree.Placeable (m : Tree) : Prop where
  proper : ∀ p, m.has p = true → p.Proper
  not_above : ∀ p q, m.has p = true → m.has q = true → Path.above p q = false

theorem Tree.Placeable.ne_nil {m : Tree} (hm : m.Placeable) (p : Path) (hp : m.has p = true) : p ≠ [] :=
  (hm.proper p hp).ne_nil

theorem Tree.Placeable.eq_of_near {m : Tree} (hm : m.Placeable) {p q : Path} (hp : m.has p = true)
    (hq : m.has q = true) (h : Path.Near p q) : p = q := by
  rcases Path.near_iff.mp h with heq | habove | habove
  · exact heq
  · rw [hm.not_above p q hp hq] at habove
    cases habove
  · rw [hm.not_above q p hq hp] at habove
    cases habove

/-- What stands above or below a file is none. -/
theorem Tree.Placeable.has_of_above {m : Tree} (hm : m.Placeable) {p x : Path} (hp : m.has p = true)
    (h : Path.above x p = true ∨ Path.above p x = true) : m.has x = false := by
  apply Bool.eq_false_iff.mpr
  intro hx
  rcases h with habove | habove
  · rw [hm.not_above x p hx hp] at habove
    cases habove
  · rw [hm.not_above p x hp hx] at habove
    cases habove

/-- The files of a tidy tree stand in one. -/
theorem FileTree.Tidy.placeable {t : FileTree} (ht : t.Tidy) : Tree.Placeable t.files :=
  ⟨ht.proper, fun _ _ => ht.not_above⟩

theorem Tree.Placeable.empty : Tree.Placeable {} := ⟨fun _ h => (nomatch h), fun _ _ h => (nomatch h)⟩

/-- One file stands in a tree by itself. -/
theorem Tree.Placeable.single {p : Path} (hp : p.Proper) (content : String) :
    Tree.Placeable (PathMap.insert {} p content) := by
  have heq (q : Path) (hq : (PathMap.insert {} p content : Tree).has q = true) : q = p := by
    rw [PathMap.has_insert, Bool.or_eq_true] at hq
    exact hq.elim eq_of_beq fun h => nomatch h
  constructor
  · intro q hq
    rw [heq q hq]
    exact hp
  · intro q r hq hr
    rw [heq q hq, heq r hr]
    simp [Path.above]

theorem PathMap.get?_eq_none {α : Type} {m : PathMap α} {p : Path} : m.get? p = none ↔ m.has p = false := by
  rw [has, ← Option.not_isSome_iff_eq_none, Bool.not_eq_true]

theorem PathMap.has_congr {α : Type} {m m' : PathMap α} (h : ∀ p, m.get? p = m'.get? p) (p : Path) :
    m.has p = m'.has p := by
  rw [has, h, has]

theorem PathMap.hasBelow_congr {α : Type} {m m' : PathMap α} (h : ∀ p, m.get? p = m'.get? p) (p : Path) :
    m.hasBelow p = m'.hasBelow p := by
  rw [Bool.eq_iff_iff, hasBelow_iff, hasBelow_iff]
  simp only [has_congr h]

/-! ## What is done at a path -/

namespace Deed

variable {t : FileTree} {old new : Tree} {p q : Path}

theorem place_file {content : String} (h : t.files.get? p = some content) : t.place p = .file content := by
  rw [FileTree.place, h]

theorem place_ne_file (h : t.files.get? p = none) (content : String) : t.place p ≠ .file content := by
  rw [FileTree.place, h]
  dsimp only
  intro hplace
  split at hplace
  · cases hplace
  · split at hplace <;> cases hplace

theorem place_directory (hdir : t.isDir p = true) (h : t.files.get? p = none) : t.place p = .directory := by
  rw [FileTree.place, h]
  exact if_pos hdir

/-- What is to be written are the files of the new commit. Left out are those that stay as they are in the
working tree, and those in whose place the old commit had a directory but the working tree has a file. -/
theorem write_iff (hp : old.has p = true ∨ new.has p = true) : (Deed.at t old new p).write = true ↔
    new.has p = true ∧ ¬ (old.get? p = new.get? p ∧ t.files.get? p = new.get? p) ∧
      ¬ (old.has p = false ∧ old.hasBelow p = true ∧ t.files.has p = true) := by
  unfold Deed.at Change.at
  simp only [PathMap.has] at hp ⊢
  cases hold : old.get? p with
  | none =>
    rw [hold] at hp
    have hnew : (new.get? p).isSome = true := hp.resolve_left (by simp)
    obtain ⟨b, hb⟩ := Option.isSome_iff_exists.mp hnew
    cases hfile : t.files.get? p with
    | some content =>
      rw [place_file hfile]
      cases hbelow : old.hasBelow p <;> simp [hb]
    | none =>
      have hplace := place_ne_file hfile
      cases hbelow : old.hasBelow p <;> cases hpl : t.place p <;> simp_all
  | some a =>
    cases hnew : new.get? p with
    | none => cases new.hasBelow p <;> cases t.place p <;> simp
    | some b =>
      cases hfile : t.files.get? p with
      | some content =>
        rw [place_file hfile]
        by_cases hab : a = b <;> simp [hab]
      | none =>
        have hplace := place_ne_file hfile
        by_cases hab : a = b <;> cases hpl : t.place p <;> simp_all

/-- A file that the new commit does not have goes for good. -/
theorem of_gone (hold : old.has p = true) (hnew : new.has p = false) (hfile : t.files.has p = true) :
    Deed.at t old new p = ⟨true, false⟩ := by
  obtain ⟨a, ha⟩ := Option.isSome_iff_exists.mp hold
  obtain ⟨content, hcontent⟩ := Option.isSome_iff_exists.mp hfile
  rw [Deed.at, Change.at, ha, PathMap.get?_eq_none.mpr hnew, place_file hcontent]
  cases new.hasBelow p <;> rfl

/-- So does one that the old commit had a directory in the place of, though the new one has it too. -/
theorem of_supplanted (hold : old.has p = false) (hbelow : old.hasBelow p = true)
    (hfile : t.files.has p = true) : Deed.at t old new p = ⟨true, false⟩ := by
  obtain ⟨content, hcontent⟩ := Option.isSome_iff_exists.mp hfile
  rw [Deed.at, Change.at, PathMap.get?_eq_none.mpr hold, place_file hcontent]
  simp [hbelow]

/-- What stays as it is in both commits is not in its own way. -/
theorem remove_of_same (hnew : new.has p = true) (hsame : old.get? p = new.get? p)
    (hfile : t.files.has p = true) : (Deed.at t old new p).remove = false := by
  obtain ⟨b, hb⟩ := Option.isSome_iff_exists.mp hnew
  obtain ⟨content, hcontent⟩ := Option.isSome_iff_exists.mp hfile
  rw [Deed.at, Change.at, hsame, hb, place_file hcontent]
  simp

/-- A directory that took the place of a file of the old commit stays when there are files in it. -/
theorem remove_of_filled (hold : old.has p = true) (hnew : new.has p = false) (hnone : new.hasBelow p = false)
    (hdir : t.place p = .directory) (hbelow : t.files.hasBelow p = true) :
    (Deed.at t old new p).remove = false := by
  obtain ⟨a, ha⟩ := Option.isSome_iff_exists.mp hold
  rw [Deed.at, Change.at, ha, PathMap.get?_eq_none.mpr hnew, hdir]
  simp [hnone, hbelow]

/-- It goes when the new commit has a directory there too. -/
theorem remove_of_toDirectory (hold : old.has p = true) (hnew : new.has p = false)
    (hsome : new.hasBelow p = true) (hdir : t.place p = .directory) :
    (Deed.at t old new p).remove = true := by
  obtain ⟨a, ha⟩ := Option.isSome_iff_exists.mp hold
  rw [Deed.at, Change.at, ha, PathMap.get?_eq_none.mpr hnew, hdir]
  simp [hsome]

/-- A file in the way to a file that the new commit does not have goes. -/
theorem remove_of_blocked (hold : old.has p = true) (hnew : new.has p = false) (hnone : new.hasBelow p = false)
    (hblocked : t.place p = .blocked) : (Deed.at t old new p).remove = true := by
  obtain ⟨a, ha⟩ := Option.isSome_iff_exists.mp hold
  rw [Deed.at, Change.at, ha, PathMap.get?_eq_none.mpr hnew, hblocked]
  simp [hnone]

theorem at_congr {old' new' : Tree} (hold : ∀ p, old.get? p = old'.get? p)
    (hnew : ∀ p, new.get? p = new'.get? p) : Deed.at t old new p = Deed.at t old' new' p := by
  simp only [Deed.at, Change.at, hold, hnew, PathMap.hasBelow_congr hold, PathMap.hasBelow_congr hnew]

end Deed

theorem FileTree.Sound.place_blocked {t : FileTree} (ht : t.Sound) {p q : Path} (hq : t.files.has q = true)
    (habove : Path.above q p = true) : t.place p = .blocked := by
  have hfile : t.files.get? p = none := PathMap.get?_eq_none.mpr <| Bool.eq_false_iff.mpr fun hp => by
    rw [ht.not_above hq hp] at habove
    cases habove
  have hdir : t.isDir p = false := Bool.eq_false_iff.mpr fun hp => by
    rw [ht.not_above_holds hq (.inr hp)] at habove
    cases habove
  have hway : p.parents.any t.files.has = true :=
    List.any_eq_true.mpr ⟨q, Path.mem_parents.mpr ⟨ht.ne_nil hq, habove⟩, hq⟩
  rw [FileTree.place, hfile]
  simp [hdir, hway]

namespace Checkout

variable {c c' : Checkout} {old new : Tree} {p q d x : Path}

/-! ## The steps -/

/-- What is done at the paths of two commits. -/
def deeds (c : Checkout) (old new : Tree) : List (Path × Deed) :=
  (Path.sorted (old.paths ++ new.paths)).map fun p => (p, Deed.at c.tree old new p)

/-- The paths that are cleared. -/
def cleared (c : Checkout) (old new : Tree) : List Path :=
  ((c.deeds old new).filter (·.2.remove)).map (·.1) ++ c.strays old new

/-- The paths whose entries in the index go before files are written. -/
def forgotten (c : Checkout) (old new : Tree) : List Path :=
  (((c.deeds old new).filter (·.2.remove)).filter fun d => !d.2.write).map (·.1) ++ c.strays old new

/-- The paths of the files that are written. -/
def written (c : Checkout) (old new : Tree) : List Path :=
  ((c.deeds old new).filter (·.2.write)).map (·.1)

/-- What is left before files are written. -/
def swept (c : Checkout) (old new : Tree) : Checkout :=
  (c.strays old new).foldl (fun c p => c.drop p false)
    (((c.deeds old new).filter (·.2.remove)).foldl (fun c d => c.drop d.1 d.2.write) c)

theorem run_eq (c : Checkout) (old new : Tree) :
    c.run old new = writeAll new (c.written old new) (c.swept old new) := rfl

theorem mem_deeds {d : Path × Deed} : d ∈ c.deeds old new ↔
    (old.has d.1 = true ∨ new.has d.1 = true) ∧ d.2 = Deed.at c.tree old new d.1 := by
  simp only [deeds, List.mem_map, Path.mem_sorted, List.mem_append, PathMap.mem_paths]
  constructor
  · rintro ⟨p, hp, rfl⟩
    exact ⟨hp, rfl⟩
  · rintro ⟨hp, hd⟩
    exact ⟨d.1, hp, by rw [← hd]⟩

theorem mem_strays_iff : p ∈ c.strays old new ↔ c.tree.files.has p = true ∧ old.has p = false ∧
    new.has p = false ∧ c.index.has p = true := by
  simp only [strays, Path.mem_sorted, List.mem_filter, PathMap.mem_paths, Bool.and_eq_true,
    Bool.not_eq_true', and_assoc]

theorem mem_cleared : p ∈ c.cleared old new ↔
    ((old.has p = true ∨ new.has p = true) ∧ (Deed.at c.tree old new p).remove = true) ∨
      p ∈ c.strays old new := by
  simp only [cleared, List.mem_append, List.mem_map, List.mem_filter, mem_deeds]
  refine or_congr_left ⟨?_, ?_⟩
  · rintro ⟨d, ⟨⟨hd, heq⟩, hremove⟩, rfl⟩
    exact ⟨hd, heq ▸ hremove⟩
  · rintro ⟨hp, hremove⟩
    exact ⟨(p, Deed.at c.tree old new p), ⟨⟨hp, rfl⟩, hremove⟩, rfl⟩

theorem mem_forgotten : p ∈ c.forgotten old new ↔
    ((old.has p = true ∨ new.has p = true) ∧ Deed.at c.tree old new p = ⟨true, false⟩) ∨
      p ∈ c.strays old new := by
  simp only [forgotten, List.mem_append, List.mem_map, List.mem_filter, mem_deeds]
  refine or_congr_left ⟨?_, ?_⟩
  · rintro ⟨d, ⟨⟨⟨hd, heq⟩, hremove⟩, hwrite⟩, rfl⟩
    rw [Bool.not_eq_true'] at hwrite
    refine ⟨hd, ?_⟩
    rw [← heq, ← hremove, ← hwrite]
  · rintro ⟨hp, hdeed⟩
    exact ⟨(p, ⟨true, false⟩), ⟨⟨⟨hp, hdeed.symm⟩, rfl⟩, rfl⟩, rfl⟩

theorem mem_written : p ∈ c.written old new ↔
    new.has p = true ∧ ¬ (old.get? p = new.get? p ∧ c.tree.files.get? p = new.get? p) ∧
      ¬ (old.has p = false ∧ old.hasBelow p = true ∧ c.tree.files.has p = true) := by
  simp only [written, List.mem_map, List.mem_filter, mem_deeds]
  constructor
  · rintro ⟨d, ⟨⟨hd, heq⟩, hwrite⟩, rfl⟩
    exact (Deed.write_iff hd).mp (heq ▸ hwrite)
  · rintro ⟨hnew, hrest⟩
    exact ⟨(p, Deed.at c.tree old new p),
      ⟨⟨.inr hnew, rfl⟩, (Deed.write_iff (.inr hnew)).mpr ⟨hnew, hrest⟩⟩, rfl⟩

theorem has_of_mem_written (h : p ∈ c.written old new) : new.has p = true := (mem_written.mp h).1

theorem tree_foldl_drop {α : Type} (path : α → Path) (keep : α → Bool) (ds : List α) (c : Checkout) :
    (ds.foldl (fun c d => c.drop (path d) (keep d)) c).tree = c.tree.clearAll (ds.map path) := by
  induction ds generalizing c with
  | nil => rfl
  | cons d rest ih => rw [List.foldl_cons, ih]; rfl

theorem index_foldl_drop {α : Type} (path : α → Path) (keep : α → Bool) (ds : List α) (c : Checkout)
    (q : Path) : (ds.foldl (fun c d => c.drop (path d) (keep d)) c).index.get? q =
      if q ∈ (ds.filter fun d => !keep d).map path then none else c.index.get? q := by
  induction ds generalizing c with
  | nil => rfl
  | cons d rest ih =>
    rw [List.foldl_cons, ih, List.filter_cons]
    cases hk : keep d with
    | true => simp [drop]
    | false =>
      rw [Bool.not_false, if_pos rfl, List.map_cons]
      by_cases hq : q = path d
      · simp [drop, PathMap.get?_erase, hq]
      · simp only [drop, PathMap.get?_erase, hq, Bool.false_eq_true, if_false, List.mem_cons, false_or]

theorem tree_swept (c : Checkout) (old new : Tree) :
    (c.swept old new).tree = c.tree.clearAll (c.cleared old new) := by
  rw [swept, tree_foldl_drop (fun p : Path => p) (fun _ => false),
    tree_foldl_drop (fun d : Path × Deed => d.1) (fun d => d.2.write), List.map_id']
  exact (List.foldl_append ..).symm

theorem index_swept (c : Checkout) (old new : Tree) (q : Path) :
    (c.swept old new).index.get? q = if q ∈ c.forgotten old new then none else c.index.get? q := by
  rw [swept, index_foldl_drop (fun p : Path => p) (fun _ => false),
    index_foldl_drop (fun d : Path × Deed => d.1) (fun d => d.2.write)]
  have hall : ((c.strays old new).filter fun _ => !false) = c.strays old new :=
    List.filter_eq_self.mpr fun _ _ => rfl
  rw [hall, List.map_id']
  simp only [forgotten, List.mem_append]
  by_cases hstray : q ∈ c.strays old new
  · rw [if_pos hstray, if_pos (.inr hstray)]
  · rw [if_neg hstray]
    simp only [hstray, or_false]

/-! ## Writing files -/

theorem isDir_addFile {t : FileTree} {content : String} :
    (t.addFile p content).isDir d = true ↔ t.isDir d = true ∨ d ∈ p.parents := FileTree.isDir_foldl_addDir

theorem write_isSome_iff (content : String) : (∃ next, c.write p content = some next) ↔
    c.tree.isDir p = false ∧ ∀ d ∈ p.parents, c.tree.files.has d = false := by
  have hparents : p.parents.any c.tree.files.has = false ↔ ∀ d ∈ p.parents, c.tree.files.has d = false := by
    rw [List.any_eq_false]
    exact forall₂_congr fun d _ => Bool.eq_false_iff.symm
  rw [← hparents, ← Bool.or_eq_false_iff]
  unfold write FileTree.settle
  cases (c.tree.isDir p || p.parents.any c.tree.files.has) <;> simp

theorem isDir_write {content : String} (h : c.write p content = some c') :
    c'.tree.isDir d = true ↔ c.tree.isDir d = true ∨ d ∈ p.parents := by
  unfold write FileTree.settle at h
  split at h
  · cases h
  · cases h
    exact isDir_addFile

/-- Files of which none lies above another are written when each of them could be written first. -/
theorem writeAll_isOk_iff {ps : List Path} (hps : ∀ p ∈ ps, ∀ q ∈ ps, Path.above p q = false) :
    (∃ c', writeAll new ps c = (.ok (), c')) ↔
      ∀ p ∈ ps, c.tree.isDir p = false ∧ ∀ d ∈ p.parents, c.tree.files.has d = false := by
  induction ps generalizing c with
  | nil => simp [writeAll]
  | cons p rest ih =>
    have hrest : ∀ q ∈ rest, ∀ q' ∈ rest, Path.above q q' = false :=
      fun q hq q' hq' => hps q (List.mem_cons_of_mem p hq) q' (List.mem_cons_of_mem p hq')
    rw [List.forall_mem_cons, ← write_isSome_iff ((new.get? p).getD "")]
    unfold writeAll
    cases hwrite : c.write p ((new.get? p).getD "") with
    | none => simp
    | some next =>
      simp only [Option.some.injEq, exists_eq', true_and]
      rw [ih hrest]
      refine forall₂_congr fun q hq => ?_
      -- writing a file is in the way of no other
      have hdir : next.tree.isDir q = false ↔ c.tree.isDir q = false := by
        rw [← Bool.not_eq_true, isDir_write hwrite, ← Bool.not_eq_true]
        refine not_congr (or_iff_left fun hmem => ?_)
        have habove := (Path.mem_parents.mp hmem).2
        rw [hps q (List.mem_cons_of_mem p hq) p List.mem_cons_self] at habove
        cases habove
      have hway : ∀ d ∈ q.parents, (next.tree.files.has d = false ↔ c.tree.files.has d = false) := by
        intro d hd
        rw [(write_eq_some hwrite).1, PathMap.has_insert, Bool.or_eq_false_iff]
        refine and_iff_right (beq_eq_false_iff_ne.mpr ?_)
        rintro rfl
        have habove := (Path.mem_parents.mp hd).2
        rw [hps d List.mem_cons_self q (List.mem_cons_of_mem d hq)] at habove
        cases habove
      exact and_congr hdir (forall₂_congr hway)

theorem isDir_writeAll {ps : List Path} (h : writeAll new ps c = (.ok (), c')) :
    c'.tree.isDir d = true ↔ c.tree.isDir d = true ∨ ∃ p ∈ ps, d ∈ p.parents := by
  induction ps generalizing c with
  | nil =>
    cases h
    simp
  | cons p rest ih =>
    unfold writeAll at h
    split at h
    · cases h
    · rename_i next hnext
      rw [ih h, isDir_write hnext, or_assoc]
      simp only [List.mem_cons, exists_eq_or_imp]

/-- What is written is staged, and nothing else near it is. -/
theorem get?_index_writeAll {ps : List Path} (hps : ∀ p ∈ ps, ∀ q ∈ ps, Path.above p q = false)
    (h : writeAll new ps c = (.ok (), c')) (q : Path) : c'.index.get? q =
      if q ∈ ps then some ((new.get? q).getD "")
      else if ∃ p ∈ ps, Path.Near p q then none else c.index.get? q := by
  induction ps generalizing c with
  | nil =>
    cases h
    simp
  | cons p rest ih =>
    unfold writeAll at h
    split at h
    · cases h
    · rename_i next hnext
      have hrest : ∀ q ∈ rest, ∀ q' ∈ rest, Path.above q q' = false :=
        fun q hq q' hq' => hps q (List.mem_cons_of_mem p hq) q' (List.mem_cons_of_mem p hq')
      rw [ih hrest h, (write_eq_some hnext).2, PathMap.get?_displace]
      by_cases hq : q = p
      · subst hq
        -- no path that is written later is near this one
        have hfar : q ∉ rest → ¬ ∃ p ∈ rest, Path.Near p q := by
          rintro hnot ⟨p, hp, hnear⟩
          rcases Path.near_iff.mp hnear with rfl | habove | habove
          · exact hnot hp
          · rw [hps p (List.mem_cons_of_mem q hp) q List.mem_cons_self] at habove
            cases habove
          · rw [hps q List.mem_cons_self p (List.mem_cons_of_mem q hp)] at habove
            cases habove
        by_cases hmem : q ∈ rest
        · simp [hmem]
        · simp [hmem, hfar hmem]
      · have hnear : Path.Near p q ↔ (Path.above p q || Path.above q p) = true := by
          rw [Path.near_iff, Bool.or_eq_true]
          exact or_iff_right (Ne.symm hq)
        simp only [List.mem_cons, hq, false_or, if_false, exists_eq_or_imp, hnear]
        by_cases hmem : q ∈ rest
        · simp [hmem]
        · rw [if_neg hmem, if_neg hmem]
          by_cases hlater : ∃ p ∈ rest, Path.Near p q
          · simp [hlater]
          · simp only [hlater, if_false, or_false]

/-! ## The whole of it -/

/-- No file is left in the place of a directory or in the way. -/
theorem run_isOk_iff (hc : c.tree.Tidy) (hnew : new.Placeable) :
    (∃ c', c.run old new = (.ok (), c')) ↔ ∀ p ∈ c.written old new,
      (∀ d, Path.above d p = true → c.tree.files.has d = true → ∃ q ∈ c.cleared old new, Path.Near q d) ∧
      (c.tree.isDir p = true → ∀ x, p <+: x → c.tree.Holds x → ∃ q ∈ c.cleared old new, Path.Near q x) := by
  have hflat : ∀ p ∈ c.written old new, ∀ q ∈ c.written old new, Path.above p q = false :=
    fun p hp q hq => hnew.not_above p q (has_of_mem_written hp) (has_of_mem_written hq)
  rw [run_eq, writeAll_isOk_iff hflat, tree_swept]
  refine forall₂_congr fun p hp => ?_
  have hpne : p ≠ [] := hnew.ne_nil p (has_of_mem_written hp)
  rw [and_comm]
  refine and_congr ?_ ?_
  · simp only [Path.mem_parents, ← Bool.not_eq_true, hc.has_clearAll, not_and, not_forall, not_not]
    constructor
    · intro h d habove hfile
      obtain ⟨q, hq, hnear⟩ := h d ⟨hc.toSound.ne_nil hfile, habove⟩ hfile
      exact ⟨q, hq, hnear⟩
    · rintro h d ⟨-, habove⟩ hfile
      obtain ⟨q, hq, hnear⟩ := h d habove hfile
      exact ⟨q, hq, hnear⟩
  · rw [← Bool.not_eq_true, hc.isDir_clearAll _ hpne]
    push Not
    rfl

/-- The index has what was written, and of the other entries those that were not forgotten and are near
nothing that was written. -/
theorem index_run (hnew : new.Placeable) (h : c.run old new = (.ok (), c')) (q : Path) : c'.index.get? q =
    if q ∈ c.written old new then new.get? q
    else if (∃ p ∈ c.written old new, Path.Near p q) ∨ q ∈ c.forgotten old new then none
    else c.index.get? q := by
  have hflat : ∀ p ∈ c.written old new, ∀ q ∈ c.written old new, Path.above p q = false :=
    fun p hp q hq => hnew.not_above p q (has_of_mem_written hp) (has_of_mem_written hq)
  rw [run_eq] at h
  rw [get?_index_writeAll hflat h, index_swept]
  refine if_ctx_congr Iff.rfl (fun hmem => ?_) fun _ => ?_
  · obtain ⟨b, hb⟩ := Option.isSome_iff_exists.mp (has_of_mem_written hmem)
    rw [hb]
    rfl
  · by_cases hnear : ∃ p ∈ c.written old new, Path.Near p q
    · rw [if_pos hnear, if_pos (.inl hnear)]
    · simp only [hnear, if_false, false_or]

/-- The files are those that were written, and of the others those that are near none that was cleared. -/
theorem files_run (hc : c.tree.Tidy) (h : c.run old new = (.ok (), c')) (q : Path) : c'.tree.files.get? q =
    if q ∈ c.written old new then new.get? q
    else if ∃ p ∈ c.cleared old new, Path.Near p q then none else c.tree.files.get? q := by
  rw [run_eq] at h
  rw [get?_writeAll h, tree_swept, (hc.clearAll _).2.1]
  refine if_ctx_congr Iff.rfl (fun hmem => ?_) fun _ => rfl
  obtain ⟨b, hb⟩ := Option.isSome_iff_exists.mp (has_of_mem_written hmem)
  rw [hb]
  rfl

/-- The directories are those that lead to a file that was written, and those in which something stays. -/
theorem isDir_run (hc : c.tree.Tidy) (h : c.run old new = (.ok (), c')) (hd : d ≠ []) : c'.tree.isDir d = true ↔
    (∃ p ∈ c.written old new, Path.above d p = true) ∨
      c.tree.isDir d = true ∧
        ∃ x, d <+: x ∧ c.tree.Holds x ∧ ∀ p ∈ c.cleared old new, ¬ Path.Near p x := by
  rw [run_eq] at h
  rw [isDir_writeAll h, tree_swept, hc.isDir_clearAll _ hd, or_comm]
  refine or_congr_left (exists_congr fun p => and_congr_right fun _ => ?_)
  rw [Path.mem_parents]
  exact and_iff_right hd

theorem nodup_run (hn : c.tree.dirs.Nodup) (old new : Tree) : (c.run old new).2.tree.dirs.Nodup := by
  have hwrites {ps : List Path} {c : Checkout} (hn : c.tree.dirs.Nodup) :
      (writeAll new ps c).2.tree.dirs.Nodup := by
    induction ps generalizing c with
    | nil => exact hn
    | cons p rest ih =>
      unfold writeAll
      split
      · exact hn
      · rename_i next hnext
        apply ih
        unfold write FileTree.settle at hnext
        split at hnext
        · cases hnext
        · cases hnext
          exact FileTree.nodup_foldl_addDir hn _
  rw [run_eq]
  apply hwrites
  rw [tree_swept]
  exact FileTree.nodup_clearAll hn _

/-- Wherever a checkout ends, the files were there or are of the new commit. -/
theorem of_has_run (hc : c.tree.Tidy) (h : (c.run old new).2.tree.files.has p = true) :
    c.tree.files.has p = true ∨ new.has p = true := by
  have hwrites {ps : List Path} (hps : ∀ q ∈ ps, new.has q = true) {c : Checkout}
      (h : (writeAll new ps c).2.tree.files.has p = true) : c.tree.files.has p = true ∨ new.has p = true := by
    induction ps generalizing c with
    | nil => exact .inl h
    | cons q rest ih =>
      obtain ⟨hq, hrest⟩ := List.forall_mem_cons.mp hps
      unfold writeAll at h
      split at h
      · exact .inl h
      · rename_i next hnext
        refine (ih hrest h).elim (fun hp => ?_) .inr
        rw [(write_eq_some hnext).1, PathMap.has_insert, Bool.or_eq_true, beq_iff_eq] at hp
        rcases hp with rfl | hp
        · exact .inr hq
        · exact .inl hp
  rw [run_eq] at h
  refine (hwrites (fun q hq => has_of_mem_written hq) h).imp_left fun hp => ?_
  rw [tree_swept, hc.has_clearAll] at hp
  exact hp.1

/-- A tidy tree stays so, wherever a checkout ends. -/
theorem run_tidy (hc : c.tree.Tidy) (hnew : new.Placeable) {a : Except Fault Unit} (h : c.run old new = (a, c')) :
     c'.tree.Tidy := by
  have htidy : (c.run old new).2.tree.Tidy := ⟨run_sound hc.toSound old new, nodup_run hc.nodup old new,
    fun p hp => (of_has_run hc hp).elim (hc.proper p) (hnew.proper p)⟩
  rwa [h] at htidy

/-- **Only the files of the two commits count**, in every respect. -/
theorem run_congr {old' new' : Tree} (hold : old.Placeable) (hnew : new.Placeable)
    (holds : ∀ p, old.get? p = old'.get? p) (hnews : ∀ p, new.get? p = new'.get? p) :
    c.run old new = c.run old' new' := by
  have hsorted : Path.sorted (old.paths ++ new.paths) = Path.sorted (old'.paths ++ new'.paths) := by
    apply Path.sorted_congr
    · intro p hp
      rw [List.mem_append, PathMap.mem_paths, PathMap.mem_paths] at hp
      exact hp.elim (hold.proper p) (hnew.proper p)
    · intro p
      rw [List.mem_append, List.mem_append, PathMap.mem_paths, PathMap.mem_paths, PathMap.mem_paths,
        PathMap.mem_paths, PathMap.has_congr holds, PathMap.has_congr hnews]
  have hdeeds : c.deeds old new = c.deeds old' new' := by
    simp only [deeds, hsorted, Deed.at_congr holds hnews]
  have hstrays : c.strays old new = c.strays old' new' := by
    simp only [strays, PathMap.has_congr holds, PathMap.has_congr hnews]
  have hwrites (ps : List Path) (c : Checkout) : writeAll new ps c = writeAll new' ps c := by
    induction ps generalizing c with
    | nil => rfl
    | cons p rest ih =>
      unfold writeAll
      simp only [hnews, ih]
  rw [run_eq, run_eq, hwrites, swept, swept, written, written, hdeeds, hstrays]

/-! ## What there is afterwards -/

/-- A file of the working tree stands where the old commit had a directory. If the new commit has a file
there, it goes and is not written again. -/
def Supplanted (c : Checkout) (old : Tree) (p : Path) : Prop :=
  old.hasBelow p = true ∧ c.tree.files.has p = true

/-- What is at a path goes with a file of the old commit: because it is there itself, is in the way of one,
or is below one that gives way to a directory. -/
def Overtaken (old new : Tree) (p : Path) : Prop :=
  old.has p = true ∨ old.hasBelow p = true ∨
    ∃ q, old.has q = true ∧ Path.above q p = true ∧ new.hasBelow q = true

/-- What a checkout comes to when it goes from one commit to another. -/
structure Leads (old new : Tree) (c c' : Checkout) : Prop where
  /-- The files of the new commit are there. -/
  present : ∀ p, new.has p = true → ¬ c.Supplanted old p → c'.tree.files.get? p = new.get? p
  /-- Those that were supplanted are not, nor are they staged. -/
  supplanted : ∀ p, new.has p = true → c.Supplanted old p →
    c'.tree.files.get? p = none ∧ c'.index.get? p = none
  /-- What the index had goes if the new commit does not have it. -/
  gone : ∀ p, new.has p = false → c.index.has p = true → c'.tree.files.has p = false
  /-- What it did not have stays where no file of the new commit is near, unless it was overtaken. -/
  untracked : ∀ p, c.index.has p = false → (∀ q, new.has q = true → ¬ Path.Near q p) →
    (Overtaken old new p → c'.tree.files.get? p = none) ∧
      (¬ Overtaken old new p → c'.tree.files.get? p = c.tree.files.get? p)
  /-- No file appears that the new commit does not have. -/
  fewer : ∀ p, new.has p = false →
    c'.tree.files.get? p = none ∨ c'.tree.files.get? p = c.tree.files.get? p
  /-- The files of the new commit are staged. Where there was nothing to do, what was staged stays. -/
  staged : ∀ p, new.has p = true → ¬ c.Supplanted old p → c'.index.get? p = new.get? p ∨
    c'.index.get? p = c.index.get? p ∧ old.get? p = new.get? p ∧ c.tree.files.get? p = new.get? p
  /-- No other file is staged. Where there was none in the working tree, what was staged may stay. -/
  unstaged : ∀ p, new.has p = false → c'.index.get? p = none ∨
    c'.index.get? p = c.index.get? p ∧ c.tree.files.get? p = none

theorem mem_cleared_of_forgotten (h : p ∈ c.forgotten old new) : p ∈ c.cleared old new := by
  rcases mem_forgotten.mp h with ⟨hp, hdeed⟩ | hstray
  · exact mem_cleared.mpr (.inl ⟨hp, by rw [hdeed]⟩)
  · exact mem_cleared.mpr (.inr hstray)

/-- A file goes for good when the new commit does not have it and the old one or the index did. -/
theorem mem_forgotten_of_gone (hnew : new.has p = false) (hfile : c.tree.files.has p = true)
    (h : old.has p = true ∨ c.index.has p = true) : p ∈ c.forgotten old new := by
  by_cases hold : old.has p = true
  · exact mem_forgotten.mpr (.inl ⟨.inl hold, Deed.of_gone hold hnew hfile⟩)
  · exact mem_forgotten.mpr (.inr (mem_strays_iff.mpr
      ⟨hfile, Bool.eq_false_iff.mpr hold, hnew, h.resolve_left hold⟩))

/-- Nothing is cleared near a file that both commits have and the working tree too. -/
theorem not_near_of_same (hc : c.tree.Tidy) (hold : old.Placeable) (hnew : new.Placeable)
    (hp : new.has p = true) (hsame : old.get? p = new.get? p) (hfile : c.tree.files.has p = true) :
    ∀ q ∈ c.cleared old new, ¬ Path.Near q p := by
  intro q hq hnear
  have hp' : old.has p = true := by rw [PathMap.has, hsame, ← PathMap.has, hp]
  rcases mem_cleared.mp hq with ⟨hq | hq, hremove⟩ | hstray
  · obtain rfl := hold.eq_of_near hq hp' hnear
    rw [Deed.remove_of_same hp hsame hfile] at hremove
    cases hremove
  · obtain rfl := hnew.eq_of_near hq hp hnear
    rw [Deed.remove_of_same hp hsame hfile] at hremove
    cases hremove
  · obtain ⟨hq, hnone, -, -⟩ := mem_strays_iff.mp hstray
    obtain rfl := hc.placeable.eq_of_near hq hfile hnear
    rw [hp'] at hnone
    cases hnone

/-- A file of the new commit that is not written was supplanted or stays as it is. -/
theorem not_mem_written (hp : new.has p = true) (hnot : p ∉ c.written old new)
    (hsup : ¬ c.Supplanted old p) : old.get? p = new.get? p ∧ c.tree.files.get? p = new.get? p := by
  by_contra hsame
  exact hnot (mem_written.mpr ⟨hp, hsame, fun h => hsup h.2⟩)

/-- What is overtaken goes. -/
theorem near_cleared_of_overtaken (hc : c.tree.Sound) (hfile : c.tree.files.has p = true)
    (hfar : ∀ q, new.has q = true → ¬ Path.Near q p) (hover : Overtaken old new p) :
    ∃ q ∈ c.cleared old new, Path.Near q p := by
  have hnew {q : Path} (hnear : Path.Near q p) : new.has q = false :=
    Bool.eq_false_iff.mpr fun hq => hfar q hq hnear
  rcases hover with hold | hbelow | ⟨q, hq, habove, hsome⟩
  · exact ⟨p, mem_cleared_of_forgotten (mem_forgotten_of_gone (hnew (.refl p)) hfile (.inl hold)), .refl p⟩
  · obtain ⟨q, hq, habove⟩ := PathMap.hasBelow_iff.mp hbelow
    have hnear : Path.Near q p := .inr (Path.above_iff.mp habove).1
    have hnone : new.hasBelow q = false := by
      apply Bool.eq_false_iff.mpr
      intro hsome
      obtain ⟨x, hx, hqx⟩ := PathMap.hasBelow_iff.mp hsome
      exact hfar x hx (.inr (Path.above_iff.mp (Path.above_trans habove hqx)).1)
    exact ⟨q, mem_cleared.mpr (.inl ⟨.inl hq,
      Deed.remove_of_blocked hq (hnew hnear) hnone (hc.place_blocked hfile habove)⟩), hnear⟩
  · have hnear : Path.Near q p := .inl (Path.above_iff.mp habove).1
    have hdir := hc.isDir_of_above (.inl hfile) habove
    have hplace := Deed.place_directory hdir (hc.files_of_isDir hdir)
    exact ⟨q, mem_cleared.mpr (.inl ⟨.inl hq,
      Deed.remove_of_toDirectory hq (hnew hnear) hsome hplace⟩), hnear⟩

/-- An untracked file that is not overtaken stays. -/
theorem not_near_of_untracked (hc : c.tree.Tidy) (hfile : c.tree.files.has p = true)
    (hindex : c.index.has p = false) (hfar : ∀ q, new.has q = true → ¬ Path.Near q p)
    (hover : ¬ Overtaken old new p) : ∀ q ∈ c.cleared old new, ¬ Path.Near q p := by
  intro q hq hnear
  rcases mem_cleared.mp hq with ⟨hq | hq, hremove⟩ | hstray
  · have hnew : new.has q = false := Bool.eq_false_iff.mpr fun hq => hfar q hq hnear
    rcases Path.near_iff.mp hnear with rfl | habove | habove
    · exact hover (.inl hq)
    · have hnone : new.hasBelow q = false :=
        Bool.eq_false_iff.mpr fun hsome => hover (.inr (.inr ⟨q, hq, habove, hsome⟩))
      have hdir := hc.isDir_of_above (.inl hfile) habove
      rw [Deed.remove_of_filled hq hnew hnone (Deed.place_directory hdir (hc.files_of_isDir hdir))
        (PathMap.hasBelow_iff.mpr ⟨p, hfile, habove⟩)] at hremove
      cases hremove
    · exact hover (.inr (.inl (PathMap.hasBelow_iff.mpr ⟨q, hq, habove⟩)))
  · exact hfar q hq hnear
  · obtain ⟨hq, -, -, hstaged⟩ := mem_strays_iff.mp hstray
    obtain rfl := hc.placeable.eq_of_near hq hfile hnear
    rw [hindex] at hstaged
    cases hstaged

theorem not_mem_written_of_gone (hp : new.has p = false) : p ∉ c.written old new := by
  intro hmem
  rw [has_of_mem_written hmem] at hp
  cases hp

/-- No other file is written near one of the new commit. -/
theorem not_near_written (hnew : new.Placeable) (hp : new.has p = true) (hnot : p ∉ c.written old new) :
    ¬ ∃ q ∈ c.written old new, Path.Near q p := by
  rintro ⟨q, hq, hnear⟩
  obtain rfl := hnew.eq_of_near (has_of_mem_written hq) hp hnear
  exact hnot hq

/-- What is to be written and is not, nor was supplanted, is not cleared either. -/
theorem not_near_cleared (hc : c.tree.Tidy) (hold : old.Placeable) (hnew : new.Placeable)
    (hp : new.has p = true) (hnot : p ∉ c.written old new) (hsup : ¬ c.Supplanted old p) :
    ¬ ∃ q ∈ c.cleared old new, Path.Near q p := by
  obtain ⟨hsame, hthere⟩ := not_mem_written hp hnot hsup
  have hfile : c.tree.files.has p = true := by rw [PathMap.has, hthere, ← PathMap.has, hp]
  rintro ⟨q, hq, hnear⟩
  exact not_near_of_same hc hold hnew hp hsame hfile q hq hnear

/-- A file that is supplanted goes for good. -/
theorem forgotten_of_supplanted (hold : old.Placeable) (hp : new.has p = true) (hsup : c.Supplanted old p) :
    p ∉ c.written old new ∧ p ∈ c.forgotten old new := by
  have hnone : old.has p = false := by
    apply Bool.eq_false_iff.mpr
    intro hp
    obtain ⟨q, hq, habove⟩ := PathMap.hasBelow_iff.mp hsup.1
    rw [hold.not_above p q hp hq] at habove
    cases habove
  refine ⟨fun hmem => (mem_written.mp hmem).2.2 ⟨hnone, hsup⟩, ?_⟩
  exact mem_forgotten.mpr (.inl ⟨.inr hp, Deed.of_supplanted hnone hsup.1 hsup.2⟩)

theorem present_run (hc : c.tree.Tidy) (hold : old.Placeable) (hnew : new.Placeable)
    (h : c.run old new = (.ok (), c')) (hp : new.has p = true) (hsup : ¬ c.Supplanted old p) :
    c'.tree.files.get? p = new.get? p := by
  rw [files_run hc h]
  by_cases hmem : p ∈ c.written old new
  · rw [if_pos hmem]
  · rw [if_neg hmem, if_neg (not_near_cleared hc hold hnew hp hmem hsup), (not_mem_written hp hmem hsup).2]

theorem supplanted_run (hc : c.tree.Tidy) (hold : old.Placeable) (hnew : new.Placeable)
    (h : c.run old new = (.ok (), c')) (hp : new.has p = true) (hsup : c.Supplanted old p) :
    c'.tree.files.get? p = none ∧ c'.index.get? p = none := by
  obtain ⟨hmem, hforgotten⟩ := forgotten_of_supplanted hold hp hsup
  constructor
  · rw [files_run hc h, if_neg hmem, if_pos ⟨p, mem_cleared_of_forgotten hforgotten, .refl p⟩]
  · rw [index_run hnew h, if_neg hmem, if_pos (.inr hforgotten)]

theorem gone_run (hc : c.tree.Tidy) (h : c.run old new = (.ok (), c')) (hp : new.has p = false)
    (hindex : c.index.has p = true) : c'.tree.files.has p = false := by
  rw [← PathMap.get?_eq_none, files_run hc h, if_neg (not_mem_written_of_gone hp)]
  cases hthere : c.tree.files.has p with
  | true =>
    have hforgotten : p ∈ c.forgotten old new := mem_forgotten_of_gone hp hthere (.inr hindex)
    rw [if_pos ⟨p, mem_cleared_of_forgotten hforgotten, .refl p⟩]
  | false => rw [PathMap.get?_eq_none.mpr hthere, ite_self]

theorem untracked_run (hc : c.tree.Tidy) (h : c.run old new = (.ok (), c')) (hindex : c.index.has p = false)
    (hfar : ∀ q, new.has q = true → ¬ Path.Near q p) :
    (Overtaken old new p → c'.tree.files.get? p = none) ∧
      (¬ Overtaken old new p → c'.tree.files.get? p = c.tree.files.get? p) := by
  have hp : new.has p = false := Bool.eq_false_iff.mpr fun hp => hfar p hp (.refl p)
  rw [files_run hc h, if_neg (not_mem_written_of_gone hp)]
  cases hthere : c.tree.files.has p with
  | true =>
    constructor
    · intro hover
      rw [if_pos (near_cleared_of_overtaken hc.toSound hthere hfar hover)]
    · intro hover
      rw [if_neg]
      rintro ⟨q, hq, hnear⟩
      exact not_near_of_untracked hc hthere hindex hfar hover q hq hnear
  | false =>
    rw [PathMap.get?_eq_none.mpr hthere, ite_self]
    exact ⟨fun _ => rfl, fun _ => rfl⟩

theorem fewer_run (hc : c.tree.Tidy) (h : c.run old new = (.ok (), c')) (hp : new.has p = false) :
    c'.tree.files.get? p = none ∨ c'.tree.files.get? p = c.tree.files.get? p := by
  rw [files_run hc h, if_neg (not_mem_written_of_gone hp)]
  split
  · exact .inl rfl
  · exact .inr rfl

theorem staged_run (hc : c.tree.Tidy) (hold : old.Placeable) (hnew : new.Placeable)
    (h : c.run old new = (.ok (), c')) (hp : new.has p = true) (hsup : ¬ c.Supplanted old p) :
    c'.index.get? p = new.get? p ∨
    c'.index.get? p = c.index.get? p ∧ old.get? p = new.get? p ∧ c.tree.files.get? p = new.get? p := by
  rw [index_run hnew h]
  by_cases hmem : p ∈ c.written old new
  · exact .inl (if_pos hmem)
  · right
    have hstays : ¬ ((∃ q ∈ c.written old new, Path.Near q p) ∨ p ∈ c.forgotten old new) := by
      rintro (hnear | hforgotten)
      · exact not_near_written hnew hp hmem hnear
      · exact not_near_cleared hc hold hnew hp hmem hsup ⟨p, mem_cleared_of_forgotten hforgotten, .refl p⟩
    rw [if_neg hmem, if_neg hstays]
    exact ⟨rfl, not_mem_written hp hmem hsup⟩

theorem unstaged_run (hnew : new.Placeable) (h : c.run old new = (.ok (), c')) (hp : new.has p = false) :
    c'.index.get? p = none ∨ c'.index.get? p = c.index.get? p ∧ c.tree.files.get? p = none := by
  rw [index_run hnew h, if_neg (not_mem_written_of_gone hp)]
  split
  · exact .inl rfl
  · rename_i hstays
    cases hthere : c.tree.files.has p with
    | false => exact .inr ⟨rfl, PathMap.get?_eq_none.mpr hthere⟩
    | true =>
      left
      rw [PathMap.get?_eq_none]
      apply Bool.eq_false_iff.mpr
      intro hindex
      exact hstays (.inr (mem_forgotten_of_gone hp hthere (.inr hindex)))

/-- **A checkout that succeeds leads from the one commit to the other.** -/
theorem leads_run (hc : c.tree.Tidy) (hold : old.Placeable) (hnew : new.Placeable)
    (h : c.run old new = (.ok (), c')) : Leads old new c c' where
  present _ := present_run hc hold hnew h
  supplanted _ := supplanted_run hc hold hnew h
  gone _ := gone_run hc h
  untracked _ := untracked_run hc h
  fewer _ := fewer_run hc h
  staged _ := staged_run hc hold hnew h
  unstaged _ := unstaged_run hnew h

/-! ## Again, and back -/

/-- Nothing is done where the working tree has every file of the commit as it is, and the index knows no
other. -/
theorem run_eq_self (hfiles : ∀ p, new.has p = true → c.tree.files.get? p = new.get? p)
    (hindex : ∀ p, c.index.has p = true → c.tree.files.has p = true → new.has p = true) :
    c.run new new = (.ok (), c) := by
  have hwritten : c.written new new = [] := by
    apply List.eq_nil_iff_forall_not_mem.mpr
    intro p hp
    obtain ⟨hp, hne, -⟩ := mem_written.mp hp
    exact hne ⟨rfl, hfiles p hp⟩
  have hstrays : c.strays new new = [] := by
    apply List.eq_nil_iff_forall_not_mem.mpr
    intro p hp
    obtain ⟨hfile, -, hnone, hstaged⟩ := mem_strays_iff.mp hp
    rw [hindex p hstaged hfile] at hnone
    cases hnone
  have hremoved : (c.deeds new new).filter (·.2.remove) = [] := by
    rw [List.filter_eq_nil_iff]
    intro d hd
    obtain ⟨hp, heq⟩ := mem_deeds.mp hd
    rw [or_self] at hp
    have hfile : c.tree.files.has d.1 = true := by rw [PathMap.has, hfiles d.1 hp, ← PathMap.has, hp]
    rw [heq, Deed.remove_of_same hp rfl hfile]
    exact Bool.false_ne_true
  rw [run_eq, hwritten, swept, hstrays, hremoved]
  rfl

/-- **Checking out once more changes nothing**, if no file was supplanted. -/
theorem run_again (hc : c.tree.Tidy) (hold : old.Placeable) (hnew : new.Placeable)
    (h : c.run old new = (.ok (), c')) (hsup : ∀ p, new.has p = true → ¬ c.Supplanted old p) :
    c'.run new new = (.ok (), c') := by
  have hleads := leads_run hc hold hnew h
  apply run_eq_self
  · intro p hp
    exact hleads.present p hp (hsup p hp)
  · intro p hstaged hfile
    by_contra hp
    have hp : new.has p = false := Bool.eq_false_iff.mpr hp
    have hnone : c'.tree.files.get? p = none := by
      rcases hleads.unstaged p hp with hindex | ⟨-, hfiles⟩
      · rw [PathMap.has, hindex] at hstaged
        cases hstaged
      · rcases hleads.fewer p hp with hgone | hsame
        · exact hgone
        · rw [hsame, hfiles]
    rw [PathMap.get?_eq_none.mp hnone] at hfile
    cases hfile

/-- The working tree and the index have the files of the commit and nothing else. -/
structure Clean (m : Tree) (c : Checkout) : Prop where
  files : ∀ p, c.tree.files.get? p = m.get? p
  index : ∀ p, c.index.get? p = m.get? p

theorem Clean.not_supplanted (hclean : c.Clean old) (hold : old.Placeable) (p : Path) :
    ¬ c.Supplanted old p := by
  rintro ⟨hbelow, hfile⟩
  rw [PathMap.has_congr hclean.files] at hfile
  obtain ⟨q, hq, habove⟩ := PathMap.hasBelow_iff.mp hbelow
  rw [hold.not_above p q hfile hq] at habove
  cases habove

/-- What goes on the way to a commit are the files that it does not have. -/
theorem Clean.mem_cleared (hclean : c.Clean old) (hp : c.tree.files.has p = true) (hnone : new.has p = false) :
    p ∈ c.cleared old new := by
  have hfile := hp
  rw [PathMap.has_congr hclean.files] at hfile
  exact mem_cleared_of_forgotten (mem_forgotten_of_gone hnone hp (.inl hfile))

/-- Where nothing was uncommitted, nothing is afterwards. -/
theorem Clean.run (hclean : c.Clean old) (hc : c.tree.Tidy) (hold : old.Placeable) (hnew : new.Placeable)
    (h : c.run old new = (.ok (), c')) : c'.Clean new := by
  have hleads := leads_run hc hold hnew h
  have hsup := hclean.not_supplanted hold
  constructor
  · intro p
    cases hp : new.has p with
    | true => exact hleads.present p hp (hsup p)
    | false =>
      rw [PathMap.get?_eq_none.mpr hp]
      cases hindex : c.index.has p with
      | true => exact PathMap.get?_eq_none.mpr (hleads.gone p hp hindex)
      | false =>
        have hnone : c.tree.files.get? p = none := by
          rw [hclean.files, ← hclean.index, PathMap.get?_eq_none, hindex]
        rcases hleads.fewer p hp with hgone | hsame
        · exact hgone
        · rw [hsame, hnone]
  · intro p
    cases hp : new.has p with
    | true =>
      rcases hleads.staged p hp (hsup p) with hstaged | ⟨hsame, -, hfile⟩
      · exact hstaged
      · rw [hsame, hclean.index, ← hclean.files, hfile]
    | false =>
      rw [PathMap.get?_eq_none.mpr hp]
      rcases hleads.unstaged p hp with hnone | ⟨hsame, hnone⟩
      · exact hnone
      · rw [hsame, hclean.index, ← hclean.files, hnone]

/-- On the way back, what stands in the place of a file of the old commit is cleared: it is a file of the new
one, or a directory made for some. -/
theorem Clean.near_cleared_back (hclean : c.Clean old) (hc : c.tree.Tidy) (hold : old.Placeable)
    (hnew : new.Placeable) (h : c.run old new = (.ok (), c')) (hp : old.has p = true)
    (hdir : c'.tree.isDir p = true) (hpx : p <+: x) (hx : c'.tree.Holds x) :
    ∃ q ∈ c'.cleared new old, Path.Near q x := by
  have hclean' := hclean.run hc hold hnew h
  have hc' := run_tidy hc hnew h
  have hxne : x ≠ [] := fun h => hold.ne_nil p hp (List.prefix_nil.mp (h ▸ hpx))
  rcases hx with hxfile | hxdir
  · have hne : p ≠ x := by
      rintro rfl
      rw [hc'.apart p hxfile] at hdir
      cases hdir
    have hnone := hold.has_of_above hp (.inr (Path.above_of_prefix_ne hpx hne))
    exact ⟨x, hclean'.mem_cleared hxfile hnone, .refl x⟩
  · rcases (isDir_run hc h hxne).mp hxdir with ⟨q, hq, hxq⟩ | ⟨hxold, -⟩
    · -- a directory that was made for a file of the new commit
      obtain ⟨hxstart, hlt⟩ := Path.above_iff.mp hxq
      have habove : Path.above p q = true :=
        Path.above_iff.mpr ⟨hpx.trans hxstart, Nat.lt_of_le_of_lt hpx.length_le hlt⟩
      have hqfile := (PathMap.has_congr hclean'.files q).trans (has_of_mem_written hq)
      exact ⟨q, hclean'.mem_cleared hqfile (hold.has_of_above hp (.inr habove)), .inr hxstart⟩
    · -- no directory can have stood at or below the file
      exfalso
      have hpfile : c.tree.files.has p = true := (PathMap.has_congr hclean.files p).trans hp
      by_cases heq : p = x
      · subst heq
        rw [hc.apart p hpfile] at hxold
        cases hxold
      · have hnot := hc.toSound.not_above_holds hpfile (.inr hxold)
        rw [Path.above_of_prefix_ne hpx heq] at hnot
        cases hnot

/-- **The way back succeeds, and leads to where it began.** -/
theorem run_back (hclean : c.Clean old) (hc : c.tree.Tidy) (hold : old.Placeable) (hnew : new.Placeable)
    (h : c.run old new = (.ok (), c')) : ∃ c'', c'.run new old = (.ok (), c'') ∧ c''.Clean old := by
  have hclean' := hclean.run hc hold hnew h
  have hc' := run_tidy hc hnew h
  obtain ⟨c'', hback⟩ : ∃ c'', c'.run new old = (.ok (), c'') := by
    rw [run_isOk_iff hc' hold]
    intro p hp
    have hp := has_of_mem_written hp
    constructor
    · intro d habove hd
      exact ⟨d, hclean'.mem_cleared hd (hold.has_of_above hp (.inl habove)), .refl d⟩
    · intro hdir x hpx hx
      exact hclean.near_cleared_back hc hold hnew h hp hdir hpx hx
  exact ⟨c'', hback, hclean'.run hc' hnew hold hback⟩

end Checkout

end Chronicle
